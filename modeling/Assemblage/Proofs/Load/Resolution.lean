import Assemblage.Proofs.Load.Closure

/-!
# The versions that a resolver answers with

An assembly of another version than the one that is asked for is kept under the name
asked for as well.  This is no harm: the source had nothing better then, and it does not
change.  So the answer to a reference satisfies it whenever some assembly of the source
does, in whatever order the references come, and whichever of the assemblies that are
kept and satisfy a reference stands in for it.
-/

namespace Assemblage

namespace Version

variable {left middle right : Version}

/-- The parts of a version as the digits of one number. -/
def rank (version : Version) : Nat :=
  ((version.major.toNat * 65536 + version.minor.toNat) * 65536 + version.build.toNat) * 65536 +
    version.revision.toNat

/-- Versions are compared by rank. -/
theorem compare_eq_lt_iff : left.compare right = .lt ↔ left.rank < right.rank := by
  have hleft := left.minor.toNat_lt
  have hleft' := left.build.toNat_lt
  have hleft'' := left.revision.toNat_lt
  have hright := right.minor.toNat_lt
  have hright' := right.build.toNat_lt
  have hright'' := right.revision.toNat_lt
  simp only [compare, rank, compareOfLessAndEq, Ordering.then_eq_lt]
  split_ifs <;> simp <;> omega

theorem isUnknown_iff : left.isUnknown = true ↔ left.rank = 0 := by
  rw [isUnknown, decide_eq_true_iff]
  constructor
  · rintro rfl
    rfl
  · intro h
    have hparts : left.parts = unknown.parts := by
      simp only [rank] at h
      simp only [parts, unknown, List.cons.injEq, UInt16.toNat_zero, and_true]
      omega
    rw [← ofParts_parts left, hparts, ofParts_parts]

/-- A version is compatible with an unknown one, and with lower ones of its major version. -/
theorem isCompatibleWith_iff : left.isCompatibleWith right = true ↔
    right.isUnknown = true ∨ left.major = right.major ∧ right.rank ≤ left.rank := by
  rw [isCompatibleWith, Bool.or_eq_true, Bool.and_eq_true, beq_iff_eq, bne_iff_ne, Ne,
    compare_eq_lt_iff, Nat.not_lt]

theorem isCompatibleWith_refl (version : Version) : version.isCompatibleWith version = true :=
  isCompatibleWith_iff.2 (.inr ⟨rfl, Nat.le_refl _⟩)

/-- Only the unknown version is as old as the unknown one. -/
theorem isUnknown_of_rank_le (h : left.isUnknown = true) (hle : right.rank ≤ left.rank) :
    right.isUnknown = true := by
  rw [isUnknown_iff] at h ⊢
  omega

/-- Compatible versions can be chained. -/
theorem isCompatibleWith_trans (h : left.isCompatibleWith middle = true)
    (h' : middle.isCompatibleWith right = true) : left.isCompatibleWith right = true := by
  rw [isCompatibleWith_iff] at h h' ⊢
  rcases h' with hunknown | ⟨hmajor', hle'⟩
  · exact .inl hunknown
  rcases h with hunknown | ⟨hmajor, hle⟩
  · exact .inl (isUnknown_of_rank_le hunknown hle')
  · exact .inr ⟨hmajor.trans hmajor', hle'.trans hle⟩

end Version

namespace AssemblyIdentity

variable {left middle right : AssemblyIdentity}

/-- An identity satisfies another with the same name, the same culture and a compatible version.
-/
theorem satisfies_iff : left.satisfies right = true ↔
    Text.equalIgnoringCase left.name right.name = true ∧ left.culture = right.culture ∧
      left.version.isCompatibleWith right.version = true := by
  rw [satisfies, Bool.and_eq_true, Bool.and_eq_true, beq_iff_eq, and_assoc]

theorem satisfies_refl (identity : AssemblyIdentity) : identity.satisfies identity = true :=
  satisfies_iff.2 ⟨Text.equalIgnoringCase_refl _, rfl, Version.isCompatibleWith_refl _⟩

/-- Identities that satisfy each other can be chained. -/
theorem satisfies_trans (h : left.satisfies middle = true) (h' : middle.satisfies right = true) :
    left.satisfies right = true := by
  obtain ⟨hname, hculture, hversion⟩ := satisfies_iff.1 h
  obtain ⟨hname', hculture', hversion'⟩ := satisfies_iff.1 h'
  exact satisfies_iff.2 ⟨Text.equalIgnoringCase_trans hname hname', hculture.trans hculture',
    Version.isCompatibleWith_trans hversion hversion'⟩

end AssemblyIdentity

/-- An assembly of the name asked for that is as good an answer as any in the source. -/
structure Source.Suits (source : Source) (required : AssemblyIdentity)
    (assembly : AssemblyDef) : Prop where
  name_eq : Text.equalIgnoringCase assembly.name required.name = true
  satisfies : (∃ other ∈ source.assemblies, other.identity.satisfies required = true) →
    assembly.identity.satisfies required = true

theorem Source.suits_of_satisfies {source : Source} {required : AssemblyIdentity}
    {assembly : AssemblyDef} (h : assembly.identity.satisfies required = true) :
    source.Suits required assembly :=
  ⟨(AssemblyIdentity.satisfies_iff.1 h).1, fun _ => h⟩

theorem Source.suits_of_find? {source : Source} {required : AssemblyIdentity}
    {assembly : AssemblyDef} (h : source.find? required = some assembly) :
    source.Suits required assembly := by
  refine ⟨(mem_candidates_iff.1 (mem_candidates_of_find? h)).2, ?_⟩
  rintro ⟨other, hother, hsatisfies⟩
  have hcandidate : other ∈ source.candidates required.name :=
    mem_candidates_iff.2 ⟨hother, (AssemblyIdentity.satisfies_iff.1 hsatisfies).1⟩
  rcases Option.or_eq_some_iff.1 h with hfound | ⟨hnone, -⟩
  · exact (List.find?_eq_some_iff_append.1 hfound).1
  · exact absurd hsatisfies (List.find?_eq_none.1 hnone other hcandidate)

theorem Source.find?_of_read {source : Source} {required : AssemblyIdentity} {withSymbols : Bool}
    {assembly : AssemblyDef} (h : source.read required withSymbols = .ok assembly) :
    source.find? required = some assembly := by
  rw [read] at h
  split at h
  · cases h
  · rename_i found hfound
    split at h
    · cases h
    · cases h
      exact hfound

namespace Resolver

variable {source : Source} {resolver later : Resolver} {required : AssemblyIdentity}
  {withSymbols : Bool} {answer : Except Error AssemblyDef} {assembly : AssemblyDef}

/-- How a resolver can answer a reference, and what it is like afterwards.  Where several
of the assemblies that it keeps satisfy the reference, it is left open which of them
stands in. -/
inductive Resolves (resolver : Resolver) (required : AssemblyIdentity) (withSymbols : Bool) :
    Except Error AssemblyDef → Resolver → Prop
  | kept {assembly : AssemblyDef} (h : resolver.cached? required.displayName = some assembly) :
    Resolves resolver required withSymbols (.ok assembly) resolver
  | standsIn {entry : String × AssemblyDef}
    (hnew : resolver.cached? required.displayName = none) (hmem : entry ∈ resolver.cache)
    (hsatisfies : entry.2.identity.satisfies required = true) :
    Resolves resolver required withSymbols (.ok entry.2) resolver
  | asked {later : Resolver} (hnew : resolver.cached? required.displayName = none)
    (hnone : ∀ entry ∈ resolver.cache, entry.2.identity.satisfies required = false)
    (hlearns : resolver.Learns required (resolver.source.read required withSymbols) later) :
    Resolves resolver required withSymbols (resolver.source.read required withSymbols) later

/-- The one that was kept last is a possible choice. -/
theorem resolves_resolve (resolver : Resolver) (required : AssemblyIdentity)
    (withSymbols : Bool) :
    resolver.Resolves required withSymbols (resolver.resolve required withSymbols).1
      (resolver.resolve required withSymbols).2 := by
  cases hremembered : resolver.remembered? required with
  | some assembly =>
    simp only [resolve, hremembered]
    rcases Option.or_eq_some_iff.1 hremembered with hkept | ⟨hnew, hlast⟩
    · exact .kept hkept
    · obtain ⟨hmem, hsatisfies⟩ := List.mem_filter.1 (List.mem_of_getLast? hlast)
      obtain ⟨entry, hentry, rfl⟩ := List.mem_map.1 hmem
      exact .standsIn hnew hentry hsatisfies
  | none =>
    obtain ⟨hanswer, hlearns⟩ := learns_resolve hremembered withSymbols
    obtain ⟨hnew, hlast⟩ := Option.or_eq_none_iff.1 hremembered
    rw [hanswer]
    refine .asked hnew (fun entry hentry => ?_) hlearns
    rw [List.getLast?_eq_none_iff, List.filter_eq_nil_iff, List.forall_mem_map] at hlast
    exact Bool.eq_false_of_not_eq_true (hlast entry hentry)

/-- Whatever is kept under a name suits a reference with that name. -/
structure Prefers (resolver : Resolver) (source : Source) : Prop where
  source_eq : resolver.source = source
  suits : ∀ entry ∈ resolver.cache, ∃ identity : AssemblyIdentity, identity.IsCanonical ∧
    entry.1 = identity.displayName ∧ source.Suits identity entry.2

theorem prefers_new (source : Source) : Prefers { source } source :=
  ⟨rfl, fun _ h => absurd h List.not_mem_nil⟩

/-- What was kept for an identity suits it. -/
theorem Prefers.suits_of_cached? (h : resolver.Prefers source) (hrequired : required.IsCanonical)
    (hkept : resolver.cached? required.displayName = some assembly) :
    source.Suits required assembly := by
  obtain ⟨before, after, hcache, -⟩ := List.lookup_eq_some_iff.1 hkept
  have hmem : (required.displayName, assembly) ∈ resolver.cache := by
    rw [hcache]
    exact List.mem_append_right _ List.mem_cons_self
  obtain ⟨identity, hidentity, hkey, hsuits⟩ := h.suits _ hmem
  rwa [hrequired.eq_of_displayName_eq hidentity hkey]

/-- What the source answers may be kept under both names. -/
theorem Prefers.learns (h : resolver.Prefers source) (hrequired : required.IsCanonical)
    (hcanonical : ∀ assembly ∈ source.assemblies, assembly.identity.IsCanonical)
    (hlearns : resolver.Learns required (source.read required withSymbols) later) :
    later.Prefers source := by
  refine ⟨hlearns.source_eq.trans h.source_eq, fun entry hentry => ?_⟩
  rw [hlearns.cache_eq] at hentry
  cases hread : source.read required withSymbols with
  | error error =>
    rw [hread] at hentry
    exact h.suits entry hentry
  | ok assembly =>
    rw [hread] at hentry
    have hfound : source.find? required = some assembly := Source.find?_of_read hread
    have hmem : assembly ∈ source.assemblies :=
      (Source.mem_candidates_iff.1 (Source.mem_candidates_of_find? hfound)).1
    rcases mem_of_mem_keep hentry with rfl | hentry
    · exact ⟨assembly.identity, hcanonical assembly hmem, rfl,
        Source.suits_of_satisfies (AssemblyIdentity.satisfies_refl _)⟩
    rcases mem_of_mem_keep hentry with rfl | hentry
    · exact ⟨required, hrequired, rfl, Source.suits_of_find? hfound⟩
    · exact h.suits entry hentry

/-- One answer suits the reference, and what is kept then suits the next ones. -/
theorem Prefers.resolves (h : resolver.Prefers source) (hrequired : required.IsCanonical)
    (hcanonical : ∀ assembly ∈ source.assemblies, assembly.identity.IsCanonical)
    (hresolves : resolver.Resolves required withSymbols answer later) :
    later.Prefers source ∧ (∀ assembly, answer = .ok assembly → source.Suits required assembly) ∧
      ∀ error, answer = .error error → later.cache = resolver.cache := by
  cases hresolves with
  | kept hkept =>
    refine ⟨h, ?_, fun _ herror => nomatch herror⟩
    rintro _ ⟨⟩
    exact h.suits_of_cached? hrequired hkept
  | standsIn hnew hmem hsatisfies =>
    refine ⟨h, ?_, fun _ herror => nomatch herror⟩
    rintro _ ⟨⟩
    exact Source.suits_of_satisfies hsatisfies
  | asked hnew hnone hlearns =>
    rw [h.source_eq] at hlearns
    refine ⟨h.learns hrequired hcanonical hlearns, fun assembly hok => ?_, fun error herror => ?_⟩
    · rw [h.source_eq] at hok
      exact Source.suits_of_find? (Source.find?_of_read hok)
    · rw [h.source_eq] at herror
      rw [hlearns.cache_eq, herror]

end Resolver

/-! ## Conversations -/

/-- A reference that was put to a resolver, with what came of it. -/
structure Exchange where
  before : Resolver
  required : AssemblyIdentity
  withSymbols : Bool
  answer : Except Error AssemblyDef
  after : Resolver

/-- The exchanges are held one after the other, beginning with the given resolver. -/
inductive Converses : Resolver → List Exchange → Prop
  | nil (resolver : Resolver) : Converses resolver []
  | cons {exchange : Exchange} {rest : List Exchange}
    (h : exchange.before.Resolves exchange.required exchange.withSymbols exchange.answer
      exchange.after)
    (hrest : Converses exchange.after rest) : Converses exchange.before (exchange :: rest)

def Resolver.exchange (resolver : Resolver) (required : AssemblyIdentity) (withSymbols : Bool) :
    Exchange where
  before := resolver
  required := required
  withSymbols := withSymbols
  answer := (resolver.resolve required withSymbols).1
  after := (resolver.resolve required withSymbols).2

/-- What comes of putting references to a resolver one after the other. -/
def Resolver.converse (resolver : Resolver) : List (AssemblyIdentity × Bool) → List Exchange
  | [] => []
  | (required, withSymbols) :: rest =>
    let exchange := resolver.exchange required withSymbols
    exchange :: exchange.after.converse rest

namespace Converses

variable {source : Source} {resolver : Resolver} {exchanges : List Exchange}

theorem converse (resolver : Resolver) (questions : List (AssemblyIdentity × Bool)) :
    Converses resolver (resolver.converse questions) := by
  induction questions generalizing resolver with
  | nil => exact .nil resolver
  | cons question rest ih =>
    have hfirst := resolver.resolves_resolve question.1 question.2
    exact @cons (resolver.exchange question.1 question.2) _ hfirst (ih _)

/-- Every answer in a conversation suits its question. -/
theorem forall_suits (h : Converses resolver exchanges) (hprefers : resolver.Prefers source)
    (hcanonical : ∀ assembly ∈ source.assemblies, assembly.identity.IsCanonical)
    (hrequired : ∀ exchange ∈ exchanges, exchange.required.IsCanonical) :
    ∀ exchange ∈ exchanges,
      (∀ assembly, exchange.answer = .ok assembly →
        source.Suits exchange.required assembly) ∧
      ∀ error, exchange.answer = .error error → exchange.after.cache = exchange.before.cache := by
  induction h with
  | nil resolver => exact fun _ h => absurd h List.not_mem_nil
  | cons h hrest ih =>
    obtain ⟨hfirst, hothers⟩ := List.forall_mem_cons.1 hrequired
    obtain ⟨hlater, hanswer⟩ := hprefers.resolves hfirst hcanonical h
    exact List.forall_mem_cons.2 ⟨hanswer, ih hlater hothers⟩

end Converses

namespace Resolver

/-- Satisfying is reflexive and transitive.  Whatever is asked of a new resolver, and
whichever assembly stands in for another, an answer has the name asked for and satisfies
the reference if anything in the source does, and a failure leaves what is kept as it
was.  References that are resolved one after the other are such a conversation. -/
theorem resolves_suits :
    (∀ identity : AssemblyIdentity, identity.satisfies identity = true) ∧
    (∀ left middle right : AssemblyIdentity, left.satisfies middle = true →
      middle.satisfies right = true → left.satisfies right = true) ∧
    (∀ (resolver : Resolver) (questions : List (AssemblyIdentity × Bool)),
      Converses resolver (resolver.converse questions)) ∧
    ∀ source : Source,
      (∀ assembly ∈ source.assemblies,
        ∃ text, AssemblyIdentity.parse text = .ok assembly.identity) →
      ∀ exchanges : List Exchange, Converses { source } exchanges →
        (∀ exchange ∈ exchanges, ∃ text, AssemblyIdentity.parse text = .ok exchange.required) →
        ∀ exchange ∈ exchanges,
          (∀ assembly, exchange.answer = .ok assembly →
            Text.equalIgnoringCase assembly.name exchange.required.name = true ∧
            ((∃ other ∈ source.assemblies, other.identity.satisfies exchange.required = true) →
              assembly.identity.satisfies exchange.required = true)) ∧
          ∀ error, exchange.answer = .error error →
            exchange.after.cache = exchange.before.cache := by
  refine ⟨AssemblyIdentity.satisfies_refl, fun _ _ _ => AssemblyIdentity.satisfies_trans,
    Converses.converse, ?_⟩
  intro source hsource exchanges hconverses hrequired exchange hexchange
  obtain ⟨hok, herror⟩ := hconverses.forall_suits (prefers_new source)
    (fun assembly hmem => AssemblyIdentity.exists_parse_iff.1 (hsource assembly hmem))
    (fun other hmem => AssemblyIdentity.exists_parse_iff.1 (hrequired other hmem))
    exchange hexchange
  exact ⟨fun assembly hanswer => ⟨(hok assembly hanswer).name_eq, (hok assembly hanswer).satisfies⟩,
    herror⟩

open Loader

theorem exists_parse_versionOf {name : String} (hempty : name ≠ "") (hcomma : ',' ∉ name.toList)
    (htrimmed : Text.IsTrimmed name.toList) (major : UInt16) :
    ∃ text, AssemblyIdentity.parse text = .ok (versionOf name major) :=
  AssemblyIdentity.exists_parse_iff.2
    ⟨hempty, hcomma, htrimmed, fun _ h => (by cases h), fun _ h => (by cases h)⟩

/-- Two versions of one assembly, the later one without symbols. -/
def versionedSource : Source :=
  { assemblies := [wovenAssembly (versionOf "Lib" 1) [] true,
      wovenAssembly (versionOf "Lib" 2) [] false] }

/-- The first question is answered with another version.  The second fails for want of
symbols, the third does not, and neither the fourth nor the fifth asks the source. -/
def versionedQuestions : List (AssemblyIdentity × Bool) :=
  [(versionOf "Lib" 3, false), (versionOf "Lib" 2, true), (versionOf "LIB" 2, false),
    (versionOf "lib" 0, true), (versionOf "Lib" 3, true), (versionOf "Gone" 1, false)]

/-- Questions are answered from the source or from what was read before, and fail for want of
symbols or of the assembly. -/
theorem resolves_suits_versionedSource :
    let exchanges := ({ source := versionedSource } : Resolver).converse versionedQuestions
    (∀ assembly ∈ versionedSource.assemblies,
      ∃ text, AssemblyIdentity.parse text = .ok assembly.identity) ∧
    (∀ exchange ∈ exchanges, ∃ text, AssemblyIdentity.parse text = .ok exchange.required) ∧
    Converses { source := versionedSource } exchanges ∧
    (exchanges.map fun exchange => exchange.answer.toOption.map (·.identity.version.major)) =
      [some 1, none, some 2, some 2, some 1, none] ∧
    ∀ exchange ∈ exchanges,
      (∀ assembly, exchange.answer = .ok assembly →
        Text.equalIgnoringCase assembly.name exchange.required.name = true ∧
        ((∃ other ∈ versionedSource.assemblies,
            other.identity.satisfies exchange.required = true) →
          assembly.identity.satisfies exchange.required = true)) ∧
      ∀ error, exchange.answer = .error error →
        exchange.after.cache = exchange.before.cache := by
  intro exchanges
  have hplain : ∀ name ∈ ["Lib", "LIB", "lib", "Gone"],
      ∀ major, ∃ text, AssemblyIdentity.parse text = .ok (versionOf name major) := by
    have hnames : ∀ name ∈ ["Lib", "LIB", "lib", "Gone"],
        name ≠ "" ∧ ',' ∉ name.toList ∧ Text.IsTrimmed name.toList := by
      simp only [Text.IsTrimmed]
      decide
    intro name hname
    obtain ⟨hempty, hcomma, htrimmed⟩ := hnames name hname
    exact exists_parse_versionOf hempty hcomma htrimmed
  have hsource : ∀ assembly ∈ versionedSource.assemblies,
      ∃ text, AssemblyIdentity.parse text = .ok assembly.identity := by
    simp only [versionedSource, wovenAssembly, List.forall_mem_cons]
    exact ⟨hplain _ (by simp) _, hplain _ (by simp) _, fun _ h => absurd h List.not_mem_nil⟩
  have hrequired : ∀ exchange ∈ exchanges,
      ∃ text, AssemblyIdentity.parse text = .ok exchange.required := by
    simp only [exchanges, versionedQuestions, converse, List.forall_mem_cons]
    refine ⟨?_, ?_, ?_, ?_, ?_, ?_, fun _ h => absurd h List.not_mem_nil⟩
    all_goals exact hplain _ (by simp) _
  have hconverses : Converses { source := versionedSource } exchanges :=
    resolves_suits.2.2.1 _ versionedQuestions
  exact ⟨hsource, hrequired, hconverses, by decide +kernel,
    resolves_suits.2.2.2 versionedSource hsource exchanges hconverses hrequired⟩

end Resolver

end Assemblage
