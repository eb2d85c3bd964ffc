import Assemblage.Load.Loader
import Assemblage.Proofs.Identity.DisplayName

/-!
# Reading assemblies

What a resolver keeps are assemblies that it has read, each under display names that
begin with the simple name of the assembly.  So where none of these assemblies has the
simple name of a reference, the source is asked; and as symbols that are not there
are then done without, the source answers whenever it holds an assembly of that name.
-/

namespace Assemblage

theorem Text.eq_comma_of_toLower {c : Char} (h : c.toLower = ',') : c = ',' := by
  delta Char.toLower at h
  split at h
  · rename_i hupper
    have hlow : 65 ≤ c.val.toNat := UInt32.le_iff_toNat_le.1 hupper.1
    have hhigh : c.val.toNat ≤ 90 := UInt32.le_iff_toNat_le.1 hupper.2
    have hsum : (c.val + 32).toNat = 44 := congrArg (·.val.toNat) h
    have hstep : (32 : UInt32).toNat = 32 := rfl
    rw [UInt32.toNat_add] at hsum
    omega
  · exact h

/-- Names that differ in case only have commas alike. -/
theorem Text.comma_mem_of_equalIgnoringCase {left right : String}
    (h : equalIgnoringCase left right = true) (hcomma : ',' ∈ left.toList) :
    ',' ∈ right.toList := by
  rw [equalIgnoringCase_iff] at h
  have hlower : ',' ∈ right.toList.map Char.toLower := by
    rw [← h]
    exact List.mem_map.2 ⟨',', hcomma, by decide⟩
  obtain ⟨c, hc, heq⟩ := List.mem_map.1 hlower
  exact eq_comma_of_toLower heq ▸ hc

/-- A simple name without commas is what comes before the first one. -/
theorem AssemblyIdentity.firstSegment_displayName {identity : AssemblyIdentity}
    (h : ',' ∉ identity.name.toList) :
    Text.firstSegment ',' identity.displayName.toList = identity.name.toList := by
  rw [toList_displayName, components, List.map_cons, Text.joinWith,
    Text.firstSegment_append_of_not_mem h]
  · simp [Text.firstSegment]
  · exact List.cons_ne_nil _ _

/-- Without commas in it, the name is what comes before the first one. -/
theorem AssemblyIdentity.name_eq_of_displayName_eq {left right : AssemblyIdentity}
    (hleft : ',' ∉ left.name.toList) (hright : ',' ∉ right.name.toList)
    (h : left.displayName = right.displayName) : left.name = right.name := by
  rw [← String.toList_inj, ← firstSegment_displayName hleft, h, firstSegment_displayName hright]

namespace Source

variable {source : Source} {required : AssemblyIdentity} {assembly : AssemblyDef}

theorem mem_candidates_iff {name : String} :
    assembly ∈ source.candidates name ↔
      assembly ∈ source.assemblies ∧ Text.equalIgnoringCase assembly.name name = true :=
  List.mem_filter

theorem mem_candidates_of_find? (h : source.find? required = some assembly) :
    assembly ∈ source.candidates required.name := by
  rcases Option.or_eq_some_iff.1 h with hfound | ⟨-, hfirst⟩
  · exact List.mem_of_find?_eq_some hfound
  · exact List.mem_of_head? hfirst

theorem find?_eq_none_iff :
    source.find? required = none ↔ source.candidates required.name = [] := by
  rw [find?, Option.or_eq_none_iff, List.head?_eq_none_iff, and_iff_right_iff_imp]
  intro hempty
  rw [hempty]
  rfl

theorem isSome_find? (hmem : assembly ∈ source.assemblies)
    (hname : Text.equalIgnoringCase assembly.name required.name = true) :
    (source.find? required).isSome = true := by
  rw [Option.isSome_iff_ne_none, Ne, find?_eq_none_iff]
  exact List.ne_nil_of_mem (mem_candidates_iff.2 ⟨hmem, hname⟩)

theorem read_false_of_none (h : source.find? required = none) :
    source.read required false = .error (.assemblyNotResolved required.displayName) := by
  rw [read, h]

theorem read_false_of_some (h : source.find? required = some assembly) :
    source.read required false = .ok assembly := by
  rw [read, h]
  rfl

/-- With symbols the answer is the same, or it is that they are not there. -/
theorem read_true_cases (source : Source) (required : AssemblyIdentity) :
    (source.read required true = source.read required false ∧
      ∀ displayName, source.read required false ≠ .error (.symbolsUnavailable displayName)) ∨
    ∃ displayName, source.read required true = .error (.symbolsUnavailable displayName) := by
  simp only [read]
  cases source.find? required with
  | none => exact .inl ⟨rfl, fun _ h => by cases h⟩
  | some assembly =>
    cases hsymbols : assembly.hasSymbols with
    | true => exact .inl ⟨by simp [hsymbols], fun _ h => by cases h⟩
    | false => exact .inr ⟨assembly.fullName, by simp [hsymbols]⟩

end Source

namespace Resolver

variable {resolver : Resolver} {assemblies : List AssemblyDef} {required : AssemblyIdentity}

theorem mem_of_mem_keep {key : String} {assembly : AssemblyDef}
    {entries : List (String × AssemblyDef)} {entry : String × AssemblyDef}
    (h : entry ∈ keep key assembly entries) : entry = (key, assembly) ∨ entry ∈ entries := by
  induction entries with
  | nil => exact .inl (List.mem_singleton.1 h)
  | cons head rest ih =>
    rw [keep] at h
    split at h
    · exact (List.mem_cons.1 h).imp_right (List.mem_cons_of_mem head)
    · rcases List.mem_cons.1 h with rfl | hrest
      · exact .inr List.mem_cons_self
      · exact (ih hrest).imp_right (List.mem_cons_of_mem head)

/-- Only the given assemblies are kept, each under names that agree with its own. -/
def Keeps (resolver : Resolver) (assemblies : List AssemblyDef) : Prop :=
  ∀ entry ∈ resolver.cache, entry.2 ∈ assemblies ∧
    ∃ identity : AssemblyIdentity, ',' ∉ identity.name.toList ∧
      entry.1 = identity.displayName ∧
      Text.equalIgnoringCase entry.2.name identity.name = true

/-- A reference to an assembly of a new name finds nothing. -/
theorem Keeps.remembered?_eq_none (h : resolver.Keeps assemblies)
    (hcomma : ',' ∉ required.name.toList)
    (hnew : ∀ assembly ∈ assemblies,
      Text.equalIgnoringCase assembly.name required.name = false) :
    resolver.remembered? required = none := by
  rw [remembered?, Option.or_eq_none_iff]
  constructor
  · rw [cached?, List.lookup_eq_none_iff]
    intro entry hentry
    obtain ⟨hmem, identity, hidentity, hkey, hname⟩ := h entry hentry
    rw [bne_iff_ne, hkey]
    intro heq
    rw [← AssemblyIdentity.name_eq_of_displayName_eq hcomma hidentity heq, hnew _ hmem] at hname
    cases hname
  · rw [List.getLast?_eq_none_iff, List.filter_eq_nil_iff, List.forall_mem_map]
    intro entry hentry hsatisfies
    rw [AssemblyIdentity.satisfies, Bool.and_eq_true, Bool.and_eq_true] at hsatisfies
    have hname : Text.equalIgnoringCase entry.2.name required.name = true := hsatisfies.1.1
    rw [hnew _ (h entry hentry).1] at hname
    cases hname

/-- What the source has answered is kept under the name asked for and under its own. -/
structure Learns (resolver : Resolver) (required : AssemblyIdentity)
    (answer : Except Error AssemblyDef) (later : Resolver) : Prop where
  source_eq : later.source = resolver.source
  cache_eq : later.cache =
    match answer with
    | .error _ => resolver.cache
    | .ok assembly =>
      keep assembly.fullName assembly (keep required.displayName assembly resolver.cache)

/-- A question that is new is put to the source, and the answer is kept. -/
theorem learns_resolve (h : resolver.remembered? required = none) (withSymbols : Bool) :
    (resolver.resolve required withSymbols).1 = resolver.source.read required withSymbols ∧
      resolver.Learns required (resolver.source.read required withSymbols)
        (resolver.resolve required withSymbols).2 := by
  simp only [resolve, h]
  cases resolver.source.read required withSymbols with
  | error error => exact ⟨rfl, rfl, rfl⟩
  | ok assembly => exact ⟨rfl, rfl, rfl⟩

theorem remembered?_congr {later : Resolver} (h : later.cache = resolver.cache) :
    later.remembered? required = resolver.remembered? required := by
  rw [remembered?, remembered?, cached?, cached?, h]

/-- A question that has failed makes no difference to the next. -/
theorem Learns.of_error {middle later : Resolver} {error : Error}
    {answer : Except Error AssemblyDef} (h : middle.Learns required answer later)
    (hfailed : resolver.Learns required (.error error) middle) :
    resolver.Learns required answer later where
  source_eq := h.source_eq.trans hfailed.source_eq
  cache_eq := by
    have hcache : middle.cache = resolver.cache := hfailed.cache_eq
    rw [h.cache_eq, hcache]

/-- What was learned is kept with what was known. -/
theorem Learns.keeps {later : Resolver} {assembly : AssemblyDef}
    (h : resolver.Learns required (.ok assembly) later) (hkeeps : resolver.Keeps assemblies)
    (hname : Text.equalIgnoringCase assembly.name required.name = true)
    (hcomma : ',' ∉ assembly.name.toList) : later.Keeps (assemblies ++ [assembly]) := by
  have hrequired : ',' ∉ required.name.toList := fun hmem =>
    hcomma (Text.comma_mem_of_equalIgnoringCase (Text.equalIgnoringCase_symm hname) hmem)
  have hmem : assembly ∈ assemblies ++ [assembly] :=
    List.mem_append_right _ (List.mem_singleton_self _)
  intro entry hentry
  rw [h.cache_eq] at hentry
  rcases mem_of_mem_keep hentry with rfl | hentry
  · exact ⟨hmem, assembly.identity, hcomma, rfl, Text.equalIgnoringCase_refl _⟩
  rcases mem_of_mem_keep hentry with rfl | hentry
  · exact ⟨hmem, required, hrequired, rfl, hname⟩
  · exact (hkeeps entry hentry).imp_left (List.mem_append_left _)

end Resolver

namespace Loader

variable {state : LoadState} {required : AssemblyIdentity}

/-- Whether symbols are asked for makes no difference to what is read. -/
theorem learns_read (loader : Loader) (h : state.resolver.remembered? required = none) :
    (loader.read state required).1 = state.resolver.source.read required false ∧
      state.resolver.Learns required (state.resolver.source.read required false)
        (loader.read state required).2.resolver := by
  rw [read]
  split
  · obtain ⟨hanswer, hlearns⟩ := Resolver.learns_resolve h true
    rw [LoadState.resolve]
    cases hresolve : state.resolver.resolve required true with
    | mk answer later =>
      rw [hresolve] at hanswer hlearns
      obtain rfl : answer = _ := hanswer
      rcases state.resolver.source.read_true_cases required with ⟨hsame, hplain⟩ | ⟨name, hlacks⟩
      · rw [hsame] at hlearns ⊢
        dsimp only
        split
        · rename_i heq
          exact absurd (congrArg Prod.fst heq) (hplain _)
        · exact ⟨rfl, hlearns⟩
      · rw [hlacks] at hlearns ⊢
        -- A failure leaves the cache as it was, so that the source is asked again.
        have hagain : later.remembered? required = none :=
          (Resolver.remembered?_congr hlearns.cache_eq).trans h
        obtain ⟨hanswer, hplain⟩ := Resolver.learns_resolve hagain false
        rw [hlearns.source_eq] at hanswer hplain
        exact ⟨hanswer, hplain.of_error hlearns⟩
  · exact Resolver.learns_resolve h false

end Loader

end Assemblage
