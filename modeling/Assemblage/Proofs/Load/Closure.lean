import Assemblage.Proofs.Graph.Loaded
import Assemblage.Proofs.Load.Reading
import Mathlib.Data.List.Nodup

/-!
# The closure of references

A load follows each reference of each loaded assembly once.  What becomes of it can be
told afterwards, from the patterns, the source and the loaded assemblies alone:
it was passed over, it could not be resolved, or an assembly of its simple name is loaded.
-/

namespace Assemblage

/-- Identities of assemblies and of references are such as are read from display names. -/
def Source.Parsed (source : Source) : Prop :=
  ∀ assembly ∈ source.assemblies,
    (∃ text, AssemblyIdentity.parse text = .ok assembly.identity) ∧
      ∀ reference ∈ assembly.references, ∃ text, AssemblyIdentity.parse text = .ok reference

/-- Some assembly of the source has the reference. -/
def Source.Refers (source : Source) (reference : AssemblyIdentity) : Prop :=
  ∃ assembly ∈ source.assemblies, reference ∈ assembly.references

namespace Source.Parsed

variable {source : Source} {assembly : AssemblyDef} {reference other : AssemblyIdentity}

theorem isCanonical (h : source.Parsed) (hrefers : source.Refers reference) :
    reference.IsCanonical := by
  obtain ⟨assembly, hassembly, hreference⟩ := hrefers
  exact AssemblyIdentity.exists_parse_iff.1 ((h assembly hassembly).2 reference hreference)

/-- References that are written alike are the same. -/
theorem eq_of_displayName_eq (h : source.Parsed) (hrefers : source.Refers reference)
    (hother : source.Refers other) (hname : reference.displayName = other.displayName) :
    reference = other :=
  (h.isCanonical hrefers).eq_of_displayName_eq (h.isCanonical hother) hname

theorem no_comma (h : source.Parsed) (hmem : assembly ∈ source.assemblies) :
    ',' ∉ assembly.name.toList :=
  (AssemblyIdentity.exists_parse_iff.1 (h assembly hmem).1).name_no_comma

end Source.Parsed

namespace Loaded

/-- Some loaded assembly has the reference. -/
def Refers (loaded : Loaded) (reference : AssemblyIdentity) : Prop :=
  ∃ assembly ∈ loaded.assemblies, reference ∈ assembly.references

theorem find?_eq_none_iff {loaded : Loaded} {name : String} : loaded.find? name = none ↔
    ∀ assembly ∈ loaded.assemblies, Text.equalIgnoringCase assembly.name name = false := by
  rw [find?, List.find?_eq_none]
  exact forall₂_congr fun _ _ => Bool.eq_false_iff.symm

theorem mem_of_find? {loaded : Loaded} {name : String} {assembly : AssemblyDef}
    (h : loaded.find? name = some assembly) :
    assembly ∈ loaded.assemblies ∧ Text.equalIgnoringCase assembly.name name = true :=
  ⟨List.mem_of_find?_eq_some h, (List.find?_eq_some_iff_append.1 h).1⟩

theorem find?_congr {loaded next : Loaded} (h : next.assemblies = loaded.assemblies)
    (name : String) : next.find? name = loaded.find? name := by
  rw [find?, find?, h]

@[simp]
theorem assemblies_compare (loaded : Loaded) (required actual : AssemblyIdentity) :
    (loaded.compare required actual).assemblies = loaded.assemblies := by
  rw [compare]
  split <;> rfl

theorem skipped_compare (loaded : Loaded) (required actual : AssemblyIdentity) :
    (loaded.compare required actual).skipped = loaded.skipped := by
  rw [compare]
  split <;> rfl

theorem missing_compare (loaded : Loaded) (required actual : AssemblyIdentity) :
    (loaded.compare required actual).missing = loaded.missing := by
  rw [compare]
  split <;> rfl

/-- A further assembly at the end of those that are loaded. -/
def extend (loaded : Loaded) (assembly : AssemblyDef) : Loaded :=
  { loaded with assemblies := loaded.assemblies ++ [assembly] }

theorem find?_extend (loaded : Loaded) (assembly : AssemblyDef) (name : String) :
    (loaded.extend assembly).find? name = (loaded.find? name).or
      (if Text.equalIgnoringCase assembly.name name then some assembly else none) := by
  rw [find?, extend, List.find?_append, List.find?_singleton]
  rfl

/-- A comparison may be noted before or after the assembly is added. -/
theorem add_compare {loaded : Loaded} {assembly : AssemblyDef}
    (h : ∀ other ∈ loaded.assemblies, other.fullName ≠ assembly.fullName)
    (required actual : AssemblyIdentity) :
    (loaded.compare required actual).add assembly =
      (loaded.extend assembly).compare required actual := by
  have hother : loaded.assemblies.any (·.fullName == assembly.fullName) = false :=
    List.any_eq_false.2 fun other hmem => mt beq_iff_eq.1 (h other hmem)
  rw [add, assemblies_compare, hother, if_neg Bool.false_ne_true, compare, compare]
  split <;> rfl

/-- The record that a reference leads to where an assembly of its simple name is loaded. -/
def mismatch? (loaded : Loaded) (loader : Loader) (reference : AssemblyIdentity) :
    Option Mismatch :=
  if loader.ignores reference.displayName then none
  else
    (loaded.find? reference.name).bind fun assembly =>
      if assembly.identity.satisfies reference then none
      else some { required := reference, actual := assembly.identity }

/-- The loaded assemblies are those that the primary one leads to, of each simple name
one, and every reference of theirs is accounted for. -/
structure Accounts (loaded : Loaded) (loader : Loader) (source : Source) (first : AssemblyDef) :
    Prop where
  primary : loaded.primary? = some first
  held : loaded.assemblies ⊆ source.assemblies
  apart : loaded.assemblies.Pairwise fun left right =>
    Text.equalIgnoringCase left.name right.name = false
  /-- All but the primary one are named by a reference of an assembly before them. -/
  reached : ∀ before assembly after, loaded.assemblies = before ++ assembly :: after →
    before ≠ [] → ∃ parent ∈ before, ∃ reference ∈ parent.references,
      loader.ignores reference.displayName = false ∧
        Text.equalIgnoringCase assembly.name reference.name = true
  skipped_iff : ∀ reference, loaded.Refers reference →
    (reference.displayName ∈ loaded.skipped ↔ loader.ignores reference.displayName = true)
  missing_iff : ∀ reference, loaded.Refers reference →
    loader.ignores reference.displayName = false →
      (reference.displayName ∈ loaded.missing ↔ source.candidates reference.name = [])
  /-- A reference is missing, or an assembly of its simple name is loaded, and not both. -/
  loaded_iff : ∀ reference, loaded.Refers reference →
    loader.ignores reference.displayName = false →
      ((∃ assembly ∈ loaded.assemblies,
        Text.equalIgnoringCase assembly.name reference.name = true) ↔
          reference.displayName ∉ loaded.missing)
  mismatch_iff : ∀ reference, loaded.Refers reference →
    loader.ignores reference.displayName = false → ∀ assembly ∈ loaded.assemblies,
      Text.equalIgnoringCase assembly.name reference.name = true →
        ({ required := reference, actual := assembly.identity } ∈ loaded.mismatches ↔
          assembly.identity.satisfies reference = false)
  /-- Nothing else is put on record. -/
  recorded : (∀ name ∈ loaded.skipped ++ loaded.missing, ∃ reference,
      loaded.Refers reference ∧ reference.displayName = name) ∧
    ∀ mismatch ∈ loaded.mismatches, loaded.Refers mismatch.required
  skipped_nodup : loaded.skipped.Nodup
  missing_nodup : loaded.missing.Nodup

end Loaded

namespace Loader

variable {loader : Loader} {source : Source} {first assembly : AssemblyDef}
  {assemblies : List AssemblyDef} {reference : AssemblyIdentity} {names : List String}
  {queue rest followed : List AssemblyIdentity} {loaded : Loaded} {state : LoadState}

/-- Every reference of a loaded assembly is on the queue or has been followed, and which
have not is told by the names that are left. -/
structure Agenda (source : Source) (assemblies : List AssemblyDef) (names : List String)
    (queue followed : List AssemblyIdentity) : Prop where
  held : ∀ assembly ∈ assemblies, ∀ reference ∈ assembly.references,
    reference ∈ followed ∨ reference ∈ queue
  told : ∀ reference, reference ∈ followed ∨ reference ∈ queue →
    ∃ assembly ∈ assemblies, reference ∈ assembly.references
  left : ∀ reference, source.Refers reference →
    (reference.displayName ∈ names ↔ reference ∉ followed)
  once : followed.Nodup

theorem Agenda.drop (h : Agenda source assemblies names (reference :: rest) followed)
    (hheld : assemblies ⊆ source.assemblies) (hname : reference.displayName ∉ names) :
    Agenda source assemblies names rest followed where
  held assembly hassembly other hother := by
    rcases h.held assembly hassembly other hother with hfollowed | hqueue
    · exact .inl hfollowed
    rcases List.mem_cons.1 hqueue with rfl | hrest
    · have hrefers : source.Refers other := ⟨assembly, hheld hassembly, hother⟩
      exact .inl (not_not.1 (mt (h.left other hrefers).2 hname))
    · exact .inr hrest
  told other hother := h.told other (hother.imp_right (List.mem_cons_of_mem _))
  left := h.left
  once := h.once

theorem Agenda.follow (h : Agenda source assemblies names (reference :: rest) followed)
    (hparsed : source.Parsed) (hheld : assemblies ⊆ source.assemblies)
    (hname : reference.displayName ∈ names) :
    Agenda source assemblies (without reference.displayName names) rest
      (followed ++ [reference]) := by
  obtain ⟨parent, hparent, hreference⟩ := h.told reference (.inr List.mem_cons_self)
  have hrefers : source.Refers reference := ⟨parent, hheld hparent, hreference⟩
  constructor
  · intro assembly hassembly other hother
    rw [List.mem_append, List.mem_singleton, or_assoc]
    exact (h.held assembly hassembly other hother).imp_right List.mem_cons.1
  · intro other hother
    rw [List.mem_append, List.mem_singleton, or_assoc, ← List.mem_cons] at hother
    exact h.told other hother
  · intro other hother
    have hsame : other.displayName = reference.displayName ↔ other = reference :=
      ⟨hparsed.eq_of_displayName_eq hother hrefers, congrArg _⟩
    rw [without, List.mem_filter, decide_eq_true_iff, h.left other hother, List.mem_append,
      List.mem_singleton, not_or, Ne, hsame]
  · rw [← List.concat_eq_append]
    exact h.once.concat ((h.left reference hrefers).1 hname)

theorem Agenda.extend (h : Agenda source assemblies names queue followed) :
    Agenda source (assemblies ++ [assembly]) names (queue ++ assembly.references) followed where
  held other hother := by
    rcases List.mem_append.1 hother with hold | hnew
    · exact fun reference hreference =>
        (h.held other hold reference hreference).imp_right (List.mem_append_left _)
    · rw [List.mem_singleton.1 hnew]
      exact fun reference hreference => .inr (List.mem_append_right _ hreference)
  told other hother := by
    rw [List.mem_append, ← or_assoc] at hother
    rcases hother with hold | hnew
    · exact (h.told other hold).imp fun _ => And.imp_left (List.mem_append_left _)
    · exact ⟨assembly, List.mem_append_right _ (List.mem_singleton_self _), hnew⟩
  left := h.left
  once := h.once

/-- Loaded assemblies come from the source, with a reason for each but the first. -/
structure Grown (loader : Loader) (source : Source) (first : AssemblyDef)
    (assemblies : List AssemblyDef) : Prop where
  first_eq : assemblies.head? = some first
  apart : assemblies.Pairwise fun left right =>
    Text.equalIgnoringCase left.name right.name = false
  held : assemblies ⊆ source.assemblies
  reached : ∀ before assembly after, assemblies = before ++ assembly :: after →
    before ≠ [] → ∃ parent ∈ before, ∃ reference ∈ parent.references,
      loader.ignores reference.displayName = false ∧
        Text.equalIgnoringCase assembly.name reference.name = true

/-- A new assembly is one that a loaded one refers to. -/
theorem Grown.extend (h : Grown loader source first assemblies)
    (hassembly : assembly ∈ source.candidates reference.name)
    (hnew : ∀ other ∈ assemblies, Text.equalIgnoringCase other.name reference.name = false)
    (hrefers : ∃ parent ∈ assemblies, reference ∈ parent.references)
    (hkept : loader.ignores reference.displayName = false) :
    Grown loader source first (assemblies ++ [assembly]) := by
  obtain ⟨hmem, hname⟩ := Source.mem_candidates_iff.1 hassembly
  constructor
  · rw [List.head?_append, h.first_eq]
    rfl
  · rw [List.pairwise_append]
    refine ⟨h.apart, List.pairwise_singleton _ _, fun other hother added hadded => ?_⟩
    rw [List.mem_singleton.1 hadded, Bool.eq_false_iff]
    intro hsame
    have hfound := Text.equalIgnoringCase_trans hsame hname
    rw [hnew other hother] at hfound
    cases hfound
  · exact List.append_subset.2 ⟨h.held, List.cons_subset.2 ⟨hmem, List.nil_subset _⟩⟩
  · intro before last after heq hbefore
    rcases List.eq_nil_or_concat after with rfl | ⟨front, final, rfl⟩
    · obtain ⟨rfl, hlast⟩ := List.append_inj' heq rfl
      obtain rfl := List.singleton_inj.1 hlast
      obtain ⟨parent, hparent, hreference⟩ := hrefers
      exact ⟨parent, hparent, reference, hreference, hkept, hname⟩
    · refine h.reached before last front ?_ hbefore
      rw [List.concat_eq_append, ← List.cons_append, ← List.append_assoc] at heq
      exact (List.append_inj' heq rfl).1

/-- What is on record is what became of the references that have been followed. -/
structure Records (loader : Loader) (source : Source) (loaded : Loaded)
    (followed : List AssemblyIdentity) : Prop where
  skipped_eq : loaded.skipped =
    (followed.filter (loader.ignores ·.displayName)).map AssemblyIdentity.displayName
  missing_eq : loaded.missing =
    (followed.filter fun reference => !loader.ignores reference.displayName &&
      (source.find? reference).isNone).map AssemblyIdentity.displayName
  mismatches_eq : loaded.mismatches = followed.filterMap (loaded.mismatch? loader)
  met : ∀ reference ∈ followed, loader.ignores reference.displayName = false →
    (source.find? reference).isSome = true → (loaded.find? reference.name).isSome = true

theorem mismatch?_congr {next : Loaded} (h : next.assemblies = loaded.assemblies) :
    next.mismatch? loader = loaded.mismatch? loader := by
  funext reference
  rw [Loaded.mismatch?, Loaded.mismatch?, Loaded.find?_congr h]

/-- One more reference has been followed, and this is what became of it. -/
theorem Records.concat (h : Records loader source loaded followed) {next : Loaded}
    (hassemblies : next.assemblies = loaded.assemblies)
    (hskipped : next.skipped = loaded.skipped ++
      if loader.ignores reference.displayName then [reference.displayName] else [])
    (hmissing : next.missing = loaded.missing ++
      if !loader.ignores reference.displayName && (source.find? reference).isNone then
        [reference.displayName]
      else [])
    (hmismatches : next.mismatches =
      loaded.mismatches ++ (loaded.mismatch? loader reference).toList)
    (hmet : loader.ignores reference.displayName = false →
      (source.find? reference).isSome = true → (loaded.find? reference.name).isSome = true) :
    Records loader source next (followed ++ [reference]) where
  skipped_eq := by
    rw [hskipped, h.skipped_eq, List.filter_append, List.map_append, List.filter_cons]
    split <;> rfl
  missing_eq := by
    rw [hmissing, h.missing_eq, List.filter_append, List.map_append, List.filter_cons]
    split <;> rfl
  mismatches_eq := by
    rw [hmismatches, h.mismatches_eq, mismatch?_congr hassemblies, List.filterMap_append,
      List.filterMap_cons, List.filterMap_nil]
    cases loaded.mismatch? loader reference <;> rfl
  met := by
    simp only [Loaded.find?_congr hassemblies]
    rw [List.forall_mem_append, List.forall_mem_singleton]
    exact ⟨h.met, hmet⟩

theorem Records.skip (h : Records loader source loaded followed)
    (hignored : loader.ignores reference.displayName = true) :
    Records loader source (loaded.skip reference.displayName) (followed ++ [reference]) := by
  refine h.concat rfl ?_ ?_ ?_ ?_
  · rw [hignored]
    rfl
  · rw [hignored]
    exact (List.append_nil _).symm
  · rw [Loaded.mismatch?, if_pos hignored]
    exact (List.append_nil _).symm
  · rw [hignored]
    exact fun hkept => by cases hkept

theorem Records.fail (h : Records loader source loaded followed)
    (hkept : loader.ignores reference.displayName = false)
    (hlost : loaded.find? reference.name = none) (hlacks : source.find? reference = none)
    (error : Error) :
    Records loader source (loaded.fail reference.displayName error) (followed ++ [reference]) := by
  refine h.concat rfl ?_ ?_ ?_ ?_
  · rw [hkept]
    exact (List.append_nil _).symm
  · rw [hkept, hlacks]
    exact List.map_append
  · rw [Loaded.mismatch?, hlost, Option.bind_none, ite_self]
    exact (List.append_nil _).symm
  · rw [hlacks]
    exact fun _ hsome => by cases hsome

theorem Records.meet (h : Records loader source loaded followed)
    (hkept : loader.ignores reference.displayName = false)
    (hfound : loaded.find? reference.name = some assembly)
    (hholds : (source.find? reference).isSome = true) :
    Records loader source (loaded.compare reference assembly.identity)
      (followed ++ [reference]) := by
  refine h.concat (loaded.assemblies_compare _ _) ?_ ?_ ?_ ?_
  · rw [Loaded.skipped_compare, hkept]
    exact (List.append_nil _).symm
  · rw [Loaded.missing_compare, hkept, Option.isNone_eq_false_iff.2 hholds]
    exact (List.append_nil _).symm
  · rw [Loaded.mismatch?, hkept, hfound, Loaded.compare]
    by_cases hsatisfies : assembly.identity.satisfies reference = true
    · simp [hsatisfies]
    · simp [hsatisfies]
  · exact fun _ _ => by rw [hfound]; rfl

/-- A further assembly changes nothing for the references that have been followed. -/
theorem Records.extend (h : Records loader source loaded followed)
    (hmem : assembly ∈ source.assemblies) :
    Records loader source (loaded.extend assembly) followed := by
  refine ⟨h.skipped_eq, h.missing_eq, h.mismatches_eq.trans ?_, ?_⟩
  · refine List.filterMap_congr fun reference hreference => ?_
    rw [Loaded.mismatch?, Loaded.mismatch?]
    by_cases hignored : loader.ignores reference.displayName = true
    · rw [if_pos hignored, if_pos hignored]
    rw [Bool.not_eq_true] at hignored
    cases hfind : loaded.find? reference.name with
    | some found => rw [Loaded.find?_extend, hfind, Option.some_or]
    | none =>
      -- A reference that has not been met has no candidates, and so not this one.
      have hlacks : source.find? reference = none := by
        by_contra hholds
        have hmet := h.met reference hreference hignored (Option.isSome_iff_ne_none.2 hholds)
        rw [hfind] at hmet
        cases hmet
      have hother : Text.equalIgnoringCase assembly.name reference.name = false := by
        rw [Bool.eq_false_iff]
        intro hname
        have hholds := Source.isSome_find? hmem hname
        rw [hlacks] at hholds
        cases hholds
      rw [Loaded.find?_extend, hfind, hother]
      rfl
  · intro reference hreference hkept hholds
    obtain ⟨found, hfind⟩ := Option.isSome_iff_exists.1 (h.met reference hreference hkept hholds)
    rw [Loaded.find?_extend, hfind]
    rfl

/-! ## Steps of a walk -/

/-- What holds between two references, whatever has been found. -/
structure Walks (loader : Loader) (source : Source) (first : AssemblyDef) (names : List String)
    (queue : List AssemblyIdentity) (loaded : Loaded) (state : LoadState)
    (followed : List AssemblyIdentity) : Prop where
  agenda : Agenda source loaded.assemblies names queue followed
  grown : Grown loader source first loaded.assemblies
  records : Records loader source loaded followed
  source_eq : state.resolver.source = source
  keeps : state.resolver.Keeps loaded.assemblies

section

variable (h : Walks loader source first names (reference :: rest) loaded state followed)
  (hparsed : source.Parsed) (hname : reference.displayName ∈ names)

include h

theorem Walks.drop (hname : reference.displayName ∉ names) :
    Walks loader source first names rest loaded state followed :=
  { h with agenda := h.agenda.drop h.grown.held hname }

include hparsed

/-- A reference to no assembly that is loaded is put to the source. -/
theorem Walks.learns (hlost : loaded.find? reference.name = none) {later : LoadState}
    {answer : Except Error AssemblyDef} (hread : loader.read state reference = (answer, later)) :
    answer = source.read reference false ∧
      state.resolver.Learns reference answer later.resolver := by
  obtain ⟨parent, hparent, hreference⟩ := h.agenda.told reference (.inr List.mem_cons_self)
  have hcanonical := hparsed.isCanonical ⟨parent, h.grown.held hparent, hreference⟩
  have hforgotten := h.keeps.remembered?_eq_none hcanonical.name_no_comma
    (Loaded.find?_eq_none_iff.1 hlost)
  obtain ⟨hanswer, hlearns⟩ := loader.learns_read hforgotten
  rw [hread, h.source_eq] at hanswer hlearns
  obtain rfl : answer = _ := hanswer
  exact ⟨rfl, hlearns⟩

include hname

theorem Walks.skip (hignored : loader.ignores reference.displayName = true) :
    Walks loader source first (without reference.displayName names) rest
      (loaded.skip reference.displayName) state (followed ++ [reference]) where
  agenda := h.agenda.follow hparsed h.grown.held hname
  grown := h.grown
  records := h.records.skip hignored
  source_eq := h.source_eq
  keeps := h.keeps

theorem Walks.meet (hkept : loader.ignores reference.displayName = false)
    (hfound : loaded.find? reference.name = some assembly) :
    Walks loader source first (without reference.displayName names) rest
      (loaded.compare reference assembly.identity) state (followed ++ [reference]) := by
  obtain ⟨hmem, hsame⟩ := Loaded.mem_of_find? hfound
  constructor
  · rw [Loaded.assemblies_compare]
    exact h.agenda.follow hparsed h.grown.held hname
  · rw [Loaded.assemblies_compare]
    exact h.grown
  · exact h.records.meet hkept hfound (Source.isSome_find? (h.grown.held hmem) hsame)
  · exact h.source_eq
  · rw [Loaded.assemblies_compare]
    exact h.keeps

theorem Walks.fail (hkept : loader.ignores reference.displayName = false)
    (hlost : loaded.find? reference.name = none) {later : LoadState} {error : Error}
    (hread : loader.read state reference = (.error error, later)) (entry : Diagnostic) :
    Walks loader source first (without reference.displayName names) rest
      (loaded.fail reference.displayName error) (later.report entry)
      (followed ++ [reference]) := by
  obtain ⟨hanswer, hlearns⟩ := h.learns hparsed hlost hread
  have hlacks : source.find? reference = none := by
    cases hfind : source.find? reference with
    | none => rfl
    | some assembly =>
      rw [Source.read_false_of_some hfind] at hanswer
      cases hanswer
  have hcache : later.resolver.cache = state.resolver.cache := hlearns.cache_eq
  constructor
  · exact h.agenda.follow hparsed h.grown.held hname
  · exact h.grown
  · exact h.records.fail hkept hlost hlacks error
  · exact hlearns.source_eq.trans h.source_eq
  · intro entry hentry
    exact h.keeps entry (hcache ▸ hentry)

/-- The walk goes on after a reference that is read, with the references of what was read. -/
theorem Walks.load (hkept : loader.ignores reference.displayName = false)
    (hlost : loaded.find? reference.name = none) {later : LoadState}
    (hread : loader.read state reference = (.ok assembly, later)) :
    Walks loader source first (without reference.displayName names) (rest ++ assembly.references)
      ((loaded.compare reference assembly.identity).add assembly) later
      (followed ++ [reference]) := by
  obtain ⟨hanswer, hlearns⟩ := h.learns hparsed hlost hread
  have hfound : source.find? reference = some assembly := by
    cases hfind : source.find? reference with
    | none =>
      rw [Source.read_false_of_none hfind] at hanswer
      cases hanswer
    | some found =>
      rw [Source.read_false_of_some hfind] at hanswer
      rw [Except.ok.inj hanswer]
  have hcandidate := Source.mem_candidates_of_find? hfound
  obtain ⟨hmem, hsame⟩ := Source.mem_candidates_iff.1 hcandidate
  have hnew := Loaded.find?_eq_none_iff.1 hlost
  have hcomma : ',' ∉ assembly.name.toList := hparsed.no_comma hmem
  have hextended : Walks loader source first names (reference :: (rest ++ assembly.references))
      (loaded.extend assembly) later followed := by
    constructor
    · exact h.agenda.extend
    · exact h.grown.extend hcandidate hnew (h.agenda.told reference (.inr List.mem_cons_self)) hkept
    · exact h.records.extend hmem
    · exact hlearns.source_eq.trans h.source_eq
    · exact hlearns.keeps h.keeps hsame hcomma
  have hmet : (loaded.extend assembly).find? reference.name = some assembly := by
    rw [Loaded.find?_extend, hlost, hsame]
    rfl
  have hapart : ∀ other ∈ loaded.assemblies, other.fullName ≠ assembly.fullName := by
    intro other hother hfull
    have hcase := hnew other hother
    rw [AssemblyDef.name, AssemblyIdentity.name_eq_of_displayName_eq
      (hparsed.no_comma (h.grown.held hother)) hcomma hfull] at hcase
    exact Bool.eq_false_iff.1 hcase hsame
  rw [Loaded.add_compare hapart]
  exact hextended.meet hparsed hname hkept hmet

end

/-- A lenient walk ends, with all references followed. -/
theorem exists_follow (hparsed : source.Parsed) (hstrict : loader.strict = false)
    (h : Walks loader source first names queue loaded state followed) :
    ∃ result later names' followed', loader.follow names queue loaded state = (.ok result, later) ∧
      Walks loader source first names' [] result later followed' := by
  fun_induction follow loader names queue loaded state generalizing followed with
  | case1 names loaded state => exact ⟨loaded, state, names, followed, rfl, h⟩
  | case2 names loaded state reference rest name hname left hignored =>
    rename_i ih
    exact ih (h.skip hparsed hname hignored)
  | case3 names loaded state reference rest name hname left hkept assembly hfound =>
    rename_i ih
    exact ih (h.meet hparsed hname (Bool.eq_false_iff.2 hkept) hfound)
  | case4 names loaded state reference rest name hname left hkept hlost assembly later hread =>
    rename_i ih
    exact ih (h.load hparsed hname (Bool.eq_false_iff.2 hkept) hlost hread)
  | case5 =>
    rename_i hstops
    rw [hstrict] at hstops
    cases hstops
  | case6 names loaded state reference rest name hname left hkept hlost error later hread _ =>
    rename_i ih
    exact ih (h.fail hparsed hname (Bool.eq_false_iff.2 hkept) hlost hread _)
  | case7 names loaded state reference rest name hname =>
    rename_i ih
    exact ih (h.drop hname)

theorem Grown.find?_eq_some (h : Grown loader source first loaded.assemblies)
    (hmem : assembly ∈ loaded.assemblies) {name : String}
    (hname : Text.equalIgnoringCase assembly.name name = true) :
    loaded.find? name = some assembly := by
  have hapart : ({ assemblies := loaded.assemblies } : Graph).AssembliesApart := h.apart
  cases hfind : loaded.find? name with
  | none =>
    rw [Loaded.find?_eq_none_iff.1 hfind assembly hmem] at hname
    cases hname
  | some found =>
    obtain ⟨hfound, hsame⟩ := Loaded.mem_of_find? hfind
    rw [hapart.assembly_eq hfound hmem
      (Text.equalIgnoringCase_trans hsame (Text.equalIgnoringCase_symm hname))]

theorem required_of_mismatch? {mismatch : Mismatch}
    (h : loaded.mismatch? loader reference = some mismatch) : mismatch.required = reference := by
  rw [Loaded.mismatch?] at h
  split at h
  · cases h
  · obtain ⟨assembly, -, hrecord⟩ := Option.bind_eq_some_iff.1 h
    split at hrecord
    · cases hrecord
    · rw [← Option.some.inj hrecord]

section

variable (h : Agenda source assemblies names queue followed) (hparsed : source.Parsed)
  (hheld : assemblies ⊆ source.assemblies)

include h hparsed hheld

theorem Agenda.eq_of_displayName_eq {left right : AssemblyIdentity} (hleft : left ∈ followed)
    (hright : right ∈ followed) (hname : left.displayName = right.displayName) :
    left = right := by
  have hrefers : ∀ reference ∈ followed, source.Refers reference := fun reference hreference =>
    (h.told reference (.inl hreference)).imp fun _ => And.imp_left fun hmem => hheld hmem
  exact hparsed.eq_of_displayName_eq (hrefers left hleft) (hrefers right hright) hname

/-- The display names of references are as good as the references. -/
theorem Agenda.mem_displayNames_iff (hmem : reference ∈ followed)
    (chosen : AssemblyIdentity → Bool) :
    reference.displayName ∈ (followed.filter chosen).map AssemblyIdentity.displayName ↔
      chosen reference = true := by
  rw [List.mem_map]
  constructor
  · rintro ⟨other, hother, hname⟩
    obtain ⟨hfollowed, hchosen⟩ := List.mem_filter.1 hother
    exact h.eq_of_displayName_eq hparsed hheld hfollowed hmem hname ▸ hchosen
  · exact fun hchosen => ⟨reference, List.mem_filter.2 ⟨hmem, hchosen⟩, rfl⟩

/-- No reference is followed twice. -/
theorem Agenda.nodup_displayNames (chosen : AssemblyIdentity → Bool) :
    ((followed.filter chosen).map AssemblyIdentity.displayName).Nodup := by
  refine List.Nodup.map_on ?_ (h.once.filter chosen)
  intro left hleft right hright
  exact h.eq_of_displayName_eq hparsed hheld
    (List.mem_filter.1 hleft).1 (List.mem_filter.1 hright).1

end

/-- A mismatch is recorded exactly if the reference and what is loaded for it differ. -/
theorem Records.mem_mismatches_iff (h : Records loader source loaded followed)
    (hmem : reference ∈ followed) {mismatch : Mismatch}
    (hrequired : mismatch.required = reference) :
    mismatch ∈ loaded.mismatches ↔ loaded.mismatch? loader reference = some mismatch := by
  rw [h.mismatches_eq, List.mem_filterMap]
  constructor
  · rintro ⟨other, -, hother⟩
    rwa [← hrequired, required_of_mismatch? hother]
  · exact fun hrecord => ⟨reference, hmem, hrecord⟩

/-- Once nothing is left to follow, every reference is accounted for. -/
theorem Walks.accounts (h : Walks loader source first names [] loaded state followed)
    (hparsed : source.Parsed) : loaded.Accounts loader source first := by
  have hfollowed : ∀ reference, loaded.Refers reference → reference ∈ followed := by
    intro reference ⟨assembly, hassembly, hreference⟩
    exact (h.agenda.held assembly hassembly reference hreference).resolve_right List.not_mem_nil
  have hrefers : ∀ reference ∈ followed, loaded.Refers reference :=
    fun reference hreference => h.agenda.told reference (.inl hreference)
  have hmissing : ∀ reference, loaded.Refers reference →
      loader.ignores reference.displayName = false →
      (reference.displayName ∈ loaded.missing ↔ source.find? reference = none) := by
    intro reference hreference hkept
    rw [h.records.missing_eq, h.agenda.mem_displayNames_iff hparsed h.grown.held
      (hfollowed reference hreference), hkept]
    simp
  refine ⟨h.grown.first_eq, h.grown.held, h.grown.apart, h.grown.reached, ?skipped, ?missing,
    ?loaded, ?mismatch, ⟨?names, ?mismatches⟩, ?_, ?_⟩
  case skipped =>
    intro reference hreference
    rw [h.records.skipped_eq]
    exact h.agenda.mem_displayNames_iff hparsed h.grown.held (hfollowed reference hreference) _
  case missing =>
    intro reference hreference hkept
    rw [hmissing reference hreference hkept, Source.find?_eq_none_iff]
  case loaded =>
    intro reference hreference hkept
    rw [hmissing reference hreference hkept, ← Ne, ← Option.isSome_iff_ne_none]
    constructor
    · exact fun ⟨assembly, hassembly, hname⟩ =>
        Source.isSome_find? (h.grown.held hassembly) hname
    · intro hholds
      obtain ⟨found, hfound⟩ := Option.isSome_iff_exists.1
        (h.records.met reference (hfollowed reference hreference) hkept hholds)
      exact ⟨found, Loaded.mem_of_find? hfound⟩
  case mismatch =>
    intro reference hreference hkept assembly hassembly hname
    rw [h.records.mem_mismatches_iff (hfollowed reference hreference) rfl, Loaded.mismatch?, hkept,
      h.grown.find?_eq_some hassembly hname, Option.bind_some, if_neg Bool.false_ne_true]
    cases assembly.identity.satisfies reference <;> simp
  case names =>
    rw [List.forall_mem_append, h.records.skipped_eq, h.records.missing_eq, List.forall_mem_map,
      List.forall_mem_map]
    constructor
    all_goals
      intro reference hreference
      exact ⟨reference, hrefers reference (List.mem_filter.1 hreference).1, rfl⟩
  case mismatches =>
    intro mismatch hmismatch
    rw [h.records.mismatches_eq, List.mem_filterMap] at hmismatch
    obtain ⟨reference, hreference, hrecord⟩ := hmismatch
    rw [required_of_mismatch? hrecord]
    exact hrefers reference hreference
  · rw [h.records.skipped_eq]
    exact h.agenda.nodup_displayNames hparsed h.grown.held _
  · rw [h.records.missing_eq]
    exact h.agenda.nodup_displayNames hparsed h.grown.held _

/-- With nothing but the primary assembly loaded, its references are to be followed. -/
theorem walks_start (hmem : first ∈ source.assemblies) (hsource : state.resolver.source = source)
    (hkeeps : state.resolver.Keeps [first]) :
    Walks loader source first (referenceNames state.resolver first) first.references
      { assemblies := [first] } state [] where
  agenda := by
    refine ⟨?_, ?_, ?_, List.nodup_nil⟩
    · rw [List.forall_mem_singleton]
      exact fun reference hreference => .inr hreference
    · intro reference hreference
      exact ⟨first, List.mem_singleton_self _, hreference.resolve_left List.not_mem_nil⟩
    · rintro reference ⟨assembly, hassembly, hreference⟩
      refine iff_of_true ?_ List.not_mem_nil
      refine List.mem_map_of_mem (List.mem_flatMap.2 ⟨assembly, ?_, hreference⟩)
      exact List.mem_append_left _ (List.mem_cons_of_mem _ (hsource ▸ hassembly))
  grown := by
    refine ⟨rfl, List.pairwise_singleton _ _, ?_, ?_⟩
    · exact List.cons_subset.2 ⟨hmem, List.nil_subset _⟩
    · intro before assembly after heq hbefore
      have hlength : 1 = before.length + (after.length + 1) := by
        rw [← List.length_cons, ← List.length_append, ← heq]
        rfl
      exact absurd (List.length_eq_zero_iff.1 (by omega)) hbefore
  records := ⟨rfl, rfl, rfl, fun _ h => absurd h List.not_mem_nil⟩
  source_eq := hsource
  keeps := hkeeps

/-- A new resolver answers for the primary assembly as the source does. -/
theorem exists_read_primary (loader : Loader) (source : Source) (primary : AssemblyIdentity) :
    ∃ later, loader.read { resolver := { source } } primary = (source.read primary false, later) ∧
      ({ source } : Resolver).Learns primary (source.read primary false) later.resolver := by
  let state : LoadState := { resolver := { source } }
  have hnew : state.resolver.remembered? primary = none := rfl
  obtain ⟨hanswer, hlearns⟩ := loader.learns_read hnew
  exact ⟨_, Prod.ext hanswer rfl, hlearns⟩

/-- A load that starts anew and goes on where references cannot be resolved fails only if
the source has no assembly of the primary name.  Otherwise it comes to its end, with every
reference accounted for. -/
theorem load_accounts {loader : Loader} (hstrict : loader.strict = false)
    (hfollows : loader.followsReferences = true) {source : Source} (hparsed : source.Parsed)
    (primary : AssemblyIdentity) :
    (source.find? primary = none →
      (loader.load { resolver := { source } } primary).1 =
        .error (.assemblyNotResolved primary.displayName)) ∧
    ∀ first, source.find? primary = some first →
      ∃ loaded, (loader.load { resolver := { source } } primary).1 = .ok loaded ∧
        loaded.Accounts loader source first := by
  obtain ⟨later, hread, hlearns⟩ := loader.exists_read_primary source primary
  constructor
  · intro hlacks
    rw [Source.read_false_of_none hlacks] at hread
    rw [load, hread]
  · intro first hfound
    rw [Source.read_false_of_some hfound] at hread hlearns
    obtain ⟨hmem, hname⟩ := Source.mem_candidates_iff.1 (Source.mem_candidates_of_find? hfound)
    have hempty : ({ source } : Resolver).Keeps [] := fun _ h => absurd h List.not_mem_nil
    have hkeeps : later.resolver.Keeps [first] := hlearns.keeps hempty hname (hparsed.no_comma hmem)
    obtain ⟨loaded, last, names, followed, hfollow, hwalks⟩ :=
      exists_follow hparsed hstrict (walks_start hmem hlearns.source_eq hkeeps)
    refine ⟨loaded, ?_, hwalks.accounts hparsed⟩
    rw [load, hread]
    simp only [followAll, hfollows, if_true, hfollow]

def versionOf (name : String) (major : UInt16) : AssemblyIdentity :=
  { name, version := ⟨major, 0, 0, 0⟩ }

def wovenAssembly (identity : AssemblyIdentity) (references : List AssemblyIdentity)
    (hasSymbols : Bool) : AssemblyDef :=
  { identity, references, hasSymbols, modules := [], attributes := [] }

def wovenApp : AssemblyDef :=
  wovenAssembly (versionOf "App" 1) [versionOf "System" 4, versionOf "lib" 1, versionOf "Gone" 1]
    true

def wovenLib : AssemblyDef :=
  wovenAssembly (versionOf "Lib" 2) [versionOf "Gone" 1, versionOf "App" 1] false

/-- Two assemblies that refer to each other, one of them without symbols and not of the
version that is asked for.  Both refer to an assembly that the source lacks. -/
def wovenSource : Source :=
  { assemblies := [wovenApp, wovenLib] }

def wovenLoader : Loader :=
  { ignores := (· == (versionOf "System" 4).displayName) }

/-- Two assemblies that refer to each other are loaded once each, with one reference skipped,
one missing and one that does not match. -/
theorem load_accounts_wovenSource :
    wovenSource.Parsed ∧
    ∃ loaded, (wovenLoader.load { resolver := { source := wovenSource } }
        (versionOf "APP" 0)).1 = .ok loaded ∧
      loaded.primary? = some wovenApp ∧ wovenLib ∈ loaded.assemblies ∧
      (versionOf "System" 4).displayName ∈ loaded.skipped ∧
      (versionOf "Gone" 1).displayName ∈ loaded.missing ∧ loaded.missing.Nodup ∧
      { required := versionOf "lib" 1, actual := versionOf "Lib" 2 } ∈ loaded.mismatches := by
  have hplain : ∀ name ∈ ["App", "System", "lib", "Lib", "Gone"], ∀ major,
      ∃ text, AssemblyIdentity.parse text = .ok (versionOf name major) := by
    have hnames : ∀ name ∈ ["App", "System", "lib", "Lib", "Gone"],
        name ≠ "" ∧ ',' ∉ name.toList ∧ Text.IsTrimmed name.toList := by
      simp only [Text.IsTrimmed]
      decide
    intro name hname major
    obtain ⟨hempty, hcomma, htrimmed⟩ := hnames name hname
    exact AssemblyIdentity.exists_parse_iff.2
      ⟨hempty, hcomma, htrimmed, fun _ h => (by cases h), fun _ h => (by cases h)⟩
  have hparsed : wovenSource.Parsed := by
    rw [Source.Parsed, wovenSource, List.forall_mem_cons, List.forall_mem_singleton]
    simp only [wovenApp, wovenLib, wovenAssembly, List.forall_mem_cons]
    refine ⟨⟨hplain _ ?_ _, hplain _ ?_ _, hplain _ ?_ _, hplain _ ?_ _, ?_⟩,
      ⟨hplain _ ?_ _, hplain _ ?_ _, hplain _ ?_ _, ?_⟩⟩
    all_goals simp
  have hstrict : wovenLoader.strict = false := rfl
  obtain ⟨loaded, hload, haccounts⟩ :=
    (load_accounts hstrict rfl hparsed (versionOf "APP" 0)).2 wovenApp rfl
  have hrefers : ∀ reference ∈ wovenApp.references, loaded.Refers reference :=
    fun reference hreference => ⟨wovenApp, List.mem_of_head? haccounts.primary, hreference⟩
  simp only [wovenApp, wovenAssembly, List.forall_mem_cons] at hrefers
  obtain ⟨hsystem, hlib, hgone, -⟩ := hrefers
  have hkept : wovenLoader.ignores (versionOf "lib" 1).displayName = false := by decide
  -- The source has one assembly of this name, and so this one is loaded.
  obtain ⟨assembly, hassembly, hname⟩ := (haccounts.loaded_iff _ hlib hkept).2
    ((haccounts.missing_iff _ hlib hkept).not.2 (List.cons_ne_nil wovenLib []))
  obtain rfl : assembly = wovenLib := by
    rcases List.mem_cons.1 (haccounts.held hassembly) with rfl | hmem
    · exact absurd hname (by decide)
    · exact List.mem_singleton.1 hmem
  refine ⟨hparsed, loaded, hload, haccounts.primary, hassembly, ?_, ?_, haccounts.missing_nodup, ?_⟩
  · exact (haccounts.skipped_iff _ hsystem).2 (by decide)
  · exact (haccounts.missing_iff _ hgone (by decide)).2 rfl
  · exact (haccounts.mismatch_iff _ hlib hkept wovenLib hassembly hname).2 (by decide)

end Loader

end Assemblage
