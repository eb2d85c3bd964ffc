import Assemblage.Proofs.Load.Closure

/-!
# Strict loading

Strict mode makes no difference up to the first reference that cannot be resolved.  So a
strict load succeeds only where nothing is missing, and then it has loaded what any other
load would have, with the same diagnostics; and it ends with the failure that a load
which goes on puts on record first.
-/

namespace Assemblage.Loader

variable {loader : Loader} {loaded : Loaded} {state later : LoadState}
  {leniently strictly : Except Error Loaded × LoadState}

/-- How a load that goes on and a strict one can end, from the same failures on: with
nothing further missing and alike in everything, or the strict one with the first
failure that the other adds. -/
inductive Agrees (failures : List (String × Error)) :
    Except Error Loaded × LoadState → Except Error Loaded × LoadState → Prop
  | complete {result : Loaded} {later : LoadState} (h : result.failures = failures) :
    Agrees failures (.ok result, later) (.ok result, later)
  | stops {result : Loaded} {later stopped : LoadState} {name : String} {error : Error}
    {rest : List (String × Error)} (h : result.failures = failures ++ (name, error) :: rest) :
    Agrees failures (.ok result, later) (.error error, stopped)

/-- The strict load has stopped, and the other one goes on. -/
theorem Agrees.fail {failures : List (String × Error)} {name : String} {error : Error}
    {stopped : LoadState} (h : Agrees (failures ++ [(name, error)]) leniently strictly) :
    Agrees failures leniently (.error error, stopped) := by
  cases h with
  | complete h => exact .stops h
  | stops h => exact .stops (by rw [h, List.append_assoc]; rfl)

theorem failures_compare (loaded : Loaded) (required actual : AssemblyIdentity) :
    (loaded.compare required actual).failures = loaded.failures := by
  rw [Loaded.compare]
  split <;> rfl

theorem failures_add (loaded : Loaded) (assembly : AssemblyDef) :
    (loaded.add assembly).failures = loaded.failures := by
  rw [Loaded.add]
  split <;> rfl

section

variable {names : List String} {reference : AssemblyIdentity} {rest : List AssemblyIdentity}

theorem follow_skip (loader : Loader) (hname : reference.displayName ∈ names)
    (hignored : loader.ignores reference.displayName = true) :
    loader.follow names (reference :: rest) loaded state =
      loader.follow (without reference.displayName names) rest
        (loaded.skip reference.displayName) state := by
  rw [follow]
  simp only [dif_pos hname, hignored, if_true]

theorem follow_meet (loader : Loader) (hname : reference.displayName ∈ names)
    (hkept : ¬loader.ignores reference.displayName = true) {assembly : AssemblyDef}
    (hfound : loaded.find? reference.name = some assembly) :
    loader.follow names (reference :: rest) loaded state =
      loader.follow (without reference.displayName names) rest
        (loaded.compare reference assembly.identity) state := by
  rw [follow]
  simp only [dif_pos hname, if_neg hkept, hfound]

theorem follow_load (loader : Loader) (hname : reference.displayName ∈ names)
    (hkept : ¬loader.ignores reference.displayName = true)
    (hlost : loaded.find? reference.name = none) {assembly : AssemblyDef}
    (hread : loader.read state reference = (.ok assembly, later)) :
    loader.follow names (reference :: rest) loaded state =
      loader.follow (without reference.displayName names) (rest ++ assembly.references)
        ((loaded.compare reference assembly.identity).add assembly) later := by
  rw [follow]
  simp only [dif_pos hname, if_neg hkept, hlost, hread]

theorem follow_stop (loader : Loader) (hstrict : loader.strict = true)
    (hname : reference.displayName ∈ names)
    (hkept : ¬loader.ignores reference.displayName = true)
    (hlost : loaded.find? reference.name = none) {error : Error}
    (hread : loader.read state reference = (.error error, later)) :
    loader.follow names (reference :: rest) loaded state = (.error error, later) := by
  rw [follow]
  simp only [dif_pos hname, if_neg hkept, hlost, hread, if_pos hstrict]

theorem follow_fail (loader : Loader) (hstrict : loader.strict = false)
    (hname : reference.displayName ∈ names)
    (hkept : ¬loader.ignores reference.displayName = true)
    (hlost : loaded.find? reference.name = none) {error : Error}
    (hread : loader.read state reference = (.error error, later)) :
    loader.follow names (reference :: rest) loaded state =
      loader.follow (without reference.displayName names) rest
        (loaded.fail reference.displayName error)
        (later.report (unresolved reference.displayName error)) := by
  rw [follow]
  simp only [dif_pos hname, if_neg hkept, hlost, hread, hstrict, if_neg Bool.false_ne_true]

theorem follow_drop (loader : Loader) (hname : reference.displayName ∉ names) :
    loader.follow names (reference :: rest) loaded state =
      loader.follow names rest loaded state := by
  rw [follow]
  simp only [dif_neg hname]

end

/-- Step for step, the two do the same until a reference cannot be resolved. -/
theorem agrees_follow (hstrict : loader.strict = false) (names : List String)
    (queue : List AssemblyIdentity) (loaded : Loaded) (state : LoadState) :
    Agrees loaded.failures (loader.follow names queue loaded state)
      ({ loader with strict := true }.follow names queue loaded state) := by
  fun_induction follow loader names queue loaded state with
  | case1 names loaded state =>
    rw [follow]
    exact .complete rfl
  | case2 names loaded state reference rest name hname left hignored ih =>
    rw [follow_skip { loader with strict := true } hname hignored]
    exact ih
  | case3 names loaded state reference rest name hname left hkept assembly hfound ih =>
    rw [follow_meet { loader with strict := true } hname hkept hfound]
    rwa [failures_compare] at ih
  | case4 names loaded state reference rest name hname left hkept hlost assembly later hread ih =>
    rw [follow_load { loader with strict := true } hname hkept hlost hread]
    rwa [failures_add, failures_compare] at ih
  | case5 =>
    rename_i hstops
    rw [hstrict] at hstops
    cases hstops
  | case6 names loaded state reference rest name hname left hkept hlost error later hread _ ih =>
    rw [follow_stop { loader with strict := true } rfl hname hkept hlost hread]
    exact ih.fail
  | case7 names loaded state reference rest name hname ih =>
    rw [follow_drop { loader with strict := true } hname]
    exact ih

/-- From any state on, the strict walk agrees with the lenient one up to its first failure. -/
theorem agrees_followAll (hstrict : loader.strict = false) (state : LoadState)
    (primary : AssemblyDef) :
    Agrees [] (loader.followAll state primary)
      ({ loader with strict := true }.followAll state primary) := by
  rw [followAll, followAll]
  split
  · exact agrees_follow hstrict _ _ { assemblies := [primary] } _
  · exact .complete rfl

theorem load_of_read (hfollows : loader.followsReferences = true) {primary : AssemblyIdentity}
    {assembly : AssemblyDef} (hread : loader.read state primary = (.ok assembly, later)) :
    loader.load state primary =
      loader.follow (referenceNames later.resolver assembly) assembly.references
        { assemblies := [assembly] } later := by
  rw [load, hread]
  simp only [followAll, hfollows, if_true]

/-- Without a primary assembly there is nothing to agree on. -/
theorem load_cases (hstrict : loader.strict = false) (state : LoadState)
    (primary : AssemblyIdentity) :
    (∃ error later, loader.load state primary = (.error error, later) ∧
      { loader with strict := true }.load state primary = (.error error, later)) ∨
    Agrees [] (loader.load state primary) ({ loader with strict := true }.load state primary) := by
  have hread : { loader with strict := true }.read state primary = loader.read state primary := rfl
  rw [load, load, hread]
  cases loader.read state primary with
  | mk answer later =>
    cases answer with
    | error error => exact .inl ⟨error, later, rfl, rfl⟩
    | ok assembly => exact .inr (agrees_followAll hstrict later assembly)

/-- A strict load succeeds just if the other one does with nothing missing, and the two are
then alike, down to the diagnostics.  Where the other one succeeds with something missing,
the strict load fails for the first reason on record, and where it fails, so does the
strict one. -/
theorem strict_load (loader : Loader) (state : LoadState) (primary : AssemblyIdentity) :
    let leniently := { loader with strict := false }.load state primary
    let strictly := { loader with strict := true }.load state primary
    (∀ loaded later, strictly = (.ok loaded, later) ↔
      leniently = (.ok loaded, later) ∧ loaded.failures = []) ∧
    (∀ loaded name error rest, leniently.1 = .ok loaded →
      loaded.failures = (name, error) :: rest → strictly.1 = .error error) ∧
    ∀ error, leniently.1 = .error error → strictly = leniently := by
  intro leniently strictly
  have hcases : (∃ error later, leniently = (.error error, later) ∧
      strictly = (.error error, later)) ∨ Agrees [] leniently strictly :=
    load_cases rfl state primary
  clear_value leniently strictly
  rcases hcases with ⟨error, later, rfl, rfl⟩ | hagrees
  · refine ⟨fun loaded later => ⟨?_, ?_⟩, ?_, fun _ _ => rfl⟩
    · exact fun hok => nomatch hok
    · exact fun hok => nomatch hok.1
    · exact fun loaded name error rest hok => nomatch hok
  · cases hagrees with
    | complete h =>
      refine ⟨fun loaded later => ?_, fun loaded name error rest hok hfailures => ?_,
        fun _ _ => rfl⟩
      · refine ⟨fun hok => ⟨hok, ?_⟩, And.left⟩
        cases hok
        exact h
      · cases hok
        rw [h] at hfailures
        cases hfailures
    | stops h =>
      refine ⟨fun loaded later => ⟨?_, ?_⟩, fun loaded name error rest hok hfailures => ?_, ?_⟩
      · exact fun hok => nomatch hok
      · rintro ⟨hok, hfailures⟩
        cases hok
        rw [h] at hfailures
        cases hfailures
      · cases hok
        rw [h] at hfailures
        cases hfailures
        rfl
      · exact fun error herror => nomatch herror

def strandedReference : AssemblyIdentity :=
  versionOf "Gone" 1

def strandedApp : AssemblyDef :=
  wovenAssembly (versionOf "App" 1) [strandedReference] true

/-- One assembly, which refers to another that is not there. -/
def strandedState : LoadState :=
  { resolver := { source := { assemblies := [strandedApp] } } }

def forgivingLoader : Loader :=
  { ignores := fun name => name == strandedReference.displayName }

/-- The load that goes on has one failure on record, and the strict one fails with it.  Where
the missing assembly is not to be loaded, both succeed. -/
theorem strict_load_strandedState :
    (∃ loaded, (load { strict := false } strandedState (versionOf "App" 1)).1 = .ok loaded ∧
      loaded.failures = [(strandedReference.displayName,
        .assemblyNotResolved strandedReference.displayName)] ∧
      (load { strict := true } strandedState (versionOf "App" 1)).1 =
        .error (.assemblyNotResolved strandedReference.displayName)) ∧
    ∃ loaded later,
      { forgivingLoader with strict := false }.load strandedState (versionOf "App" 1) =
        (.ok loaded, later) ∧ loaded.failures = [] ∧
      { forgivingLoader with strict := true }.load strandedState (versionOf "App" 1) =
        (.ok loaded, later) := by
  have hreads (loader : Loader) (h : loader.readsSymbols = true) :
      ∃ later, loader.read strandedState (versionOf "App" 1) = (.ok strandedApp, later) ∧
        strandedReference.displayName ∈ referenceNames later.resolver strandedApp ∧
        ∃ last, loader.read later strandedReference =
          (.error (.assemblyNotResolved strandedReference.displayName), last) := by
    simp only [read, h, if_true]
    exact ⟨_, rfl, by decide +kernel, _, rfl⟩
  have hreferences : strandedApp.references = [strandedReference] := rfl
  have hlost : Loaded.find? { assemblies := [strandedApp] } strandedReference.name = none := rfl
  constructor
  · obtain ⟨later, hread, hname, last, hmissing⟩ := hreads { strict := false } rfl
    have hload : (load { strict := false } strandedState (versionOf "App" 1)).1 =
        .ok (Loaded.fail { assemblies := [strandedApp] } strandedReference.displayName
          (.assemblyNotResolved strandedReference.displayName)) := by
      rw [load_of_read rfl hread, hreferences,
        follow_fail _ rfl hname Bool.false_ne_true hlost hmissing, follow]
    exact ⟨_, hload, rfl, (strict_load {} _ _).2.1 _ _ _ _ hload rfl⟩
  · obtain ⟨later, hread, hname, -⟩ := hreads { forgivingLoader with strict := false } rfl
    have hload : { forgivingLoader with strict := false }.load strandedState (versionOf "App" 1) =
        (.ok (Loaded.skip { assemblies := [strandedApp] } strandedReference.displayName),
          later) := by
      rw [load_of_read rfl hread, hreferences, follow_skip _ hname (beq_self_eq_true _), follow]
    exact ⟨_, _, hload, rfl, ((strict_load forgivingLoader _ _).1 _ _).2 ⟨hload, rfl⟩⟩

end Assemblage.Loader
