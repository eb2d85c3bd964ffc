import Assemblage.Proofs.Model.Requests

/-!
# The store between requests

Between two requests every model in the cache is kept under its own identifier,
its groups are formed, and it is decided which of its members are ignored.  Every
type its members name has an entry, which is empty exactly if the graph lacks the
type.  Requests leave entries as they are, so none of this is ever undone.
-/

namespace Assemblage

/-- No type of the graph is named like a generic parameter. -/
def Graph.AvoidsParameters (graph : Graph) : Prop :=
  ∀ definition, graph.Indexes definition → definition.fullName.toList.head? ≠ some '!'

/-- A signature names a definition, wraps another one or stands for a parameter. -/
theorem Signature.exists_name_or_wrapped (signature : Signature) :
    (∃ name, signature.definitionName? = some name) ∨ signature.typeId.shape ≠ [] ∨
      signature.typeId.fullName.toList.head? = some '!' := by
  fun_induction Signature.typeId signature with
  | case1 | case2 | case3 | case4 => exact .inr (.inl (List.cons_ne_nil _ _))
  | case5 definition arguments ih => exact ih
  | case6 name | case7 name => exact .inl ⟨name, rfl⟩
  | case8 p => exact .inl ⟨_, rfl⟩
  | case9 index | case10 index =>
    refine .inr (.inr ?_)
    simp only [String.toList_append]
    rfl

/-- What cannot be resolved is not a type of the graph, whatever its form. -/
theorem Graph.AvoidsParameters.lacks {graph : Graph} (h : graph.AvoidsParameters)
    {signature : Signature} (hresolve : graph.resolve? signature = none) :
    graph.Lacks signature.typeId := by
  rcases signature.exists_name_or_wrapped with ⟨name, hname⟩ | hwrapped | hparameter
  · exact lacks_of_resolve?_eq_none hname hresolve
  · intro definition _ hid
    rw [← hid] at hwrapped
    exact hwrapped rfl
  · intro definition hindexed hid
    rw [← hid] at hparameter
    exact h definition hindexed hparameter

namespace Program

/-- What holds between requests. -/
structure Settled (program : Program) (cache : Cache) : Prop where
  keyed : ∀ id model, cache.find? id = some (some model) →
    model.id = id ∧ model.definition.typeId = id
  closed : ∀ id model, cache.find? id = some (some model) →
    ∀ member ∈ model.members, ∀ type ∈ member.types, ∀ named, Signature.Names type named →
      named.primitive? = none →
        ∃ entry, cache.find? named.typeId = some entry ∧
          (entry = none ↔ program.graph.resolve? named = none)
  checked : ∀ id model, cache.find? id = some (some model) → ∀ member ∈ model.members,
    member.ignored? = some (member.marks.ignored || member.types.any (program.ignores cache))
  grouped : ∀ id model, cache.find? id = some (some model) →
    model.groups = MethodGroup.construct model.fullName model.members

/-- Every type recorded as absent is one that the graph lacks. -/
def Honest (program : Program) (cache : Cache) : Prop :=
  ∀ id, cache.find? id = some none → program.graph.Lacks id

variable {program : Program}

theorem settled_empty : program.Settled {} where
  keyed _ _ h := absurd h.symm (Option.some_ne_none _)
  closed _ _ h := absurd h.symm (Option.some_ne_none _)
  checked _ _ h := absurd h.symm (Option.some_ne_none _)
  grouped _ _ h := absurd h.symm (Option.some_ne_none _)

theorem honest_empty : program.Honest {} :=
  fun _ h => absurd h.symm (Option.some_ne_none _)

/-- Entries of faithful and honest caches are empty exactly for lacking types. -/
theorem entry_eq_none_iff {cache : Cache} (hfaithful : cache.Faithful program)
    (hhonest : program.Honest cache) {named : Signature} {entry : Option TypeModel}
    {name : TypeName} (hname : named.definitionName? = some name)
    (hentry : cache.find? named.typeId = some entry) :
    entry = none ↔ program.graph.resolve? named = none := by
  cases entry with
  | none => exact iff_of_true rfl (Graph.resolve?_eq_none_of_lacks (hhonest _ hentry))
  | some model =>
    have hmodel := hfaithful _ model hentry
    apply iff_of_false (Option.some_ne_none model)
    intro hresolve
    exact Graph.lacks_of_resolve?_eq_none hname hresolve _ hmodel.indexed hmodel.typeId_eq

/-- A larger cache answers the same about types whose entries were there. -/
theorem ignores_extends {smaller larger : Cache} (h : larger.Extends smaller) {type : Signature}
    (hnamed : ∀ named, Signature.Names type named → named.primitive? = none →
      ∃ entry, smaller.find? named.typeId = some entry) :
    program.ignores larger type = program.ignores smaller type := by
  apply ignores_congr
  intro named hnames hprimitive
  apply ignoresNamed_congr
  obtain ⟨entry, hentry⟩ := hnamed named hnames hprimitive
  rw [Cache.model?, Cache.model?, hentry, h _ _ hentry]

/-- Whether a type is ignored hangs on the flags of the models alone. -/
theorem ignores_of_same_flags {left right : Cache}
    (h : ∀ id, (left.model? id).map TypeModel.ignored = (right.model? id).map TypeModel.ignored) :
    program.ignores left = program.ignores right :=
  funext fun _ => ignores_congr fun named _ _ => ignoresNamed_congr (h named.typeId)

/-- A cache that extends a settled one is settled if its new models are. -/
theorem Settled.extend {smaller larger : Cache} (h : program.Settled smaller)
    (hextend : larger.Extends smaller) (hfaithful : larger.Faithful program)
    (hhonest : program.Honest larger)
    (hnew : ∀ id model, larger.find? id = some (some model) →
      smaller.find? id = some (some model) ∨ Made program larger id model) :
    program.Settled larger where
  keyed id model hmodel :=
    ⟨(hfaithful id model hmodel).id_eq, (hfaithful id model hmodel).typeId_eq⟩
  closed id model hmodel member hmember type htype named hnames hprimitive := by
    have hcontains : larger.contains named.typeId = true := by
      cases hnew id model hmodel with
      | inl hold =>
        obtain ⟨entry, hentry, -⟩ :=
          h.closed id model hold member hmember type htype named hnames hprimitive
        exact Cache.contains_iff.2 ⟨entry, hextend _ _ hentry⟩
      | inr hmade =>
        refine hmade.related named (TypeModel.mem_relatedTypes_iff.2 ?_)
        exact ⟨⟨member, hmember, type, htype, hnames⟩, hprimitive⟩
    obtain ⟨entry, hentry⟩ := Cache.contains_iff.1 hcontains
    obtain ⟨name, hname, -⟩ := hnames.exists_name
    exact ⟨entry, hentry, entry_eq_none_iff hfaithful hhonest hname hentry⟩
  checked id model hmodel member hmember := by
    cases hnew id model hmodel with
    | inl hold =>
      have hsame : ∀ type ∈ member.types,
          program.ignores larger type = program.ignores smaller type := by
        intro type htype
        apply ignores_extends hextend
        intro named hnames hprimitive
        obtain ⟨entry, hentry, -⟩ :=
          h.closed id model hold member hmember type htype named hnames hprimitive
        exact ⟨entry, hentry⟩
      have hany : member.types.any (program.ignores larger) =
          member.types.any (program.ignores smaller) := by
        rw [Bool.eq_iff_iff, List.any_eq_true, List.any_eq_true]
        exact exists_congr fun type => and_congr_right fun htype => by rw [hsame type htype]
      rw [h.checked id model hold member hmember, hany]
    | inr hmade =>
      obtain ⟨definition, earlier, later, -, -, -, -, hflags, rfl⟩ := hmade.exists_build
      obtain ⟨raw, hraw, rfl⟩ := List.mem_map.1 hmember
      have hundecided := program.undecided_build earlier definition.typeId definition raw hraw
      rw [checkMember, hundecided.ignored?_resolveIgnored, ← ignores_of_same_flags hflags]
      rfl
  grouped id model hmodel := by
    cases hnew id model hmodel with
    | inl hold => exact h.grouped id model hold
    | inr hmade =>
      obtain ⟨definition, earlier, later, -, -, -, -, -, rfl⟩ := hmade.exists_build
      rfl

end Program

namespace Store

/-- One step keeps the cache honest and settled. -/
theorem Step.settled {store after : Store} (h : Step store after)
    (hnames : store.graph.AvoidsParameters) (hcache : store.cache.Faithful store.program)
    (hhonest : store.program.Honest store.cache) (hsettled : store.program.Settled store.cache) :
    after.program.Honest after.cache ∧ after.program.Settled after.cache := by
  have hfaithful := h.faithful hcache
  have hextend := h.extends hcache
  rw [h.program_eq] at hfaithful ⊢
  cases h with
  | kept program cache =>
    rw [cache]
    exact ⟨hhonest, hsettled⟩
  | absent signature program unresolved new cache =>
    have hafter : store.program.Honest after.cache := by
      intro id hid
      rw [cache] at hid
      rcases Cache.find?_insert_cases hid with hold | ⟨-, rfl, -⟩
      · exact hhonest id hold
      · exact hnames.lacks unresolved
    refine ⟨hafter, hsettled.extend hextend hfaithful hafter ?_⟩
    intro id model hmodel
    rw [cache] at hmodel
    rcases Cache.find?_insert_cases hmodel with hold | ⟨-, -, hno⟩
    · exact .inl hold
    · exact absurd hno (Option.some_ne_none model)
  | constructed definition program indexed cache =>
    have hconstruct := Program.constructed_construct hcache indexed
    rw [← cache] at hconstruct
    have hafter : store.program.Honest after.cache := by
      intro id hid
      rcases hconstruct.entry id none hid with hold | ⟨-, hlacks⟩ | ⟨model, heq, -⟩
      · exact hhonest id hold
      · exact hlacks
      · exact absurd heq.symm (Option.some_ne_none model)
    refine ⟨hafter, hsettled.extend hextend hfaithful hafter ?_⟩
    intro id model hmodel
    rcases hconstruct.entry id _ hmodel with hold | ⟨hno, -⟩ | ⟨made, heq, hmade⟩
    · exact .inl hold
    · exact absurd hno (Option.some_ne_none model)
    · rw [← Option.some.inj heq] at hmade
      exact .inr hmade

/-- A construction takes at most so many turns, and the last one finds the agenda
empty. -/
def EndsWithin (store : Store) (bound : Nat) : Prop :=
  ∀ definition, ∃ turns ≤ bound,
    ∃ work, (Worklist.turn store.program)^[turns] (.start store.cache definition) = work ∧
      work.agenda.queue = [] ∧
      store.program.construct store.cache definition =
        work.cache.update work.built (store.program.complete work.cache)

/-- The work list is empty after one turn for each type of the index and one more. -/
theorem endsWithin (store : Store) : store.EndsWithin (store.graph.index.length + 1) := by
  intro definition
  obtain ⟨turns, hle, hqueue, heq⟩ :=
    Worklist.exists_turns store.program (.start store.cache definition)
  refine ⟨turns, Nat.le_trans hle ?_, _, rfl, hqueue, ?_⟩
  · exact Nat.add_le_add_right List.countP_le_length 1
  · simp only [Worklist.start] at heq
    rw [Program.construct, heq]
    rfl

/-- After any run of requests to a fresh store one more request ends, leaves every
entry as it is, and leaves the cache settled. -/
theorem answer_settled (store : Store) (hfresh : store.cache = {})
    (hnames : store.graph.AvoidsParameters) (requests : List Request) (request : Request)
    (hrequests : ∀ other ∈ requests, other.IsIndexed store.graph)
    (hrequest : request.IsIndexed store.graph) :
    let before := store.answerAll requests
    let after := before.answer request
    before.EndsWithin (store.graph.index.length + 1) ∧ after.cache.Extends before.cache ∧
      after.program = store.program ∧ store.program.Settled after.cache := by
  intro before after
  have hcache : store.cache.Faithful store.program := by
    rw [hfresh]
    exact faithful_empty store.program
  have hrun := answerAll_induction requests hcache hrequests
    (motive := fun current =>
      current.program.Honest current.cache ∧ current.program.Settled current.cache)
    (by rw [hfresh]; exact ⟨Program.honest_empty, Program.settled_empty⟩)
    (fun current next hprogram hfaithful hstep hcurrent =>
      hstep.settled (by rw [graph, hprogram]; exact hnames) hfaithful hcurrent.1 hcurrent.2)
  obtain ⟨hprogram, hfaithful, hhonest, hsettled⟩ := hrun
  have hgraph : before.graph = store.graph := by
    rw [graph, hprogram, ← graph]
  have hstep : Step before after := step_answer hfaithful (by rw [hgraph]; exact hrequest)
  have hafter := (hstep.settled (by rw [hgraph]; exact hnames) hfaithful hhonest hsettled).2
  have hsame : after.program = store.program := hstep.program_eq.trans hprogram
  refine ⟨?_, hstep.extends hfaithful, hsame, hsame ▸ hafter⟩
  rw [← hgraph]
  exact before.endsWithin

theorem avoidsParameters_sampleStore : sampleStore.graph.AvoidsParameters := by
  intro definition hindexed
  rcases indexes_sampleStore hindexed with rfl | rfl <;> decide +kernel

/-- A node is asked for after a leaf and after a member of a type that is missing. -/
theorem answer_settled_sampleStore :
    let before := sampleStore.answerAll
      [.definition sampleLeaf, .member (.reference (sampleName "Lost")) (.field "next")]
    let after := before.answer (.type (.reference (sampleName "Node")))
    sampleStore.graph.AvoidsParameters ∧ after.cache.size = 3 ∧
      before.EndsWithin 3 ∧ after.cache.Extends before.cache ∧
        after.program = sampleStore.program ∧ sampleStore.program.Settled after.cache := by
  refine ⟨avoidsParameters_sampleStore, by decide +kernel, ?_⟩
  refine answer_settled sampleStore rfl avoidsParameters_sampleStore _ _ ?_ trivial
  intro other hother
  cases List.mem_cons.1 hother with
  | inl heq =>
    subst heq
    exact ⟨⟨"Sample", sampleLeaf⟩, List.mem_cons_of_mem _ List.mem_cons_self, rfl⟩
  | inr hother =>
    rw [List.mem_singleton.1 hother]
    trivial

end Store

end Assemblage
