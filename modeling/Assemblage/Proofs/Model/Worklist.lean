import Assemblage.Proofs.Model.CacheView
import Assemblage.Proofs.Model.NamedTypes
import Mathlib.Logic.Function.Iterate

/-!
# The first pass, turn by turn

The first pass takes one type at a time from its agenda.  One turn either drops
a type whose entry is there or builds its model and puts the related types on
the agenda.  The turns come to an end, as every new type on the agenda is a
further type of the graph, and what each turn keeps holds at the end.
-/

namespace Assemblage

namespace Agenda

/-- The three outcomes of an addition. -/
theorem add_cases (graph : Graph) (cache : Cache) (agenda : Agenda) (related : Signature) :
    ((cache.contains related.typeId = true ∨ related.typeId ∈ agenda.queued) ∧
      agenda.add graph cache related = (cache, agenda)) ∨
    (cache.contains related.typeId = false ∧ related.typeId ∉ agenda.queued ∧
      ((∃ definition, graph.resolve? related = some definition ∧
        agenda.add graph cache related =
          (cache, { queue := agenda.queue ++ [(related.typeId, definition)]
                    queued := related.typeId :: agenda.queued })) ∨
      (graph.resolve? related = none ∧
        agenda.add graph cache related =
          (cache.insert related.typeId none,
            { agenda with queued := related.typeId :: agenda.queued })))) := by
  simp only [add]
  by_cases hknown : (cache.contains related.typeId || agenda.queued.contains related.typeId) = true
  · refine .inl ⟨?_, if_pos hknown⟩
    simpa using hknown
  · rw [if_neg hknown]
    rw [Bool.or_eq_true, not_or, Bool.not_eq_true] at hknown
    refine .inr ⟨hknown.1, by simpa using hknown.2, ?_⟩
    cases hresolve : graph.resolve? related with
    | some definition => exact .inl ⟨definition, rfl, rfl⟩
    | none => exact .inr ⟨rfl, rfl⟩

/-- What additions do to a cache and an agenda.  Types that were on the agenda
before get no entry. -/
structure Grown (graph : Graph) (related : List Signature) (cache : Cache) (agenda : Agenda)
    (result : Cache × Agenda) : Prop where
  extend : result.1.Extends cache
  new_entry : ∀ id entry, result.1.find? id = some entry → cache.find? id = some entry ∨
    entry = none ∧ ∃ named ∈ related, named.typeId = id ∧ graph.resolve? named = none
  old_queued : agenda.queued ⊆ result.2.queued
  old_entry : ∀ id ∈ agenda.queued, result.1.find? id = cache.find? id
  queue : ∃ added, result.2.queue = agenda.queue ++ added ∧ ∀ item ∈ added,
    item.1 ∈ result.2.queued ∧
      ∃ named ∈ related, named.typeId = item.1 ∧ graph.resolve? named = some item.2
  new_queued : ∀ id ∈ result.2.queued, id ∈ agenda.queued ∨ result.1.contains id = true ∨
    ∃ definition, (id, definition) ∈ result.2.queue
  reached : ∀ named ∈ related,
    result.1.contains named.typeId = true ∨ named.typeId ∈ result.2.queued

theorem grown_refl (graph : Graph) (cache : Cache) (agenda : Agenda) :
    Grown graph [] cache agenda (cache, agenda) where
  extend := .refl cache
  new_entry _ _ h := .inl h
  old_queued := List.Subset.refl _
  old_entry _ _ := rfl
  queue := ⟨[], (List.append_nil _).symm, fun _ h => absurd h List.not_mem_nil⟩
  new_queued _ h := .inl h
  reached _ h := absurd h List.not_mem_nil

theorem grown_add (graph : Graph) (cache : Cache) (agenda : Agenda) (related : Signature) :
    Grown graph [related] cache agenda (agenda.add graph cache related) := by
  rcases add_cases graph cache agenda related with
    ⟨hknown, heq⟩ | ⟨hnone, hnew, ⟨definition, hresolve, heq⟩ | ⟨hresolve, heq⟩⟩
  · rw [heq]
    refine ⟨.refl cache, fun _ _ h => .inl h, List.Subset.refl _, fun _ _ => rfl,
      ⟨[], (List.append_nil _).symm, fun _ h => absurd h List.not_mem_nil⟩, fun _ h => .inl h, ?_⟩
    intro named hnamed
    rw [List.mem_singleton.1 hnamed]
    exact hknown
  · rw [heq]
    refine ⟨.refl cache, fun _ _ h => .inl h, List.subset_cons_self _ _, fun _ _ => rfl, ?_, ?_, ?_⟩
    · refine ⟨[(related.typeId, definition)], rfl, ?_⟩
      intro item hitem
      rw [List.mem_singleton.1 hitem]
      exact ⟨List.mem_cons_self, related, List.mem_singleton.2 rfl, rfl, hresolve⟩
    · intro id hid
      cases List.mem_cons.1 hid with
      | inl heq =>
        subst heq
        exact .inr (.inr ⟨definition, List.mem_append_right _ (List.mem_singleton.2 rfl)⟩)
      | inr hid => exact .inl hid
    · intro named hnamed
      rw [List.mem_singleton.1 hnamed]
      exact .inr List.mem_cons_self
  · rw [heq]
    refine ⟨cache.extends_insert _ _, ?_, List.subset_cons_self _ _, ?_, ?_, ?_, ?_⟩
    · intro id entry hentry
      rcases Cache.find?_insert_cases hentry with h | ⟨-, rfl, rfl⟩
      · exact .inl h
      · exact .inr ⟨rfl, related, List.mem_singleton.2 rfl, rfl, hresolve⟩
    · intro id hid
      refine Cache.find?_insert_of_ne none ?_
      rintro rfl
      exact hnew hid
    · exact ⟨[], (List.append_nil _).symm, fun _ h => absurd h List.not_mem_nil⟩
    · intro id hid
      cases List.mem_cons.1 hid with
      | inl heq =>
        subst heq
        exact .inr (.inl (Cache.contains_iff.2 ⟨none, Cache.find?_insert_self hnone⟩))
      | inr hid => exact .inl hid
    · intro named hnamed
      rw [List.mem_singleton.1 hnamed]
      exact .inr List.mem_cons_self

theorem Grown.cons {graph : Graph} {related : Signature} {rest : List Signature} {cache : Cache}
    {agenda : Agenda} {middle result : Cache × Agenda}
    (hfirst : Grown graph [related] cache agenda middle)
    (hrest : Grown graph rest middle.1 middle.2 result) :
    Grown graph (related :: rest) cache agenda result where
  extend := hfirst.extend.trans hrest.extend
  new_entry id entry h := by
    rcases hrest.new_entry id entry h with h | ⟨hnone, named, hnamed, hid, hresolve⟩
    · rcases hfirst.new_entry id entry h with h | ⟨hnone, named, hnamed, hid, hresolve⟩
      · exact .inl h
      · rw [List.mem_singleton.1 hnamed] at hid hresolve
        exact .inr ⟨hnone, related, List.mem_cons_self, hid, hresolve⟩
    · exact .inr ⟨hnone, named, List.mem_cons_of_mem _ hnamed, hid, hresolve⟩
  old_queued := List.Subset.trans hfirst.old_queued hrest.old_queued
  old_entry id hid := by
    rw [hrest.old_entry id (hfirst.old_queued hid), hfirst.old_entry id hid]
  queue := by
    obtain ⟨added, hadded, hitems⟩ := hfirst.queue
    obtain ⟨further, hfurther, hothers⟩ := hrest.queue
    refine ⟨added ++ further, by rw [hfurther, hadded, List.append_assoc], ?_⟩
    intro item hitem
    cases List.mem_append.1 hitem with
    | inl h =>
      obtain ⟨hqueued, named, hnamed, hid, hresolve⟩ := hitems item h
      rw [List.mem_singleton.1 hnamed] at hid hresolve
      exact ⟨hrest.old_queued hqueued, related, List.mem_cons_self, hid, hresolve⟩
    | inr h =>
      obtain ⟨hqueued, named, hnamed, hid, hresolve⟩ := hothers item h
      exact ⟨hqueued, named, List.mem_cons_of_mem _ hnamed, hid, hresolve⟩
  new_queued id hid := by
    cases hrest.new_queued id hid with
    | inl h =>
      rcases hfirst.new_queued id h with h | h | ⟨definition, h⟩
      · exact .inl h
      · exact .inr (.inl (hrest.extend.contains h))
      · obtain ⟨further, hfurther, -⟩ := hrest.queue
        exact .inr (.inr ⟨definition, by rw [hfurther]; exact List.mem_append_left _ h⟩)
    | inr h => exact .inr h
  reached named hnamed := by
    cases List.mem_cons.1 hnamed with
    | inl heq =>
      subst heq
      cases hfirst.reached named (List.mem_singleton.2 rfl) with
      | inl h => exact .inl (hrest.extend.contains h)
      | inr h => exact .inr (hrest.old_queued h)
    | inr hnamed => exact hrest.reached named hnamed

theorem grown_addAll (graph : Graph) (cache : Cache) (agenda : Agenda)
    (related : List Signature) :
    Grown graph related cache agenda (agenda.addAll graph cache related) := by
  induction related generalizing cache agenda with
  | nil => exact grown_refl graph cache agenda
  | cons head rest ih => exact (grown_add graph cache agenda head).cons (ih _ _)

end Agenda

/-- The first pass between two turns. -/
structure Worklist where
  cache : Cache
  agenda : Agenda
  built : List TypeId

namespace Worklist

/-- The first pass before its first turn. -/
def start (cache : Cache) (definition : TypeDef) : Worklist :=
  { cache, agenda := .start definition, built := [] }

/-- One turn of the first pass. -/
def turn (program : Program) (work : Worklist) : Worklist :=
  match work.agenda.queue with
  | [] => work
  | (id, definition) :: rest =>
    if work.cache.contains id then { work with agenda := { work.agenda with queue := rest } }
    else
      let model := program.build work.cache id definition
      let added := ({ work.agenda with queue := rest } : Agenda).addAll program.graph work.cache
        model.relatedTypes
      { cache := added.1.insert id (some model), agenda := added.2, built := work.built ++ [id] }

/-- The first pass takes as many turns as it needs to empty its agenda, and at
most as many as types can come up. -/
theorem exists_turns (program : Program) (work : Worklist) :
    ∃ turns ≤ work.agenda.weight program.graph,
      ((turn program)^[turns] work).agenda.queue = [] ∧
        program.buildAll work.cache work.agenda work.built =
          (((turn program)^[turns] work).cache, ((turn program)^[turns] work).built) := by
  obtain ⟨cache, agenda, built⟩ := work
  fun_induction Program.buildAll program cache agenda built with
  | case1 cache agenda built hqueue => exact ⟨0, Nat.zero_le _, hqueue, rfl⟩
  | case2 cache agenda built id definition rest hqueue hcontains ih =>
    obtain ⟨turns, hle, hempty, heq⟩ := ih
    have hturn : turn program ⟨cache, agenda, built⟩ =
        ⟨cache, { agenda with queue := rest }, built⟩ := by
      simp only [turn, hqueue, hcontains, if_true]
    refine ⟨turns + 1, ?_, ?_, ?_⟩
    · simp only [Agenda.weight, hqueue, List.length_cons] at hle ⊢
      omega
    · rw [Function.iterate_succ_apply, hturn]
      exact hempty
    · rw [Function.iterate_succ_apply, hturn]
      exact heq
  | case3 cache agenda built id definition rest hqueue hcontains model added ih =>
    obtain ⟨turns, hle, hempty, heq⟩ := ih
    have hturn : turn program ⟨cache, agenda, built⟩ =
        ⟨added.1.insert id (some model), added.2, built ++ [id]⟩ := by
      simp only [turn, hqueue, hcontains]
      rfl
    refine ⟨turns + 1, ?_, ?_, ?_⟩
    · have hadded : added.2.weight program.graph ≤
          ({ agenda with queue := rest } : Agenda).weight program.graph :=
        Agenda.weight_addAll_le program.graph cache _ model.relatedTypes
      simp only [Agenda.weight, hqueue, List.length_cons] at hle hadded ⊢
      omega
    · rw [Function.iterate_succ_apply, hturn]
      exact hempty
    · rw [Function.iterate_succ_apply, hturn]
      exact heq

end Worklist

end Assemblage
