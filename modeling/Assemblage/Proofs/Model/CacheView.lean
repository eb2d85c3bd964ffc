import Assemblage.Model.Cache

/-!
# The cache as a map

What a look-up finds after an insertion and after an update.  An insertion leaves
every entry there is as it is, and an update changes models only where it is told to.
-/

namespace Assemblage.Cache

theorem find?_empty (id : TypeId) : ({} : Cache).find? id = none :=
  rfl

theorem contains_iff {cache : Cache} {id : TypeId} :
    cache.contains id = true ↔ ∃ entry, cache.find? id = some entry := by
  rw [contains, Option.isSome_iff_exists]

theorem contains_eq_false_iff {cache : Cache} {id : TypeId} :
    cache.contains id = false ↔ cache.find? id = none := by
  rw [contains, Option.isSome_eq_false_iff, Option.isNone_iff_eq_none]

/-- An entry is never replaced. -/
theorem insert_of_contains {cache : Cache} {id : TypeId} (model : Option TypeModel)
    (h : cache.contains id = true) : cache.insert id model = cache := by
  rw [insert, if_pos h]

theorem find?_insert_self {cache : Cache} {id : TypeId} {model : Option TypeModel}
    (h : cache.contains id = false) : (cache.insert id model).find? id = some model := by
  rw [insert, h, if_neg Bool.false_ne_true, find?, List.lookup_append]
  rw [contains_eq_false_iff, find?] at h
  rw [h, Option.none_or, List.lookup_cons, beq_self_eq_true]

theorem find?_insert_of_ne {cache : Cache} {id other : TypeId} (model : Option TypeModel)
    (h : other ≠ id) : (cache.insert id model).find? other = cache.find? other := by
  rw [insert]
  split
  · rfl
  · rw [find?, List.lookup_append, List.lookup_cons, beq_false_of_ne h, List.lookup_nil,
      Option.or_none, find?]

theorem find?_insert_of_find? {cache : Cache} {id other : TypeId} {model entry : Option TypeModel}
    (h : cache.find? other = some entry) : (cache.insert id model).find? other = some entry := by
  by_cases heq : other = id
  · subst heq
    rw [insert_of_contains model (contains_iff.2 ⟨entry, h⟩), h]
  · rw [find?_insert_of_ne model heq, h]

/-- What is found after an insertion was there before or is the new entry. -/
theorem find?_insert_cases {cache : Cache} {id other : TypeId} {model entry : Option TypeModel}
    (h : (cache.insert id model).find? other = some entry) :
    cache.find? other = some entry ∨
      cache.contains id = false ∧ other = id ∧ entry = model := by
  by_cases heq : other = id
  · subst heq
    by_cases hcontains : cache.contains other = true
    · rw [insert_of_contains model hcontains] at h
      exact .inl h
    · rw [Bool.not_eq_true] at hcontains
      rw [find?_insert_self hcontains, Option.some.injEq] at h
      exact .inr ⟨hcontains, rfl, h.symm⟩
  · rw [find?_insert_of_ne model heq] at h
    exact .inl h

/-- An update changes the models under its ids and no other entry. -/
theorem find?_update (cache : Cache) (ids : List TypeId) (f : TypeModel → TypeModel)
    (id : TypeId) :
    (cache.update ids f).find? id =
      (cache.find? id).map fun entry => if ids.contains id then entry.map f else entry := by
  obtain ⟨entries⟩ := cache
  rw [update, find?, find?]
  induction entries with
  | nil => rfl
  | cons head rest ih =>
    obtain ⟨key, entry⟩ := head
    rw [List.map_cons, List.lookup_cons, List.lookup_cons]
    by_cases heq : id = key
    · subst heq
      rw [beq_self_eq_true]
      rfl
    · rw [beq_false_of_ne heq]
      exact ih

theorem contains_update {cache : Cache} {id : TypeId} (ids : List TypeId)
    (f : TypeModel → TypeModel) (h : cache.contains id = true) :
    (cache.update ids f).contains id = true := by
  obtain ⟨entry, hentry⟩ := contains_iff.1 h
  rw [contains_iff]
  exact ⟨_, by rw [find?_update, hentry]; rfl⟩

theorem find?_update_of_mem {cache : Cache} {id : TypeId} {ids : List TypeId}
    {entry : Option TypeModel} (f : TypeModel → TypeModel) (hid : id ∈ ids)
    (h : cache.find? id = some entry) : (cache.update ids f).find? id = some (entry.map f) := by
  rw [find?_update, h, Option.map_some, if_pos (List.contains_iff_mem.2 hid)]

theorem find?_update_of_not_mem (cache : Cache) {id : TypeId} {ids : List TypeId}
    (f : TypeModel → TypeModel) (hid : id ∉ ids) :
    (cache.update ids f).find? id = cache.find? id := by
  have hnot : ¬ids.contains id = true := by rwa [List.contains_iff_mem]
  rw [find?_update]
  simp only [if_neg hnot, Option.map_id']

theorem model?_eq_some_iff {cache : Cache} {id : TypeId} {model : TypeModel} :
    cache.model? id = some model ↔ cache.find? id = some (some model) := by
  rw [model?, Option.join_eq_some_iff]

theorem mem_models_of_model? {cache : Cache} {id : TypeId} {model : TypeModel}
    (h : cache.model? id = some model) : model ∈ cache.models := by
  rw [model?_eq_some_iff, find?, List.lookup_eq_some_iff] at h
  obtain ⟨before, after, hentries, -⟩ := h
  rw [models, hentries, List.mem_filterMap]
  exact ⟨(id, some model), List.mem_append_right before List.mem_cons_self, rfl⟩

/-- `Extends larger smaller` says that every entry of the smaller cache is found
unchanged in the larger one. -/
def Extends (larger smaller : Cache) : Prop :=
  ∀ id entry, smaller.find? id = some entry → larger.find? id = some entry

theorem Extends.refl (cache : Cache) : cache.Extends cache :=
  fun _ _ h => h

theorem Extends.trans {first second third : Cache} (hfirst : second.Extends first)
    (hsecond : third.Extends second) : third.Extends first :=
  fun id entry h => hsecond id entry (hfirst id entry h)

/-- Insertions only add entries. -/
theorem extends_insert (cache : Cache) (id : TypeId) (model : Option TypeModel) :
    (cache.insert id model).Extends cache :=
  fun _ _ h => find?_insert_of_find? h

theorem Extends.contains {larger smaller : Cache} (h : larger.Extends smaller) {id : TypeId}
    (hid : smaller.contains id = true) : larger.contains id = true := by
  obtain ⟨entry, hentry⟩ := contains_iff.1 hid
  exact contains_iff.2 ⟨entry, h id entry hentry⟩

theorem Extends.model?_eq {larger smaller : Cache} (h : larger.Extends smaller) {id : TypeId}
    {model : TypeModel} (hmodel : smaller.model? id = some model) :
    larger.model? id = some model := by
  rw [model?_eq_some_iff] at hmodel ⊢
  exact h id (some model) hmodel

end Assemblage.Cache
