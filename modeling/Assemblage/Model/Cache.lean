import Assemblage.Model.Type

/-!
# The cache of models

What has been found out about types so far, under their identifiers: a model, or
that there is none.  An entry is never changed once it is there, except that the
members of a new model are checked at the end of its construction.
-/

namespace Assemblage

structure Cache where
  entries : List (TypeId × Option TypeModel) := []
deriving Inhabited

namespace Cache

def find? (cache : Cache) (id : TypeId) : Option (Option TypeModel) :=
  cache.entries.lookup id

def contains (cache : Cache) (id : TypeId) : Bool :=
  (cache.find? id).isSome

def size (cache : Cache) : Nat :=
  cache.entries.length

/-- The model under an identifier. -/
def model? (cache : Cache) (id : TypeId) : Option TypeModel :=
  (cache.find? id).join

def models (cache : Cache) : List TypeModel :=
  cache.entries.filterMap (·.2)

/-- Adds an entry unless there is one. -/
def insert (cache : Cache) (id : TypeId) (model : Option TypeModel) : Cache :=
  if cache.contains id then cache else ⟨cache.entries ++ [(id, model)]⟩

/-- Changes the models under the given identifiers. -/
def update (cache : Cache) (ids : List TypeId) (f : TypeModel → TypeModel) : Cache :=
  ⟨cache.entries.map fun (id, model) => (id, if ids.contains id then model.map f else model)⟩

end Cache

end Assemblage
