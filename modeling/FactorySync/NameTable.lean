/-!
# Name tables

A table gives every name it is told a number, counting from zero in the order of first mention, and
gives the name back for the number.
-/

namespace FactorySync

/-- Names in the order of their numbers; no name occurs twice. -/
structure NameTable where
  names : List String := []
  nodup : names.Nodup := by simp

namespace NameTable

def empty : NameTable := {}

def size (t : NameTable) : Nat := t.names.length

def isEmpty (t : NameTable) : Bool := t.names.isEmpty

/-- The number of `name`, if it has one. -/
def find? (t : NameTable) (name : String) : Option Nat := t.names.idxOf? name

/-- The name with the number `key`. -/
def name? (t : NameTable) (key : Nat) : Option String := t.names[key]?

/-- The number of `name`, which is entered if it is new. -/
def intern (t : NameTable) (name : String) : Nat × NameTable :=
  if h : name ∈ t.names then (t.names.idxOf name, t)
  else
    (t.size, ⟨t.names ++ [name], by
      rw [List.nodup_append]
      refine ⟨t.nodup, by simp, ?_⟩
      intro a ha b hb
      rw [List.mem_singleton] at hb
      exact fun hab => h (hb ▸ hab ▸ ha)⟩)

end NameTable

end FactorySync
