import Externs.Decl.TypeRef

/-!
# Symbol tables

A table maps keys to declarations and keeps the order in which the keys came in.

* `Table.find?`: the declaration under a key.
* `Table.insertNew`: adds an entry unless the key is taken.
* `Table.insertAll`: enters a list of pairs, each under the same rule.
* `Table.ids`: the declarations in order of entry.
-/

namespace Externs

structure Table where
  entries : List (String × Id)
  deriving DecidableEq, Repr

namespace Table

def empty : Table := ⟨[]⟩

def find? (t : Table) (key : String) : Option Id := t.entries.lookup key

def ids (t : Table) : List Id := t.entries.map (·.2)

def keys (t : Table) : List String := t.entries.map (·.1)

/-- The first entry under a key stays. -/
def insertNew (t : Table) (key : String) (d : Id) : Table :=
  match t.find? key with
  | some _ => t
  | none => ⟨t.entries ++ [(key, d)]⟩

/-- Enters every pair of a list in turn. -/
def insertAll (t : Table) (more : List (String × Id)) : Table :=
  more.foldl (fun t e => t.insertNew e.1 e.2) t

@[simp] theorem find?_empty (key : String) : empty.find? key = none := rfl

theorem find?_append (t : Table) (more : List (String × Id)) (key : String) :
    (Table.mk (t.entries ++ more)).find? key = (t.find? key).or (more.lookup key) := by
  obtain ⟨es⟩ := t
  induction es with
  | nil => rfl
  | cons e es ih =>
    obtain ⟨k, d⟩ := e
    simp only [find?] at ih
    simp only [find?, List.cons_append, List.lookup_cons]
    split
    · rfl
    · exact ih

/-- What a table holds after `insertNew`: the old entry if there was one. -/
theorem find?_insertNew (t : Table) (key k : String) (d : Id) :
    (t.insertNew key d).find? k = (t.find? k).or (if k = key then some d else none) := by
  unfold insertNew
  split
  · next x hx =>
    by_cases h : k = key
    · subst h; simp [hx]
    · simp [h]
  · rw [find?_append]
    by_cases h : k = key
    · subst h; simp
    · have hk : (k == key) = false := by simpa using h
      simp [List.lookup_cons, hk, h]

theorem find?_insertNew_self (t : Table) (key : String) (d : Id) :
    (t.insertNew key d).find? key = some ((t.find? key).getD d) := by
  rw [find?_insertNew]
  cases t.find? key <;> simp

end Table

end Externs
