import Externs.Decl.Graph
import Externs.Decl.Unseen
import Externs.Text.Segments

/-!
# What a name denotes

A dotted name is resolved in the scope in which it stands. Its head is looked up in
the tables of the enclosing modules, innermost first, and then among the roots;
every further segment is looked up in the exports of what was found so far. At each
step an alias is replaced by what it stands for, resolved in the alias's own scope.

An alias that is met again while it is being replaced stands for nothing, and the
places of the replaced aliases are handed on from step to step.

* `Graph.lookup`: the head of a name.
* `Graph.unalias`, `Graph.follow`: replacing an alias, and going on down through exports.
* `Graph.denote`: a path of segments.
* `Graph.resolve`: what a type reference denotes.
-/

namespace Externs

namespace Graph

/-- The scope and those around it, innermost first, at most `fuel` of them. -/
def scopeChain (g : Graph) : (fuel : Nat) → Option Id → List Id
  | 0, _ => []
  | _ + 1, none => []
  | fuel + 1, some m => m :: scopeChain g fuel (g.decl m).parent

/-- The scope and those around it. A chain without repetition is not cut off. -/
def scopes (g : Graph) (scope : Option Id) : List Id := g.scopeChain (g.size + 1) scope

/-- The innermost declaration of `name` that is in sight from `scope`. -/
def lookup (g : Graph) (name : String) (scope : Option Id) : Option Id :=
  ((g.scopes scope).findSome? fun m => (g.localsOf (some m)).find? name).or (g.roots.find? name)

/-- What a search gives: the declaration found, and every alias replaced so far. -/
structure Found (seen : List Id) where
  target : Option Id
  opened : List Id
  grows : ∀ d ∈ seen, d ∈ opened

/-- A search that starts where another ended. -/
def Found.after {seen : List Id} (f : Found seen) (next : Found f.opened) : Found seen :=
  ⟨next.target, next.opened, fun d h => next.grows d (f.grows d h)⟩

def Found.stop (seen : List Id) (target : Option Id) : Found seen := ⟨target, seen, fun _ h => h⟩

/-- The number of places that are not among the replaced aliases. -/
def unopened (g : Graph) (seen : List Id) : Nat := unseenWeight g.size seen fun _ => 1

theorem unopened_mono (g : Graph) {seen : List Id} (f : Found seen) :
    g.unopened f.opened ≤ g.unopened seen :=
  unseenWeight_mono f.grows _

/-- Replacing an alias leaves fewer to replace. -/
theorem unopened_lt (g : Graph) {d : Id} {seen : List Id} {t : TypeRef}
    (h : (g.decl d).importTarget = some t) (hd : d ∉ seen) :
    g.unopened (d :: seen) < g.unopened seen := by
  have hlt : d < g.size := g.lt_size_of_decl_ne (by intro e; simp [e] at h)
  have := unseenWeight_cons hlt hd (fun _ => 1)
  simp only [unopened]
  omega

theorem lex_of_le {a b c d : Nat} (h : a ≤ b) (h' : c < d) :
    Prod.Lex (· < ·) (· < ·) (a, c) (b, d) := by
  rcases Nat.lt_or_eq_of_le h with hlt | rfl
  · exact .left _ _ hlt
  · exact .right _ h'

mutual

/-- What a declaration stands for: itself, unless it is an alias. -/
def unalias (g : Graph) (d : Id) (seen : List Id) : Found seen :=
  match _h : (g.decl d).importTarget with
  | none => .stop seen (some d)
  | some t =>
    if _hd : d ∈ seen then .stop seen none
    else
      match segments (t.name?.getD "") with
      | [] => .stop seen none
      | head :: rest =>
        match g.lookup head t.scope? with
        | none => ⟨none, d :: seen, fun _ hx => .tail _ hx⟩
        | some e =>
          let inner := follow g e rest (d :: seen)
          ⟨inner.target, inner.opened, fun _ hx => inner.grows _ (.tail _ hx)⟩
termination_by (g.unopened seen, 0)
decreasing_by exact .left _ _ (unopened_lt g _h _hd)

/-- What a declaration stands for, and from there down through the exports. -/
def follow (g : Graph) (d : Id) (rest : List String) (seen : List Id) : Found seen :=
  let first := unalias g d seen
  match first.target, rest with
  | none, _ => first
  | some _, [] => first
  | some e, segment :: rest =>
    match (g.decl e).exports.find? segment with
    | none => first.after (.stop first.opened none)
    | some next => first.after (follow g next rest first.opened)
termination_by (g.unopened seen, rest.length + 1)
decreasing_by
  · exact .right _ (by simp)
  · exact lex_of_le (unopened_mono g first) (by simp)

end

/-- What a path of segments denotes in a scope. -/
def denote (g : Graph) (path : List String) (scope : Option Id) : Option Id :=
  match path with
  | [] => none
  | head :: rest => (g.lookup head scope).bind fun d => (g.follow d rest []).target

/-- The declaration that a type reference names; only a named reference names one. -/
def resolve (g : Graph) (t : TypeRef) : Option Id :=
  match t.kind, t.name? with
  | .reference, some name =>
    if name.isEmpty then none else g.denote (segments name) t.scope?
  | _, _ => none

/-- The class or interface that a type reference names. -/
def structuredTarget (g : Graph) (t : TypeRef) : Option Id := (g.resolve t).filter g.isStructured

end Graph

end Externs
