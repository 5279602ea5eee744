import Externs.Proofs.Bind.Prototypes
import Externs.Proofs.Resolve.Alias
import Externs.Proofs.Walk.Namings
import Externs.Proofs.Walk.Routes

/-!
# Prototype entries are not listed

The walk comes to prototype entries as to any other export, but does not list them. An entry has
nothing inside. Only if its class states a static property with its key does it have the type of
that property, and then names go on through it, as they would through the property.

* `Inert`: a prototype entry from which nothing goes on but through such a property.
* `PrototypesKnown`: what classes export as their prototypes, and what the walk makes of the entries.
* `bound_prototypesKnown`: this holds of every source.
* `takenPrototypes_entries`: a class without an entry, and a class with an entry that has children.
-/

namespace Externs

namespace Graph

variable {g : Graph}

/-- What comes before the end of a route has children. -/
theorem Route.children_ne_nil {before : List Id} {d : Id} (h : g.Route before d) :
    ∀ p ∈ before, g.children p ≠ [] := by
  induction h with
  | root _ => exact nofun
  | @child before p c _ hc ih =>
    intro q hq
    rcases List.mem_append.1 hq with hq | hq
    · exact ih q hq
    · rw [List.mem_singleton.1 hq]
      exact List.ne_nil_of_mem hc

/-- The prototype entry `x` of the class `c` has nothing inside. What it leads to are properties of its
type, and then the class states a static property with its key. -/
structure Inert (g : Graph) (ss : List Statement) (c x : Id) : Prop where
  isClass : (g.decl c).flags.has .classDecl = true
  exported : (g.decl c).exports.find? "prototype" = some x
  parent : (g.decl x).parent = some c
  exports : (g.decl x).exports = .empty
  members : (g.decl x).members = .empty
  children : ∀ y ∈ g.children x, y ∈ g.typed x ∧ g.StatesStatic ss c "prototype" .property

/-- **Prototype entries are inert.** Only values have properties by their type, and an entry is a value
only as a static property. -/
theorem Entries.inert {ss : List Statement} (h : g.Entries fun c f => g.StatesStatic ss c "prototype" f)
    (hg : g.Shaped) {x : Id} (hx : g.isPrototype x = true) : ∃ c, g.Inert ss c x := by
  obtain ⟨c, hclass, hexport, hflags⟩ := h x hx
  obtain ⟨hexports, hmembers, -⟩ := hg.bare x (hg.prototype x hx)
  refine ⟨c, hclass, hexport, hg.exports c x (Table.mem_ids_of_find? hexport), hexports, hmembers, fun y hy => ?_⟩
  have htyped : y ∈ g.typed x := by
    refine (mem_children_iff.1 hy).resolve_left ?_
    rw [Holds, hexports, hmembers]
    rintro (h | h) <;> cases h
  have hvalue : (g.decl x).flags.isValue = true := by
    obtain ⟨_, ⟨hkind, -⟩, -⟩ := typedBy_of_mem_typed htyped
    by_contra hvalue
    rw [Flags.kind, if_neg hvalue] at hkind
    split at hkind <;> cases hkind
  rw [Flags.isValue, Bool.or_eq_true] at hvalue
  rcases hvalue with hvar | hprop
  · -- no member is a variable
    obtain ⟨_, _, _, _, m, -, -, -, -, -, -, hm⟩ := (hflags _ hvar).resolve_left (by decide)
    have hsort : m.sort.flag ≠ .varDecl := by cases m.sort <;> decide
    exact absurd hm hsort
  · exact ⟨htyped, (hflags _ hprop).resolve_left (by decide)⟩

end Graph

open Externs.Graph

/-- What the classes of a source export under the key of prototype entries, and what the walk of its graph
makes of these entries. -/
structure PrototypesKnown (ambient : Bool) (ss : List Statement) (g : Graph) : Prop where
  /-- Every class exports something under the key: the entry that its first class statement makes, or
  what was exported by then. -/
  classes : ∀ c, (g.decl c).flags.has .classDecl = true →
    ∃ k x, Prototype ambient ss g c k x ∧ (g.decl x).parent = some c
  /-- Every prototype entry is that of a class, and inert. -/
  entries : ∀ x, g.isPrototype x = true → ∃ c, g.Inert ss c x
  /-- No route passes a prototype entry, unless its class states a static property with the key. -/
  routes : ∀ before d, g.Route before d → ∀ x ∈ before, g.isPrototype x = true →
    ∃ c, g.Inert ss c x ∧ g.StatesStatic ss c "prototype" .property
  /-- Every name listed is that of a route, and of something that is no prototype entry. -/
  names : ∀ v ∈ g.walk, g.lists v = true →
    g.isPrototype v.node = false ∧ ∃ before, g.NamedBy before v.node v.name

/-- **It is known what all prototypes of a source are.** -/
theorem bound_prototypesKnown (ambient : Bool) (ss : List Statement) :
    PrototypesKnown ambient ss (bound ambient ss) := by
  have hg := bound_shaped ambient ss
  have h := bound_prototyped ambient ss
  refine ⟨fun c hc => ?_, fun x hx => h.entries.inert hg hx, fun before d hroute x hbefore hx => ?_,
    fun v hv hlists => ?_⟩
  · obtain ⟨k, x, hx⟩ := h.classes c hc
    exact ⟨k, x, hx, hg.exports c x (Table.mem_ids_of_find? hx.exported)⟩
  · obtain ⟨c, hinert⟩ := h.entries.inert hg hx
    obtain ⟨y, hy⟩ := List.exists_mem_of_ne_nil _ (hroute.children_ne_nil x hbefore)
    exact ⟨c, hinert, (hinert.children y hy).2⟩
  · refine ⟨?_, (walk_simplyNamed _).visits v hv⟩
    rw [lists, Bool.and_eq_true, Bool.not_eq_true'] at hlists
    exact hlists.2

/-- A class that is also a namespace, which exports a variable with the key of prototype entries before, and
a class with a static property of this key. -/
def takenPrototypes : List Statement :=
  [.ambient [.moduleDecl (.dotted ["A"]) [.vars [("prototype", some .other)]]],
    .ambient [.classDecl "A" [] []],
    .interfaceDecl "I" [] [⟨some "a", .property, false, .publicAccess, some .other⟩],
    .ambient [.classDecl "B" [] [⟨some "prototype", .property, true, .publicAccess, some (.named "I")⟩]]]

/-- The entry of the second class has the property of the interface as a child. -/
theorem takenPrototypes_children : (bound true takenPrototypes).children 5 = [3] := by
  have hvalue : ((bound true takenPrototypes).decl 5).flags.kind = .value := by decide
  have hresolve : (bound true takenPrototypes).resolve (.named "I" none) = some 2 :=
    (resolve_eq_some_iff (bound_parentsEnd true _)).2
      ⟨[], ⟨"I", [], 2, ⟨rfl, _, rfl, by decide, rfl⟩, .file rfl, .plain rfl⟩, List.nodup_nil⟩
  have htyped : (bound true takenPrototypes).typed 5 = [3] := by
    rw [typed_of_bases_eq_nil hvalue rfl hresolve (by decide) rfl]
    decide
  rw [children, htyped]
  rfl

theorem takenPrototypes_walk : (bound true takenPrototypes).walk =
    [⟨4, "B", .opened⟩, ⟨5, "B.prototype", .opened⟩, ⟨3, "B.prototype.a", .leaf⟩, ⟨2, "I", .opened⟩,
      ⟨3, "I.a", .again⟩, ⟨0, "A", .opened⟩, ⟨1, "A.prototype", .leaf⟩] := by
  have h0 : (bound true takenPrototypes).addressed 0 "A" = [(1, "A.prototype")] := rfl
  have h1 : (bound true takenPrototypes).addressed 1 "A.prototype" = [] := rfl
  have h2 : (bound true takenPrototypes).addressed 2 "I" = [(3, "I.a")] := rfl
  have h3 : (bound true takenPrototypes).addressed 3 "B.prototype.a" = [] := rfl
  have h4 : (bound true takenPrototypes).addressed 4 "B" = [(5, "B.prototype")] := rfl
  have h5 : (bound true takenPrototypes).addressed 5 "B.prototype" = [(3, "B.prototype.a")] := by
    rw [addressed, takenPrototypes_children]
    rfl
  have hr : (bound true takenPrototypes).rootStack = [(4, "B"), (2, "I"), (0, "A")] := rfl
  rw [walk, hr]
  simp [visits, h0, h1, h2, h3, h4, h5]

/-- The first class exports the variable and has no entry. Names go on through the entry of the second. -/
theorem takenPrototypes_entries :
    (((bound true takenPrototypes).decl 0).flags.has .classDecl = true ∧
      ((bound true takenPrototypes).decl 0).exports.find? "prototype" = some 1 ∧
      (bound true takenPrototypes).isPrototype 1 = false) ∧
    ((bound true takenPrototypes).isPrototype 5 = true ∧ (bound true takenPrototypes).children 5 = [3]) ∧
    listed (bound true takenPrototypes) (bound true takenPrototypes).walk =
      ["B.prototype.a", "I.a", "A.prototype"] := by
  refine ⟨⟨by decide, by decide, by decide⟩, ⟨by decide, takenPrototypes_children⟩, ?_⟩
  rw [takenPrototypes_walk]
  rfl

end Externs
