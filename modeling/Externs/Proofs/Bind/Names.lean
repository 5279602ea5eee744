import Externs.Proofs.Bind.Context

/-!
# Where names come from

The names by which declarations go are written in the source: no statement makes up a name, but
for the prototype entries of classes. So what holds of the names that a source writes holds of
all names in its graph.

* `Statement.names`: the names that a statement gives to declarations.
* `Graph.AllNamed`: every declaration goes by a name with a property.
* `bind_allNamed`: a statement keeps that, if its names have the property.
* `bound_ownName`: a declaration of a source goes by a name that the source writes, or by none.
-/

namespace Externs

def ModuleName.names : ModuleName → List String
  | quoted name => [name]
  | dotted segments => segments

mutual

/-- The names that a statement gives to declarations. -/
def Statement.names : Statement → List String
  | .vars vs => vs.map (·.1)
  | .function name => [name]
  | .classDecl name _ ms => name :: "prototype" :: ms.filterMap Member.key?
  | .interfaceDecl name _ ms => name :: ms.filterMap Member.key?
  | .enumDecl name members => name :: members
  | .typeAlias name => [name]
  | .importAlias name _ => [name]
  | .moduleDecl name body => name.names ++ namesAll body
  | .ambient inner => namesAll inner
  | .global body => namesAll body
  | .exported inner => namesAll inner
  | .exportAssign target => [strip target]
  | .exportNames names => names.filterMap (·.2)

def Statement.namesAll : List Statement → List String
  | [] => []
  | st :: ss => st.names ++ Statement.namesAll ss

end

namespace Statement

theorem namesAll_eq (ss : List Statement) : namesAll ss = ss.flatMap names := by
  induction ss with
  | nil => rw [namesAll, List.flatMap_nil]
  | cons st ss ih => rw [namesAll, ih, List.flatMap_cons]

theorem namesAll_append (ss ts : List Statement) : namesAll (ss ++ ts) = namesAll ss ++ namesAll ts := by
  simp only [namesAll_eq, List.flatMap_append]

theorem namesAll_singleton (st : Statement) : namesAll [st] = st.names := by
  rw [namesAll_eq, List.flatMap_singleton]

end Statement

open Statement

/-- The names that a layer gives itself. -/
def Layer.names : Layer → List String
  | block name => name.names
  | _ => []

theorem Layer.names_around (l : Layer) (ss : List Statement) : (l.around ss).names = l.names ++ namesAll ss := by
  rcases l with name | (_ | _) | _ <;> rw [around, Statement.names] <;> rfl

/-- What is named in the gap is named in the source. -/
theorem Context.mem_namesAll (c : Context) {ts : List Statement} {n : String} (h : n ∈ namesAll ts) :
    n ∈ namesAll (c.fill ts) := by
  induction c using Context.outward generalizing ts with
  | file before after =>
    have hfill : (⟨[], before, after⟩ : Context).fill ts = before ++ ts ++ after := rfl
    rw [hfill, namesAll_append, namesAll_append]
    exact List.mem_append_left _ (List.mem_append_right _ h)
  | layer outer l before after ih =>
    rw [fill_beside, fill_inside]
    refine ih ?_
    rw [namesAll_singleton, Layer.names_around, namesAll_append, namesAll_append]
    exact List.mem_append_right _ (List.mem_append_left _ (List.mem_append_right _ h))

namespace Graph

/-- Every declaration has a name for which `N` holds, and so has every module that goes by another name. -/
def AllNamed (N : String → Prop) (g : Graph) : Prop :=
  ∀ d, N (g.decl d).name ∧ ∀ t, (g.decl d).aliasTarget = some t → N t

variable {N : String → Prop} {g : Graph}

/-- A change of a declaration that leaves its names alone. -/
def KeepsNames (f : Declaration → Declaration) : Prop :=
  ∀ x, (f x).name = x.name ∧ (f x).aliasTarget = x.aliasTarget

namespace AllNamed

theorem empty (hN : N "") : Graph.empty.AllNamed N := fun _ => ⟨hN, nofun⟩

theorem modify (h : g.AllNamed N) {f : Declaration → Declaration} (hf : KeepsNames f) (d : Id) :
    (g.modify d f).AllNamed N := by
  intro x
  rw [part_modify (·.name) (fun x => (hf x).1), part_modify (·.aliasTarget) fun x => (hf x).2]
  exact h x

theorem push (h : g.AllNamed N) {n : Declaration} (hn : N n.name) (ht : n.aliasTarget = none) :
    (g.push n).1.AllNamed N := by
  intro x
  rw [decl_push]
  split
  · rw [ht]
    exact ⟨hn, nofun⟩
  · exact h x

theorem setLocals (h : g.AllNamed N) (s : Option Id) (t : Table) : (g.setLocals s t).AllNamed N := by
  cases s with
  | none => exact h
  | some m =>
    refine h.modify ?_ m
    exact fun _ => ⟨rfl, rfl⟩

theorem exportAs (h : g.AllNamed N) (s : Option Id) (key : String) (d : Id) : (g.exportAs s key d).AllNamed N := by
  cases s with
  | none => exact h
  | some m =>
    refine h.modify ?_ m
    exact fun _ => ⟨rfl, rfl⟩

theorem declare (h : g.AllNamed N) (s : Option Id) (key : String) {name : String} (hname : N name) (flag : Flag)
    (exported : Bool) : (g.declare s key name flag exported).1.AllNamed N := by
  have hlocal : (g.declareLocal s key name flag).1.AllNamed N := by
    unfold declareLocal
    split
    · refine h.modify ?_ _
      exact fun _ => ⟨rfl, rfl⟩
    · exact (h.push hname rfl).setLocals _ _
  cases exported with
  | true => exact hlocal.exportAs _ _ _
  | false => exact hlocal

theorem openModule (h : g.AllNamed N) (s : Option Id) (key : String) {name : String} (hname : N name)
    (exported : Bool) : (g.openModule s key name exported).1.AllNamed N := by
  refine (h.declare s key hname .moduleDecl exported).modify ?_ _
  exact fun _ => ⟨rfl, rfl⟩

theorem openModules (h : g.AllNamed N) {segments : List String} (hnames : ∀ n ∈ segments, N n) (s : Option Id)
    (exported : Bool) : (g.openModules s exported segments).1.AllNamed N := by
  induction segments generalizing g s exported with
  | nil => exact h
  | cons segment rest ih =>
    have hopen := h.openModule s segment (hnames segment List.mem_cons_self) exported
    exact ih hopen (fun n hn => hnames n (List.mem_cons_of_mem segment hn)) _ true

theorem openNamed (h : g.AllNamed N) {name : ModuleName} (hnames : ∀ n ∈ name.names, N n) (s : Option Id)
    (exported : Bool) : (g.openNamed s exported name).1.AllNamed N := by
  cases name with
  | quoted name => exact h.openModule s _ (hnames name List.mem_cons_self) exported
  | dotted segments => exact h.openModules hnames s exported

theorem giveType (h : g.AllNamed N) (d : Id) (t : Option TypeRef) : (g.giveType d t).AllNamed N := by
  refine h.modify ?_ d
  exact fun _ => ⟨rfl, rfl⟩

theorem addHeritage (h : g.AllNamed N) (d : Id) (names : List String) (s : Option Id) :
    (g.addHeritage d names s).AllNamed N := by
  refine h.modify ?_ d
  exact fun _ => ⟨rfl, rfl⟩

theorem bindMember (h : g.AllNamed N) (owner : Id) (s : Option Id) {m : Member} (hkey : ∀ k ∈ m.key?, N k) :
    (g.bindMember owner s m).AllNamed N := by
  unfold Graph.bindMember
  split
  · exact h
  · rename_i key hk
    dsimp only
    split
    · refine AllNamed.giveType (h.modify ?_ _) _ _
      exact fun _ => ⟨rfl, rfl⟩
    · have hadd : ∀ x, KeepsNames fun y : Declaration =>
          if m.isStatic then { y with exports := y.exports.insertNew key x }
          else { y with members := y.members.insertNew key x } := fun x y => by split <;> exact ⟨rfl, rfl⟩
      exact ((h.push (hkey key hk) rfl).modify (hadd _) owner).giveType _ _

theorem foldl {α : Type} {f : Graph → α → Graph} {l : List α} (h : g.AllNamed N)
    (hf : ∀ g : Graph, g.AllNamed N → ∀ a ∈ l, (f g a).AllNamed N) : (l.foldl f g).AllNamed N := by
  induction l generalizing g with
  | nil => exact h
  | cons a l ih => exact ih (hf g h a List.mem_cons_self) fun g hg b hb => hf g hg b (List.mem_cons_of_mem a hb)

theorem bindMembers (h : g.AllNamed N) (owner : Id) (s : Option Id) {ms : List Member}
    (hkeys : ∀ k ∈ ms.filterMap Member.key?, N k) : (g.bindMembers owner s ms).AllNamed N :=
  h.foldl fun _ hg m hm => hg.bindMember owner s fun k hk => hkeys k (List.mem_filterMap.2 ⟨m, hm, hk⟩)

theorem addExport (h : g.AllNamed N) (owner : Id) {name : String} (hname : N name) (flag : Flag) :
    (g.addExport owner name flag).AllNamed N := by
  unfold Graph.addExport
  split
  · exact h
  · exact (h.push hname rfl).exportAs _ _ _

theorem bindEnumMembers (h : g.AllNamed N) (owner : Id) {names : List String} (hnames : ∀ n ∈ names, N n) :
    (g.bindEnumMembers owner names).AllNamed N :=
  h.foldl fun _ hg n hn => hg.addExport owner (hnames n (List.mem_filter.1 hn).1) .enumMember

theorem bindExportName (h : g.AllNamed N) (scope : Scope) {e : String × Option String} (hname : ∀ a ∈ e.2, N a) :
    (g.bindExportName scope e).AllNamed N := by
  unfold Graph.bindExportName
  split
  · split
    · exact h.exportAs _ _ _
    · rename_i a ha
      split
      · exact h
      · exact (h.push (hname a (Option.filter_eq_some_iff.1 ha).1) rfl).exportAs _ _ _
  · exact h

theorem bindExportAssign (h : g.AllNamed N) (scope : Scope) {target : String} (htarget : N (strip target)) :
    (g.bindExportAssign scope target).AllNamed N := by
  unfold Graph.bindExportAssign
  split
  · exact h
  · rename_i m _
    intro x
    rw [decl_modify]
    split
    · refine ⟨(h m).1, fun t ht => ?_⟩
      cases ht
      exact htarget
    · exact h x

end AllNamed

/-- **A statement that is no layer keeps what holds of all names,** if it holds of those that it gives. -/
theorem bind_allNamed (h : g.AllNamed N) (scope : Scope) (exported : Bool) {st : Statement} (hst : st.IsPlain)
    (hnames : ∀ n ∈ st.names, N n) : (g.bind scope exported st).AllNamed N := by
  cases st with
  | vars vs =>
    rw [Statement.names] at hnames
    rw [bind]
    refine h.foldl fun g hg v hv => AllNamed.giveType ?_ _ _
    exact hg.declare _ _ (hnames v.1 (List.mem_map_of_mem hv)) .varDecl exported
  | function name =>
    rw [Statement.names] at hnames
    rw [bind]
    exact h.declare _ _ (hnames name List.mem_cons_self) .function exported
  | classDecl name heritage ms =>
    rw [Statement.names, List.forall_mem_cons, List.forall_mem_cons] at hnames
    obtain ⟨hname, hproto, hkeys⟩ := hnames
    have hclass := h.declare scope.owner name hname .classDecl exported
    rw [bind]
    exact ((hclass.addExport _ hproto .prototype).addHeritage _ heritage _).bindMembers _ _ hkeys
  | interfaceDecl name heritage ms =>
    rw [Statement.names, List.forall_mem_cons] at hnames
    obtain ⟨hname, hkeys⟩ := hnames
    rw [bind]
    exact ((h.declare scope.owner name hname .interfaceDecl exported).addHeritage _ heritage _).bindMembers _ _ hkeys
  | enumDecl name members =>
    rw [Statement.names, List.forall_mem_cons] at hnames
    obtain ⟨hname, hmembers⟩ := hnames
    rw [bind]
    exact (h.declare scope.owner name hname .enumDecl exported).bindEnumMembers _ hmembers
  | typeAlias name =>
    rw [Statement.names] at hnames
    rw [bind]
    exact h.declare _ _ (hnames name List.mem_cons_self) .typeAlias exported
  | importAlias name target =>
    rw [Statement.names] at hnames
    rw [bind]
    refine (h.declare scope.owner name (hnames name List.mem_cons_self) .aliasName exported).modify ?_ _
    exact fun _ => ⟨rfl, rfl⟩
  | exportAssign target =>
    rw [Statement.names] at hnames
    rw [bind]
    exact h.bindExportAssign scope (hnames _ List.mem_cons_self)
  | exportNames names =>
    rw [Statement.names] at hnames
    rw [bind]
    refine h.foldl fun g hg e he => hg.bindExportName scope fun a ha => hnames a ?_
    exact List.mem_filterMap.2 ⟨e, he, ha⟩
  | moduleDecl name body => exact absurd rfl (hst (.block name) body)
  | ambient inner => exact absurd rfl (hst (.behind .declared) inner)
  | exported inner => exact absurd rfl (hst (.behind .exported) inner)
  | global body => exact absurd rfl (hst .global body)

end Graph

open Externs.Graph

/-- **What holds of all names that a source writes holds of all names in its graph.** -/
theorem bound_allNamed {N : String → Prop} (hN : N "") (ambient : Bool) {ss : List Statement}
    (hnames : ∀ n ∈ namesAll ss, N n) : (bound ambient ss).AllNamed N := by
  refine bound_induct (fun c st hst hss hP => ?_) (fun c l inner hss hP => ?_) (AllNamed.empty hN)
  · have hst' : ∀ n ∈ st.names, N n := fun n hn => by
      rw [← namesAll_singleton] at hn
      exact hnames n (hss ▸ c.mem_namesAll hn)
    rw [Point.run, bindIn_singleton _ _ st fun name body => hst (.block name) body]
    exact bind_allNamed hP _ _ hst hst'
  · have hl : ∀ n ∈ l.names, N n := fun n hn => by
      have hmem : n ∈ namesAll [l.around inner] := by
        rw [namesAll_singleton, Layer.names_around]
        exact List.mem_append_left _ hn
      exact hnames n (hss ▸ c.mem_namesAll hmem)
    cases l with
    | block name => exact hP.openNamed hl _ _
    | behind _ => exact hP
    | global => exact hP

/-- **A declaration goes by a name that the source writes.** Where there is no declaration there is no name. -/
theorem bound_ownName (ambient : Bool) (ss : List Statement) (d : Id) :
    (bound ambient ss).ownName d = "" ∨ (bound ambient ss).ownName d ∈ namesAll ss := by
  have hnamed : (bound ambient ss).AllNamed fun n => n = "" ∨ n ∈ namesAll ss :=
    bound_allNamed (Or.inl rfl) ambient fun n hn => Or.inr hn
  obtain ⟨hname, htarget⟩ := hnamed d
  unfold ownName
  split
  · rename_i t ht
    split
    · exact hname
    · exact htarget t ht
  · exact hname

end Externs
