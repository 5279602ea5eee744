import Externs.Proofs.Bind.Places
import Externs.Proofs.Bind.Runs

/-!
# Keys, tables and scopes

What binding writes on a declaration fits the place where it stands. Its key is its name,
or the quoted name of a module. The modules are the declarations with a table of their own.
A type is written in the module around the declaration, or around the class or interface
that it is a member of.

* `Labelled`: all this, for a graph in which at most one module has no table yet.
* `Stays`: what no move changes in a declaration.
* `Move.labelled`: every move keeps the labels.
-/

namespace Externs

/-- A reference and those inside it. -/
def TypeRef.parts : TypeRef → List TypeRef
  | t@(.flat ..) => [t]
  | t@(.around _ _ _ element) => t :: element.parts

/-- All references that a declaration carries. -/
def Declaration.refs (x : Declaration) : List TypeRef :=
  (x.typeRef.toList ++ x.heritage ++ x.importTarget.toList).flatMap TypeRef.parts

theorem Declaration.mem_refs {x : Declaration} {r : TypeRef} : r ∈ x.refs ↔
    (∃ t, x.typeRef = some t ∧ r ∈ t.parts) ∨ (∃ t ∈ x.heritage, r ∈ t.parts) ∨
      ∃ t, x.importTarget = some t ∧ r ∈ t.parts := by
  simp only [refs, List.mem_flatMap, List.mem_append, Option.mem_toList, or_and_right, exists_or,
    or_assoc]

/-- A type has one scope all through. -/
theorem TypeExpr.scope?_of_mem_parts {s : Option Id} {e : TypeExpr} {r : TypeRef}
    (h : r ∈ (e.toRef s).parts) : r.scope? = s := by
  induction e with
  | named name => rw [List.mem_singleton.1 h]; rfl
  | array element ih =>
    rcases List.mem_cons.1 h with rfl | h
    · rfl
    · exact ih h
  | other => rw [List.mem_singleton.1 h]; rfl

theorem TypeRef.scope?_of_mem_parts_named {name : String} {s : Option Id} {r : TypeRef}
    (h : r ∈ (TypeRef.named name s).parts) : r.scope? = s := by
  rw [List.mem_singleton.1 h]; rfl

namespace Graph

variable {g g' : Graph} {o s : Option Id} {Q : String → Prop}

def isModule (g : Graph) (d : Id) : Bool := (g.decl d).flags.has .moduleDecl

/-- `d` may stand under the key: its name, or the quoted name of a module if that may be quoted. -/
def GoesBy (g : Graph) (Q : String → Prop) (key : String) (d : Id) : Prop :=
  d < g.size ∧ (key = (g.decl d).name ∨
    g.isModule d = true ∧ Q (g.decl d).name ∧ key = "\"" ++ (g.decl d).name ++ "\"")

def Keyed (g : Graph) (Q : String → Prop) (t : Table) : Prop :=
  ∀ key d, (key, d) ∈ t.entries → g.GoesBy Q key d

/-- A type may be written in the scope `s` inside `p`: the file, or a module that is `p` or the parent
of `p`. -/
def Near (g : Graph) (p s : Option Id) : Prop :=
  ∀ m, s = some m → g.isModule m = true ∧ (p = some m ∨ ∃ q, p = some q ∧ (g.decl q).parent = some m)

/-- What is written on a declaration fits its place. -/
structure Fits (g : Graph) (Q : String → Prop) (x : Declaration) : Prop where
  exports : g.Keyed Q x.exports
  members : g.Keyed Q x.members
  locals : ∀ t, x.locals = some t → g.Keyed Q t ∧ x.flags.has .moduleDecl = true
  scopes : ∀ r ∈ x.refs, g.Near x.parent r.scope?

/-- All declarations fit their places, and all modules have tables but for the one that is being
opened. -/
structure Labelled (g : Graph) (Q : String → Prop) (opening : Option Id) : Prop where
  roots : g.Keyed Q g.roots
  fits : ∀ d, g.Fits Q (g.decl d)
  tabled : ∀ d, g.isModule d = true → opening ≠ some d → (g.decl d).locals.isSome

/-- A declaration keeps its name and its parent, and a module stays a module. -/
structure Stays (g g' : Graph) : Prop where
  size_le : g.size ≤ g'.size
  name : ∀ d < g.size, (g'.decl d).name = (g.decl d).name
  parent : ∀ d < g.size, (g'.decl d).parent = (g.decl d).parent
  isModule : ∀ d, g.isModule d = true → g'.isModule d = true

section Stays

variable (h : Stays g g')

include h

theorem GoesBy.stays {key : String} {d : Id} (hk : g.GoesBy Q key d) : g'.GoesBy Q key d := by
  refine ⟨Nat.lt_of_lt_of_le hk.1 h.size_le, ?_⟩
  rw [h.name d hk.1]
  exact hk.2.imp_right fun hq => ⟨h.isModule d hq.1, hq.2⟩

theorem Keyed.stays {t : Table} (ht : g.Keyed Q t) : g'.Keyed Q t := fun key d he => (ht key d he).stays h

theorem Near.stays {p : Option Id} (hn : g.Near p s) : g'.Near p s := by
  intro m hm
  obtain ⟨hmod, hp⟩ := hn m hm
  refine ⟨h.isModule m hmod, hp.imp_right ?_⟩
  rintro ⟨q, hq, hqm⟩
  exact ⟨q, hq, (h.parent q (Shaped.lt_size_of_parent hqm)).trans hqm⟩

theorem Fits.stays {x : Declaration} (hx : g.Fits Q x) : g'.Fits Q x where
  exports := hx.exports.stays h
  members := hx.members.stays h
  locals t ht := ⟨(hx.locals t ht).1.stays h, (hx.locals t ht).2⟩
  scopes r hr := (hx.scopes r hr).stays h

end Stays

theorem stays_push (n : Declaration) : Stays g (g.push n).1 := by
  have old : ∀ d, d < g.size → (g.push n).1.decl d = g.decl d := fun d hd => by
    rw [decl_push, if_neg (Nat.ne_of_lt hd)]
  refine ⟨by rw [size_push]; exact Nat.le_succ _, fun d hd => by rw [old d hd],
    fun d hd => by rw [old d hd], fun d hd => ?_⟩
  have hlt : d < g.size := g.lt_size_of_decl_ne fun e => by simp [Graph.isModule, e] at hd
  rwa [Graph.isModule, old d hlt]

theorem stays_modify {f : Declaration → Declaration} (name : ∀ x, (f x).name = x.name)
    (parent : ∀ x, (f x).parent = x.parent)
    (isModule : ∀ x, x.flags.has .moduleDecl = true → (f x).flags.has .moduleDecl = true) (d : Id) :
    Stays g (g.modify d f) where
  size_le := (size_modify d f).ge
  name x _ := part_modify (·.name) name d x
  parent x _ := part_modify (·.parent) parent d x
  isModule x hx := by
    rw [Graph.isModule, decl_modify]
    split
    · rename_i e; exact isModule _ (e.1 ▸ hx)
    · exact hx

theorem stays_setLocals (s : Option Id) (t : Table) : Stays g (g.setLocals s t) := by
  cases s with
  | none => exact ⟨Nat.le_refl _, fun _ _ => rfl, fun _ _ => rfl, fun _ => id⟩
  | some m =>
    simp only [setLocals]
    exact stays_modify (fun _ => by rfl) (fun _ => by rfl) (fun _ hx => by exact hx) m

theorem stays_exportAs (s : Option Id) (key : String) (d : Id) : Stays g (g.exportAs s key d) := by
  cases s with
  | none => exact ⟨Nat.le_refl _, fun _ _ => rfl, fun _ _ => rfl, fun _ => id⟩
  | some m =>
    simp only [Graph.exportAs]
    exact stays_modify (fun _ => by rfl) (fun _ => by rfl) (fun _ hx => by exact hx) m

theorem Keyed.insertNew {t : Table} (ht : g.Keyed Q t) {key : String} {d : Id} (hk : g.GoesBy Q key d) :
    g.Keyed Q (t.insertNew key d) := by
  intro k x he
  rcases Table.mem_entries_insertNew he with he | ⟨he, -⟩
  · exact ht k x he
  · obtain ⟨rfl, rfl⟩ := Prod.mk.inj he
    exact hk

theorem keyed_empty (g : Graph) : g.Keyed Q .empty := fun _ _ he => by cases he

theorem labelled_empty : empty.Labelled Q none where
  roots := keyed_empty _
  fits d := by
    have hd : empty.decl d = { name := "" } := rfl
    rw [hd]
    exact ⟨keyed_empty _, keyed_empty _, nofun, nofun⟩
  tabled d hd _ := by
    have hb : empty.decl d = { name := "" } := rfl
    simp [Graph.isModule, hb] at hd

namespace Labelled

theorem weaken (h : g.Labelled Q none) (o : Option Id) : g.Labelled Q o :=
  ⟨h.roots, h.fits, fun d hd _ => h.tabled d hd nofun⟩

theorem settle {d : Id} (h : g.Labelled Q (some d)) (hd : (g.decl d).locals.isSome) : g.Labelled Q none where
  roots := h.roots
  fits := h.fits
  tabled x hx _ := by
    by_cases e : x = d
    · rwa [e]
    · exact h.tabled x hx fun he => e (Option.some.inj he).symm

theorem keyed_locals (h : g.Labelled Q o) (s : Option Id) : g.Keyed Q (g.localsOf s) := by
  cases s with
  | none => exact h.roots
  | some m =>
    simp only [localsOf]
    cases hm : (g.decl m).locals with
    | none => exact keyed_empty g
    | some t => exact ((h.fits m).locals t hm).1

theorem goesBy (h : g.Labelled Q o) {key : String} {d : Id} (hd : (g.localsOf s).find? key = some d) :
    g.GoesBy Q key d :=
  h.keyed_locals s key d (Table.mem_entries_of_find? hd)

theorem isModule_of_isScope (h : g.Labelled Q o) {m : Id} (hm : g.IsScope (some m)) : g.isModule m = true :=
  let ⟨t, ht⟩ := Option.isSome_iff_exists.1 hm.1
  ((h.fits m).locals t ht).2

/-- A change of one declaration. -/
theorem modify (h : g.Labelled Q o) (d : Id) {f : Declaration → Declaration} (name : ∀ x, (f x).name = x.name)
    (parent : ∀ x, (f x).parent = x.parent)
    (isModule : ∀ x, x.flags.has .moduleDecl = true → (f x).flags.has .moduleDecl = true)
    (fits : g.Fits Q (g.decl d) → g.Fits Q (f (g.decl d)))
    (tabled : (f (g.decl d)).flags.has .moduleDecl = true → o ≠ some d →
      g.isModule d = true ∧ ((g.decl d).locals.isSome → (f (g.decl d)).locals.isSome)) :
    (g.modify d f).Labelled Q o := by
  have hstay := stays_modify (g := g) name parent isModule d
  refine ⟨h.roots.stays hstay, fun x => ?_, fun x hx ho => ?_⟩
  · rw [decl_modify]
    split
    · exact (fits (h.fits d)).stays hstay
    · exact (h.fits x).stays hstay
  · rw [Graph.isModule, decl_modify] at hx
    rw [decl_modify]
    split at hx
    · rename_i e
      rw [if_pos e]
      obtain ⟨hmod, hsome⟩ := tabled hx (e.1 ▸ ho)
      exact hsome (h.tabled d hmod (e.1 ▸ ho))
    · rename_i e
      rw [if_neg e]
      exact h.tabled x hx ho

/-- A change that leaves flags and table alone. -/
theorem change (h : g.Labelled Q o) (d : Id) {f : Declaration → Declaration} (name : ∀ x, (f x).name = x.name)
    (parent : ∀ x, (f x).parent = x.parent) (flags : ∀ x, (f x).flags = x.flags)
    (locals : ∀ x, (f x).locals = x.locals)
    (exports : g.Keyed Q (g.decl d).exports → g.Keyed Q (f (g.decl d)).exports)
    (members : g.Keyed Q (g.decl d).members → g.Keyed Q (f (g.decl d)).members)
    (refs : ∀ r ∈ (f (g.decl d)).refs, r ∈ (g.decl d).refs ∨ g.Near (g.decl d).parent r.scope?) :
    (g.modify d f).Labelled Q o := by
  refine h.modify d name parent (fun x hx => by rwa [flags]) (fun hd => ?_) fun hm _ => ?_
  · refine ⟨exports hd.exports, members hd.members, fun t ht => ?_, fun r hr => ?_⟩
    · rw [locals] at ht
      rw [flags]
      exact hd.locals t ht
    · rw [parent]
      exact (refs r hr).elim (hd.scopes r) id
  · rw [flags] at hm
    exact ⟨hm, fun hl => by rwa [locals]⟩

/-- One more flag. -/
theorem mark (h : g.Labelled Q o) (d : Id) (flag : Flag) (hm : flag = .moduleDecl → o = some d) :
    (g.modify d fun x => { x with flags := x.flags.union (.single flag) }).Labelled Q o := by
  refine h.modify d (fun _ => by rfl) (fun _ => by rfl) (fun x hx => by simp [hx]) (fun hd => ?_)
    fun hmod ho => ?_
  · exact ⟨hd.exports, hd.members, fun t ht => ⟨(hd.locals t ht).1, by simp [(hd.locals t ht).2]⟩, hd.scopes⟩
  · have hne : flag ≠ .moduleDecl := fun e => ho (hm e)
    exact ⟨by simpa [Graph.isModule, hne] using hmod, id⟩

/-- A new declaration with nothing inside it. -/
theorem push (h : g.Labelled Q o) {n : Declaration} (he : n.exports = .empty) (hm : n.members = .empty)
    (hl : n.locals = none) (hmod : n.flags.has .moduleDecl = true → o = some g.size)
    (hrefs : ∀ r ∈ n.refs, g.Near n.parent r.scope?) : (g.push n).1.Labelled Q o := by
  have hstay := stays_push (g := g) n
  refine ⟨h.roots.stays hstay, fun x => ?_, fun x hx ho => ?_⟩
  · rw [decl_push]
    split
    · refine ⟨he ▸ keyed_empty _, hm ▸ keyed_empty _, fun t ht => ?_, fun r hr => (hrefs r hr).stays hstay⟩
      rw [hl] at ht
      cases ht
    · exact (h.fits x).stays hstay
  · rw [Graph.isModule, decl_push] at hx
    rw [decl_push]
    split at hx
    · rename_i e; exact absurd (e ▸ hmod hx) ho
    · rename_i e; rw [if_neg e]; exact h.tabled x hx ho

theorem setLocals (h : g.Labelled Q o) (hs : g.IsScope s) {t : Table} (ht : g.Keyed Q t) :
    (g.setLocals s t).Labelled Q o := by
  cases s with
  | none =>
    have hstay : Stays g (g.setLocals none t) := stays_setLocals none t
    exact ⟨ht.stays hstay, fun d => (h.fits d).stays hstay, h.tabled⟩
  | some m =>
    have hm := h.isModule_of_isScope hs
    refine h.modify m (fun _ => by rfl) (fun _ => by rfl) (fun _ => id) (fun hd => ?_) fun _ _ => ?_
    · exact ⟨hd.exports, hd.members, fun t' ht' => ⟨Option.some.inj ht' ▸ ht, hm⟩, hd.scopes⟩
    · exact ⟨hm, fun _ => by rfl⟩

theorem exportAs (h : g.Labelled Q o) (s : Option Id) {key : String} {d : Id} (hk : g.GoesBy Q key d) :
    (g.exportAs s key d).Labelled Q o := by
  cases s with
  | none => exact h
  | some m =>
    exact h.change m (fun _ => by rfl) (fun _ => by rfl) (fun _ => by rfl) (fun _ => by rfl)
      (fun he => he.insertNew hk) id fun _ hr => Or.inl hr

theorem addMember (h : g.Labelled Q o) (owner : Id) (isStatic : Bool) {key : String} {d : Id}
    (hk : g.GoesBy Q key d) : (g.addMember owner isStatic key d).Labelled Q o := by
  cases isStatic with
  | true =>
    exact h.change owner (fun _ => by rfl) (fun _ => by rfl) (fun _ => by rfl) (fun _ => by rfl)
      (fun he => he.insertNew hk) id fun _ hr => Or.inl hr
  | false =>
    exact h.change owner (fun _ => by rfl) (fun _ => by rfl) (fun _ => by rfl) (fun _ => by rfl) id
      (fun hm => hm.insertNew hk) fun _ hr => Or.inl hr

/-- A new declaration goes by its name. -/
theorem goesBy_push (n : Declaration) : (g.push n).1.GoesBy Q n.name g.size := by
  refine ⟨lt_size_push n, Or.inl ?_⟩
  rw [decl_push, if_pos rfl]

section declare

variable (hs : g.IsScope s) {key name : String} {flag : Flag}
  (hk : key = name ∨ flag = .moduleDecl ∧ Q name ∧ key = "\"" ++ name ++ "\"")

include hs hk

theorem declareLocal (h : g.Labelled Q o)
    (ho : flag = .moduleDecl → o = some (g.declareLocal s key name flag).2) :
    (g.declareLocal s key name flag).1.Labelled Q o := by
  rcases declareLocal_eq (g := g) s key name flag with ⟨d, -, e⟩ | ⟨-, e⟩ <;> rw [e] at ho ⊢
  · exact h.mark d flag ho
  · set n : Declaration := { name, flags := .single flag, parent := s }
    have hpush : (g.push n).1.Labelled Q o := h.push rfl rfl rfl (fun hm => ho (by simpa [n] using hm))
      fun r hr => by cases hr
    have hnew : (g.push n).1.GoesBy Q key g.size := by
      refine ⟨lt_size_push n, ?_⟩
      rw [isModule, decl_push, if_pos rfl]
      exact hk.imp_right fun ⟨hf, hq⟩ => ⟨by simp [n, hf], hq⟩
    rw [← localsOf_push (n := n) rfl]
    exact hpush.setLocals ((grows_push rfl).isScope hs) ((hpush.keyed_locals s).insertNew hnew)

theorem declare (h : g.Labelled Q o) (exported : Bool)
    (ho : flag = .moduleDecl → o = some (g.declareLocal s key name flag).2) :
    (g.declare s key name flag exported).1.Labelled Q o := by
  have hlocal := h.declareLocal hs hk ho
  unfold Graph.declare
  cases exported with
  | false => exact hlocal
  | true => exact hlocal.exportAs s (hlocal.goesBy (declareLocal_find hs key name flag))

end declare

/-- What is declared as a module is one. -/
theorem isModule_declare (h : g.Labelled Q o) (s : Option Id) (key name : String) (exported : Bool) :
    (g.declare s key name .moduleDecl exported).1.isModule (g.declare s key name .moduleDecl exported).2 =
      true := by
  have hlocal : (g.declareLocal s key name .moduleDecl).1.isModule
      (g.declareLocal s key name .moduleDecl).2 = true := by
    rcases declareLocal_eq (g := g) s key name .moduleDecl with ⟨d, hd, e⟩ | ⟨-, e⟩ <;> rw [e]
    · rw [isModule, decl_modify, if_pos ⟨rfl, (h.goesBy hd).1⟩]
      simp
    · set n : Declaration := { name, flags := .single .moduleDecl, parent := s }
      have hnew : (g.push n).1.isModule g.size = true := by
        rw [isModule, decl_push, if_pos rfl]; simp [n]
      exact (stays_setLocals s _).isModule _ hnew
  unfold Graph.declare
  cases exported with
  | false => exact hlocal
  | true => exact (stays_exportAs s _ _).isModule _ hlocal

theorem openModule_eq (s : Option Id) (key name : String) (exported : Bool) :
    g.openModule s key name exported =
      ((g.declare s key name .moduleDecl exported).1.modify (g.declare s key name .moduleDecl exported).2
        fun x => { x with locals := some (x.locals.getD .empty) },
        (g.declare s key name .moduleDecl exported).2) :=
  rfl

/-- A module that is opened has its table in the end. -/
theorem openModule (h : g.Labelled Q none) (hg : g.Shaped) (hs : g.IsScope s) {key name : String}
    (hk : ModuleKey Q key name) (exported : Bool) : (g.openModule s key name exported).1.Labelled Q none := by
  have hmod := h.isModule_declare s key name exported
  have hscope := openModule_isScope hg hs key name exported
  rw [openModule_eq] at hscope ⊢
  have hdecl : (g.declare s key name .moduleDecl exported).1.Labelled Q
      (some (g.declare s key name .moduleDecl exported).2) :=
    (h.weaken _).declare hs (hk.imp_right fun hq => ⟨rfl, hq⟩) exported fun _ => by rfl
  generalize g.declare s key name .moduleDecl exported = r at hmod hscope hdecl ⊢
  refine Labelled.settle (d := r.2) ?_ hscope.1
  refine hdecl.modify r.2 (fun _ => by rfl) (fun _ => by rfl) (fun _ => id) (fun hd => ?_) fun hm _ => ?_
  · refine ⟨hd.exports, hd.members, fun t ht => ?_, hd.scopes⟩
    cases ht
    exact ⟨hdecl.keyed_locals (some r.2), hmod⟩
  · exact ⟨hm, fun _ => by rfl⟩

theorem giveType (h : g.Labelled Q o) {d : Id} (hn : g.Near (g.decl d).parent s) (t : Option TypeExpr) :
    (g.giveType d (t.map (TypeExpr.toRef s))).Labelled Q o := by
  refine h.change d (fun _ => by rfl) (fun _ => by rfl) (fun _ => by rfl) (fun _ => by rfl) id id fun r hr => ?_
  rw [Declaration.mem_refs] at hr ⊢
  obtain ⟨r', htype, hrr⟩ | hrest := hr
  · rcases Option.or_eq_some_iff.1 htype with htype | ⟨-, htype⟩
    · exact Or.inl (Or.inl ⟨r', htype, hrr⟩)
    · obtain ⟨e, -, rfl⟩ := Option.map_eq_some_iff.1 htype
      rw [TypeExpr.scope?_of_mem_parts hrr]
      exact Or.inr hn
  · exact Or.inl (Or.inr hrest)

theorem addHeritage (h : g.Labelled Q o) {d : Id} (hn : g.Near (g.decl d).parent s) (names : List String) :
    (g.addHeritage d names s).Labelled Q o := by
  refine h.change d (fun _ => by rfl) (fun _ => by rfl) (fun _ => by rfl) (fun _ => by rfl) id id fun r hr => ?_
  rw [Declaration.mem_refs] at hr ⊢
  obtain htype | ⟨r', hher, hrr⟩ | himp := hr
  · exact Or.inl (Or.inl htype)
  · rcases List.mem_append.1 hher with hher | hnew
    · exact Or.inl (Or.inr (Or.inl ⟨r', hher, hrr⟩))
    · obtain ⟨name, -, rfl⟩ := List.mem_map.1 hnew
      rw [TypeRef.scope?_of_mem_parts_named hrr]
      exact Or.inr hn
  · exact Or.inl (Or.inr (Or.inr himp))

theorem aim (h : g.Labelled Q o) {d : Id} (hn : g.Near (g.decl d).parent s) (target : String) :
    (g.modify d fun x => { x with importTarget := some (.named target s) }).Labelled Q o := by
  refine h.change d (fun _ => by rfl) (fun _ => by rfl) (fun _ => by rfl) (fun _ => by rfl) id id fun r hr => ?_
  rw [Declaration.mem_refs] at hr ⊢
  obtain htype | hher | ⟨_, himp, hrr⟩ := hr
  · exact Or.inl (Or.inl htype)
  · exact Or.inl (Or.inr (Or.inl hher))
  · cases himp
    rw [TypeRef.scope?_of_mem_parts_named hrr]
    exact Or.inr hn

/-- What stands in a scope may have types written in that scope. -/
theorem near (h : g.Labelled Q o) (hg : g.Shaped) {d : Id} (hd : g.StandsIn s d) :
    g.Near (g.decl d).parent s := by
  obtain ⟨k, hk⟩ := hd.found
  have hp : (g.decl d).parent = s := hg.locals s d (Table.mem_ids_of_find? hk)
  intro m hm
  exact ⟨h.isModule_of_isScope (hm ▸ hd.scope), Or.inl (hp.trans hm)⟩

/-- So may its members. -/
theorem near_member (h : g.Labelled Q o) (hg : g.Shaped) {d : Id} (hd : g.StandsIn s d) :
    g.Near (some d) s := by
  obtain ⟨k, hk⟩ := hd.found
  have hp : (g.decl d).parent = s := hg.locals s d (Table.mem_ids_of_find? hk)
  intro m hm
  exact ⟨h.isModule_of_isScope (hm ▸ hd.scope), Or.inr ⟨d, rfl, hp.trans hm⟩⟩

theorem bindMember (h : g.Labelled Q none) (hg : g.Shaped) {d : Id} (hd : g.StandsIn s d) (m : Member) :
    (g.bindMember d s m).Labelled Q none := by
  have hnear := h.near_member hg hd
  have hsort : m.sort.flag ≠ .moduleDecl := by cases m.sort <;> decide
  unfold Graph.bindMember
  cases m.key? with
  | none => exact h
  | some key =>
    dsimp only
    cases hk : (g.memberTable d m.isStatic).find? key with
    | some x =>
      have hx : (g.decl x).parent = some d := by
        have hmem := Table.mem_ids_of_find? hk
        unfold memberTable at hmem
        split at hmem
        · exact hg.exports d x hmem
        · exact (hg.members d x hmem).1
      have hmark := h.mark x m.sort.flag fun e => absurd e hsort
      have hstay := stays_modify (g := g) (f := fun y => { y with flags := y.flags.union (.single m.sort.flag) })
        (fun _ => by rfl) (fun _ => by rfl) (fun y hy => by simp [hy]) x
      refine hmark.giveType ?_ m.type
      rw [hstay.parent x (Shaped.lt_size_of_parent hx), hx]
      exact hnear.stays hstay
    | none =>
      dsimp only
      set n : Declaration := { name := key, flags := .single m.sort.flag, accessibility := m.accessibility,
                               isStatic := m.isStatic, parent := some d }
      have hpush : (g.push n).1.Labelled Q none :=
        h.push rfl rfl rfl (fun hm => absurd (by simpa [n] using hm) hsort) fun r hr => by cases hr
      have hadd : ((g.push n).1.addMember d m.isStatic key g.size).Labelled Q none :=
        hpush.addMember d m.isStatic (goesBy_push n)
      have hstay : Stays (g.push n).1 ((g.push n).1.addMember d m.isStatic key g.size) :=
        stays_modify (fun _ => by split <;> rfl) (fun _ => by split <;> rfl)
          (fun _ hx => by split <;> exact hx) d
      have hparent : (((g.push n).1.addMember d m.isStatic key g.size).decl g.size).parent = some d := by
        rw [hstay.parent g.size (lt_size_push n), decl_push, if_pos rfl]
      refine hadd.giveType (d := g.size) ?_ m.type
      rw [hparent]
      exact (hnear.stays (stays_push n)).stays hstay

theorem addExport (h : g.Labelled Q none) (d : Id) (name : String) {flag : Flag} (hm : flag ≠ .moduleDecl) :
    (g.addExport d name flag).Labelled Q none := by
  unfold Graph.addExport
  cases (g.decl d).exports.find? name with
  | some _ => exact h
  | none =>
    set n : Declaration := { name, flags := .single flag, parent := some d }
    have hpush : (g.push n).1.Labelled Q none :=
      h.push rfl rfl rfl (fun hf => absurd (by simpa [n] using hf) hm) fun r hr => by cases hr
    exact hpush.exportAs (some d) (goesBy_push n)

theorem exportName (h : g.Labelled Q none) {scope : Scope} (hs : g.IsScope scope.owner)
    (e : String × Option String) : (g.bindExportName scope e).Labelled Q none := by
  unfold bindExportName
  split
  · rename_i m d hm hd
    rw [hm] at hs hd
    split
    · exact h.exportAs (some m) (h.goesBy hd)
    · rename_i a _
      split
      · exact h
      · -- the new alias is written in the module that it stands in
        set n : Declaration := { name := a, flags := .single .aliasName,
                                 importTarget := some (.named e.1 (some m)), parent := some m }
        have hpush : (g.push n).1.Labelled Q none := by
          refine h.push rfl rfl rfl (fun hf => by simp [n] at hf) fun r hr => ?_
          obtain ⟨_, ht, -⟩ | ⟨_, ht, -⟩ | ⟨_, ht, hr⟩ := Declaration.mem_refs.1 hr <;> cases ht
          rw [TypeRef.scope?_of_mem_parts_named hr]
          intro m' hm'
          cases hm'
          exact ⟨h.isModule_of_isScope hs, Or.inl rfl⟩
        exact hpush.exportAs (some m) (goesBy_push n)
  · exact h

theorem exportAssign (h : g.Labelled Q none) (scope : Scope) (target : String) :
    (g.bindExportAssign scope target).Labelled Q none := by
  unfold bindExportAssign
  cases scope.owner with
  | none => exact h
  | some m =>
    refine h.modify m (fun _ => by rfl) (fun _ => by rfl) (fun x hx => by simp [hx]) (fun hd => ?_)
      fun hmod _ => ?_
    · exact ⟨hd.exports, hd.members, fun t ht => ⟨(hd.locals t ht).1, by simp [(hd.locals t ht).2]⟩, hd.scopes⟩
    · exact ⟨by simpa [Graph.isModule] using hmod, id⟩

end Labelled

/-- **Every move keeps the labels.** -/
theorem Move.labelled (h : Move Q g g') (hg : g.Shaped) (hl : g.Labelled Q none) : g'.Labelled Q none := by
  cases h with
  | declare hs name hm _ exported => exact hl.declare hs (Or.inl rfl) exported fun e => absurd e hm
  | openModule hs hk exported => exact hl.openModule hg hs hk exported
  | giveType hd t => exact hl.giveType (hl.near hg hd) t
  | addHeritage hd names => exact hl.addHeritage (hl.near hg hd) names
  | aim hd target => exact hl.aim (hl.near hg hd) target
  | bindMember hd m => exact hl.bindMember hg hd m
  | addExport _ name hm => exact hl.addExport _ name hm
  | exportName hs e => exact hl.exportName hs e
  | exportAssign _ target => exact hl.exportAssign _ target

theorem Moves.labelled (h : Moves Q g g') (hg : g.Shaped) (hl : g.Labelled Q none) : g'.Labelled Q none := by
  induction h with
  | refl => exact hl
  | tail hs h ih => exact h.labelled (Moves.shaped hs hg) ih

end Graph

theorem bound_labelled (ambient : Bool) (ss : List Statement) :
    (bound ambient ss).Labelled (fun n => ∃ st ∈ ss, st.Quotes n) none :=
  Graph.Moves.labelled (bound_moves ambient ss) Graph.shaped_empty Graph.labelled_empty

theorem bound_placed (ambient : Bool) (ss : List Statement) : (bound ambient ss).Placed :=
  Graph.Edits.placed (Graph.Moves.edits (bound_moves ambient ss)) Graph.shaped_empty Graph.placed_empty

end Externs
