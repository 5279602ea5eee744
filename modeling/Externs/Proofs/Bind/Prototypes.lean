import Externs.Proofs.Bind.Flagged
import Externs.Proofs.Bind.Split
import Externs.Proofs.Bind.Steps
import Externs.Proofs.Bind.Typed

/-!
# Prototype entries

A class exports a prototype entry, which is made when the first class statement of its name is
bound, unless something else is exported under the key by then. Flags come from what is declared,
from members and from such entries, and from nothing else. So prototype entries stay what they
are, but for the flags of static members with their key.

* `Calm`: binding that makes no prototype entry, and which classes and flags it makes.
* `bind_calm`: all statements but those of classes are calm.
* `Entries`, `Entries.calm`: the prototype entries of a graph, with their classes and flags.
* `FirstClass`: the gap in which the first class statement of a declaration stands.
* `bound_prototyped`: what the classes of a source export as their prototypes.
-/

namespace Externs

namespace Graph

variable {g g' g'' : Graph} {s : Option Id}

/-! ## Calm binding -/

section calm

variable {C : Id → Prop} {S : Id → Flag → Prop}

/-- From `g` to `g'` no prototype entry is made. Only declarations in `C` become classes, and the entry of
a class `c` gets a flag `f` only if `S c f`. -/
structure Calm (C : Id → Prop) (S : Id → Flag → Prop) (g g' : Graph) : Prop where
  edits : Edits g g'
  classes : ∀ d, (g'.decl d).flags.has .classDecl = true → (g.decl d).flags.has .classDecl = true ∨ C d
  prototypes : ∀ x, g'.isPrototype x = true → g.isPrototype x = true
  entries : ∀ x c f, g.isPrototype x = true → (g.decl c).exports.find? "prototype" = some x →
    (g'.decl x).flags.has f = true → (g.decl x).flags.has f = true ∨ S c f

namespace Calm

theorem refl (g : Graph) : Calm C S g g :=
  ⟨.refl, fun _ => Or.inl, fun _ => id, fun _ _ _ _ _ => Or.inl⟩

theorem trans (h : Calm C S g g') (h' : Calm C S g' g'') : Calm C S g g'' where
  edits := h.edits.trans h'.edits
  classes d hd := (h'.classes d hd).elim (h.classes d) Or.inr
  prototypes x hx := h.prototypes x (h'.prototypes x hx)
  entries x c f hx hc hf := by
    have hkeeps := Edits.keeps h.edits
    rcases h'.entries x c f (hkeeps.flag hx) (hkeeps.exports hc) hf with hf | hS
    · exact h.entries x c f hx hc hf
    · exact Or.inr hS

theorem of_same (he : Edits g g') (h : ∀ x, (g'.decl x).flags = (g.decl x).flags) : Calm C S g g' where
  edits := he
  classes d hd := Or.inl (h d ▸ hd)
  prototypes x hx := by rwa [isPrototype, h] at hx
  entries x _ f _ _ hf := Or.inl (h x ▸ hf)

/-- What is done one by one, each time calmly, as long as `P` holds. -/
theorem foldl {α : Type} {φ : Graph → α → Graph} {P : Graph → Prop}
    (hP : ∀ {g g'}, Edits g g' → P g → P g') (l : List α) (hφ : ∀ g, ∀ a ∈ l, P g → Calm C S g (φ g a))
    (h : P g) : Calm C S g (l.foldl φ g) := by
  induction l generalizing g with
  | nil => exact refl g
  | cons a l ih =>
    have ha := hφ g a List.mem_cons_self h
    exact ha.trans (ih (fun g b hb => hφ g b (List.mem_cons_of_mem _ hb)) (hP ha.edits h))

end Calm

theorem FlagsFrom.calm {A : Id → Flag → Prop} (h : FlagsFrom A g g') (he : Edits g g')
    (classes : ∀ x, A x .classDecl → C x) (prototypes : ∀ x, ¬A x .prototype)
    (entries : ∀ x c f, g.isPrototype x = true → (g.decl c).exports.find? "prototype" = some x → A x f → S c f) :
    Calm C S g g' where
  edits := he
  classes d hd := (h d _ hd).imp_right (classes d)
  prototypes x hx := (h x _ hx).resolve_right (prototypes x)
  entries x c f hx hc hf := (h x f hf).imp_right (entries x c f hx hc)

/-- What has a flag lies in the array. -/
theorem lt_size_of_flag {x : Id} {f : Flag} (h : (g.decl x).flags.has f = true) : x < g.size :=
  g.lt_size_of_decl_ne fun e => by rw [e] at h; simp at h

/-- What is new takes no flag from a prototype entry. -/
theorem FlagsFrom.calm_new {k : Flag} (h : FlagsFrom (fun x f => x = g.size ∧ f = k) g g') (he : Edits g g')
    (hc : k ≠ .classDecl) (hp : k ≠ .prototype) : Calm C S g g' :=
  h.calm he (fun _ hA => absurd hA.2.symm hc) (fun _ hA => hp hA.2.symm)
    fun _ _ _ hx _ hA => absurd hA.1 (Nat.ne_of_lt (lt_size_of_flag hx))

variable (hg : g.Shaped) (hs : g.IsScope s)

section scope

include hg hs

/-- A declaration of a scope is no prototype entry. -/
theorem declare_calm (key name : String) {k : Flag} (hk : k ≠ .prototype) (exported : Bool)
    (hC : k = .classDecl → C (g.declare s key name k exported).2) :
    Calm C S g (g.declare s key name k exported).1 := by
  have he := declare_edits hs key name hk exported
  refine (flagsFrom_declare s key name k exported).calm he ?_ ?_ ?_
  · rintro _ ⟨rfl, hf⟩
    exact hC hf.symm
  · exact fun _ hA => hk hA.2.symm
  · rintro _ c f hx _ ⟨rfl, -⟩
    exact absurd (declare_declared hs key name k exported).scoped
      ((Edits.shaped he hg).prototype _ ((Edits.keeps he).flag hx))

theorem openModule_calm (key name : String) (exported : Bool) :
    Calm C S g (g.openModule s key name exported).1 :=
  (declare_calm hg hs key name (by decide) exported nofun).trans
    (.of_same (.single (.table (declare_declared hs key name .moduleDecl exported)))
      (part_modify (·.flags) (fun _ => by rfl) _))

theorem openNamed_calm (exported : Bool) (name : ModuleName) : Calm C S g (g.openNamed s exported name).1 := by
  cases name with
  | quoted name => exact openModule_calm hg hs _ name exported
  | dotted segments =>
    rw [openNamed]
    induction segments generalizing g s exported with
    | nil => exact .refl g
    | cons segment rest ih =>
      have hopen := openModule_calm (C := C) (S := S) hg hs segment segment exported
      exact hopen.trans (ih (Edits.shaped hopen.edits hg) (openModule_isScope hg hs segment segment exported) true)

theorem bindExportAssign_calm (ambient : Bool) (target : String) :
    Calm C S g (g.bindExportAssign ⟨s, ambient⟩ target) := by
  refine (flagsFrom_bindExportAssign _ target).calm (bindExportAssign_edits target) nofun nofun ?_
  rintro x c f hx _ ⟨rfl, -⟩
  exact absurd hs.2.scoped (hg.prototype x hx)

theorem bindVariable_calm (ambient exported : Bool) (v : String × Option TypeExpr) :
    Calm C S g (g.bindVariable ⟨s, ambient⟩ exported v) :=
  (declare_calm hg hs v.1 v.1 (by decide) exported nofun).trans
    (.of_same (.single (edit_giveType _ _)) (part_modify (·.flags) (fun _ => by rfl) _))

end scope

section members

variable {d : Id}

omit hs in
include hg in
/-- A prototype entry gets the flag of a static member with its key, in a statement of its class. -/
theorem bindMember_calm (hp : g.Placed) (hd : g.Declared d) (s : Option Id) (m : Member)
    (hS : m.isStatic = true → m.key? = some "prototype" → S d m.sort.flag) :
    Calm C S g (g.bindMember d s m) := by
  have hclass : m.sort.flag ≠ .classDecl := by cases m.sort <;> decide
  refine (flagsFrom_bindMember d s m).calm (bindMember_edits hd s m)
    (fun _ hA => absurd hA.2.symm hclass) (fun _ hA => m.sort.flag_ne hA.2.symm) ?_
  rintro x c f hx hc ⟨rfl | ⟨key, hk, hfound⟩, rfl⟩
  · exact absurd (lt_size_of_flag hx) (Nat.lt_irrefl _)
  · unfold memberTable at hfound
    split at hfound
    · rename_i hstatic
      -- the entry has one key, in the exports of one declaration
      have hentry : g.Entry (.exports d) key x := Table.mem_entries_of_find? hfound
      have hentry' : g.Entry (.exports c) "prototype" x := Table.mem_entries_of_find? hc
      obtain ⟨-, rfl⟩ := hp.once hentry hentry'
      cases (hg.parent_of_entry hentry).symm.trans (hg.parent_of_entry hentry')
      exact hS hstatic hk
    · have hmember := (hg.members d x (Table.mem_ids_of_find? hfound)).2.2
      rw [hx] at hmember
      cases hmember

omit hs in
include hg in
theorem bindBody_calm (hp : g.Placed) (hd : g.Declared d) (names : List String) (s : Option Id) (ms : List Member)
    (hS : ∀ m ∈ ms, m.isStatic = true → m.key? = some "prototype" → S d m.sort.flag) :
    Calm C S g ((g.addHeritage d names s).bindMembers d s ms) := by
  have hher : Calm C S g (g.addHeritage d names s) :=
    .of_same (.single (edit_addHeritage _ _ _)) (part_modify (·.flags) (fun _ => by rfl) _)
  refine hher.trans (Calm.foldl (P := fun g => (g.Shaped ∧ g.Placed) ∧ g.Declared d)
    (fun he h => ⟨⟨Edits.shaped he h.1.1, Edits.placed he h.1.1 h.1.2⟩, (Edits.grows he).declared h.2⟩) ms
    (fun _ m hm h => bindMember_calm h.1.1 h.1.2 h.2 s m (hS m hm)) ?_)
  exact ⟨⟨Edits.shaped hher.edits hg, Edits.placed hher.edits hg hp⟩, (Edits.grows hher.edits).declared hd⟩

end members

include hg hs in
/-- **A statement that is no layer is calm, unless it is one of a class.** -/
theorem bind_calm (hp : g.Placed) (ambient exported : Bool) {st : Statement} (hst : st.IsPlain)
    (hclass : ∀ name heritage ms, st ≠ .classDecl name heritage ms)
    (hS : ∀ name ms d, st.Declares name ms →
      ((g.bind ⟨s, ambient⟩ exported st).localsOf s).find? name = some d →
      ∀ m ∈ ms, m.isStatic = true → m.key? = some "prototype" → S d m.sort.flag) :
    Calm C S g (g.bind ⟨s, ambient⟩ exported st) := by
  have hscope : ∀ {g g' : Graph}, Edits g g' → g.Shaped ∧ g.IsScope s → g'.Shaped ∧ g'.IsScope s :=
    fun he h => ⟨Edits.shaped he h.1, (Edits.grows he).isScope h.2⟩
  -- what only declares one name
  have named : ∀ (name : String) {k : Flag}, k ≠ .prototype → k ≠ .classDecl →
      Calm C S g (g.declare s name name k exported).1 := fun name _ hk hc =>
    declare_calm hg hs name name hk exported fun e => absurd e hc
  cases st with
  | vars vs =>
    rw [bind]
    exact Calm.foldl hscope vs (fun _ v _ h => bindVariable_calm h.1 h.2 ambient exported v) ⟨hg, hs⟩
  | function name => rw [bind]; exact named name (by decide) (by decide)
  | classDecl name heritage ms => exact absurd rfl (hclass name heritage ms)
  | interfaceDecl name heritage ms =>
    have hf : Flag.interfaceDecl ≠ .prototype := by decide
    have hdecl := named name hf (by decide)
    have hd := declare_standsIn hs name name hf exported
    have hbody : AnyMoves _ _ := bindBody_moves hd heritage ms
    have hfound := (Moves.grows hbody).find (declare_find hs name name .interfaceDecl exported)
    rw [bind] at hS ⊢
    exact hdecl.trans (bindBody_calm (Edits.shaped hdecl.edits hg) (Edits.placed hdecl.edits hg hp) hd.declared
      heritage s ms (hS name ms _ (Or.inr ⟨heritage, rfl⟩) hfound))
  | enumDecl name names =>
    have hdecl := named name (k := .enumDecl) (by decide) (by decide)
    have hd := declare_declared hs name name .enumDecl exported
    rw [bind]
    exact hdecl.trans (Calm.foldl (fun he h => (Edits.grows he).declared h) _
      (fun _ n _ h => (flagsFrom_addExport _ n .enumMember).calm_new (addExport_edits h n _) (by decide)
        (by decide)) hd)
  | typeAlias name => rw [bind]; exact named name (by decide) (by decide)
  | importAlias name target =>
    rw [bind]
    refine (named name (k := .aliasName) (by decide) (by decide)).trans
      (.of_same (.single (.relabel _ ?_)) (part_modify (·.flags) (fun _ => by rfl) _))
    exact relabels_of_flags (fun _ => rfl) (fun _ => rfl) (fun _ => rfl) (fun _ => rfl) fun _ => rfl
  | exportAssign target => rw [bind]; exact bindExportAssign_calm hg hs ambient target
  | exportNames names =>
    rw [bind]
    exact Calm.foldl hscope names (fun _ e _ h => (flagsFrom_bindExportName _ e).calm_new
      (bindExportName_edits h.2 e) (by decide) (by decide)) ⟨hg, hs⟩
  | moduleDecl name body => exact absurd rfl (hst (.block name) body)
  | ambient inner => exact absurd rfl (hst (.behind .declared) inner)
  | exported inner => exact absurd rfl (hst (.behind .exported) inner)
  | global body => exact absurd rfl (hst .global body)

end calm

/-! ## The entries of classes -/

section entries

variable {C : Id → Prop} {S : Id → Flag → Prop} {d : Id}

/-- Each prototype entry is that of a class `c`, and has no flag but its own and those with `S c f`. -/
def Entries (S : Id → Flag → Prop) (g : Graph) : Prop :=
  ∀ x, g.isPrototype x = true → ∃ c, (g.decl c).flags.has .classDecl = true ∧
    (g.decl c).exports.find? "prototype" = some x ∧
    ∀ f, (g.decl x).flags.has f = true → f = .prototype ∨ S c f

theorem Entries.calm (h : g.Entries S) (hc : Calm C S g g') : g'.Entries S := by
  intro x hx
  have hold := hc.prototypes x hx
  obtain ⟨c, hclass, hexport, hflags⟩ := h x hold
  have hkeeps := Edits.keeps hc.edits
  refine ⟨c, hkeeps.flag hclass, hkeeps.exports hexport, fun f hf => ?_⟩
  exact (hc.entries x c f hold hexport hf).elim (hflags f) Or.inr

/-- What exports a prototype entry is a class. -/
theorem Entries.isClass (h : g.Entries S) (hg : g.Shaped) {key : String} {x : Id}
    (hx : (g.decl d).exports.find? key = some x) (hp : g.isPrototype x = true) :
    (g.decl d).flags.has .classDecl = true := by
  obtain ⟨c, hc, hexport, -⟩ := h x hp
  have hparent := hg.exports d x (Table.mem_ids_of_find? hx)
  cases hparent.symm.trans (hg.exports c x (Table.mem_ids_of_find? hexport))
  exact hc

theorem addExport_new (hd : d < g.size) {name : String} (hfree : (g.decl d).exports.find? name = none) (k : Flag) :
    ((g.addExport d name k).decl d).exports.find? name = some g.size ∧
      ((g.addExport d name k).decl g.size).flags = .single k := by
  set n : Declaration := { name, flags := .single k, parent := some d }
  have hadd : g.addExport d name k = (g.push n).1.exportAs (some d) name g.size := by
    unfold Graph.addExport
    rw [hfree]
    rfl
  have hold : (g.push n).1.decl d = g.decl d := by rw [decl_push, if_neg (Nat.ne_of_lt hd)]
  rw [hadd, flags_exportAs, exportAs_find (Nat.lt_trans hd (lt_size_push n)), hold, hfree, decl_push, if_pos rfl]
  exact ⟨rfl, rfl⟩

/-- From `g` to `g'` what is there becomes no prototype entry. Only declarations in `C` become classes, and
all entries are still those of classes. -/
structure KeepsEntries (C : Id → Prop) (S : Id → Flag → Prop) (g g' : Graph) : Prop where
  edits : Edits g g'
  classes : ∀ d, (g'.decl d).flags.has .classDecl = true → (g.decl d).flags.has .classDecl = true ∨ C d
  old : ∀ x < g.size, g'.isPrototype x = true → g.isPrototype x = true
  entries : g.Entries S → g'.Entries S

theorem Calm.keepsEntries (h : Calm C S g g') : KeepsEntries C S g g' :=
  ⟨h.edits, h.classes, fun x _ => h.prototypes x, fun he => he.calm h⟩

theorem KeepsEntries.trans (h : KeepsEntries C S g g') (h' : KeepsEntries C S g' g'') : KeepsEntries C S g g'' where
  edits := h.edits.trans h'.edits
  classes d hd := (h'.classes d hd).elim (h.classes d) Or.inr
  old x hx hp := h.old x hx (h'.old x (Nat.lt_of_lt_of_le hx (Edits.size_le h.edits)) hp)
  entries he := h'.entries (h.entries he)

/-- The entry of a class is made if nothing is exported under its key. -/
theorem addExport_keepsEntries (hg : g.Shaped) (hd : g.Declared d)
    (hclass : (g.decl d).flags.has .classDecl = true) :
    KeepsEntries C S g (g.addExport d "prototype" .prototype) := by
  have hedits := addExport_edits hd "prototype" .prototype
  have hkeeps := Edits.keeps hedits
  have hfrom := flagsFrom_addExport (g := g) d "prototype" .prototype
  refine ⟨hedits, fun c hc => Or.inl ((hfrom c _ hc).resolve_right nofun), fun x hlt hx => ?_, fun h x hx => ?_⟩
  · exact (hfrom x _ hx).resolve_right fun hnew => Nat.ne_of_lt hlt hnew.1
  rcases hfrom x _ hx with hold | ⟨rfl, -⟩
  · obtain ⟨c, hc, hexport, hflags⟩ := h x hold
    refine ⟨c, hkeeps.flag hc, hkeeps.exports hexport, fun f hf => ?_⟩
    exact (hfrom x f hf).elim (hflags f) fun hnew => Or.inl hnew.2
  · cases hfree : (g.decl d).exports.find? "prototype" with
    | some y =>
      -- then there is no new entry
      rw [addExport_again hfree] at hx
      exact absurd (lt_size_of_flag hx) (Nat.lt_irrefl _)
    | none =>
      obtain ⟨hnew, hflag⟩ := addExport_new (hg.scoped_lt d hd.scoped) hfree .prototype
      refine ⟨d, hkeeps.flag hclass, hnew, fun f hf => ?_⟩
      rw [hflag, Flags.has_single, decide_eq_true_eq] at hf
      exact Or.inl hf.symm

/-- What is declared keeps its exports: they are not those of its scope. -/
theorem exports_declare (hg : g.Shaped) (hs : g.IsScope s) (key name : String) {k : Flag} (hk : k ≠ .prototype)
    (exported : Bool) :
    ((g.declare s key name k exported).1.decl (g.declare s key name k exported).2).exports =
      (g.decl (g.declare s key name k exported).2).exports := by
  have hlocal := exports_declareLocal hs key name k (g.declareLocal s key name k).2
  unfold declare
  cases exported with
  | false => exact hlocal
  | true =>
    cases s with
    | none => exact hlocal
    | some m =>
      have hfound := declareLocal_find hs key name k
      have hg' := (Edit.declare hs key name hk).shaped hg
      have hlt := hg'.parent_lt _ m (hg'.locals _ _ (Table.mem_ids_of_find? hfound))
      dsimp only
      rw [if_pos rfl, exportAs, decl_modify, if_neg fun e => Nat.ne_of_gt hlt e.1]
      exact hlocal

/-- What binding a class statement does: it declares `d`, and exports `x` from it as its prototype. -/
structure BindsClass (S : Id → Flag → Prop) (s : Option Id) (name : String) (g g' : Graph) (d x : Id) : Prop where
  found : (g'.localsOf s).find? name = some d
  keeps : KeepsEntries (· = d) S g g'
  exported : (g'.decl d).exports.find? "prototype" = some x
  entry : (g.decl d).exports.find? "prototype" = none → g'.isPrototype x = true

section

variable {name : String} {x : Id} (h : BindsClass S s name g g' d x)

include h

theorem BindsClass.taken {y : Id} (hy : (g.decl d).exports.find? "prototype" = some y) : y = x :=
  Option.some.inj (((Edits.keeps h.keeps.edits).exports hy).symm.trans h.exported)

/-- If `d` was no class before, then what it exported is no entry: that would be an entry of a class. -/
theorem BindsClass.entry_iff (hg : g.Shaped) (he : g.Entries S) (hnew : (g.decl d).flags.has .classDecl = false) :
    g'.isPrototype x = true ↔ (g.decl d).exports.find? "prototype" = none := by
  refine ⟨fun hx => ?_, h.entry⟩
  rw [Option.eq_none_iff_forall_ne_some]
  intro y hy
  obtain rfl := h.taken hy
  have hlt := Shaped.lt_size_of_parent (hg.exports d y (Table.mem_ids_of_find? hy))
  rw [he.isClass hg hy (h.keeps.old y hlt hx)] at hnew
  cases hnew

end

/-- **A class statement declares a class,** and makes its entry if nothing is exported under the key. -/
theorem bind_bindsClass (hg : g.Shaped) (hp : g.Placed) (hs : g.IsScope s) (ambient exported : Bool)
    (name : String) (heritage : List String) (ms : List Member)
    (hS : ∀ d, ((g.bind ⟨s, ambient⟩ exported (.classDecl name heritage ms)).localsOf s).find? name = some d →
      ∀ m ∈ ms, m.isStatic = true → m.key? = some "prototype" → S d m.sort.flag) :
    ∃ d x, BindsClass S s name g (g.bind ⟨s, ambient⟩ exported (.classDecl name heritage ms)) d x := by
  have hf : Flag.classDecl ≠ .prototype := by decide
  have hknown := declare_knownAs hg hs name name hf exported
  have hstands := declare_standsIn hs name name hf exported
  have hdecl := declare_calm (C := (· = (g.declare s name name .classDecl exported).2)) (S := S) hg hs name name hf
    exported fun _ => rfl
  have hexports := exports_declare hg hs name name hf exported
  rw [bind] at hS ⊢
  set d := (g.declare s name name .classDecl exported).2
  set g₁ := (g.declare s name name .classDecl exported).1
  have hg₁ : g₁.Shaped := Edits.shaped hdecl.edits hg
  have hlt : d < g₁.size := hg₁.scoped_lt d hstands.declared.scoped
  have hproto : KeepsEntries (· = d) S g₁ (g₁.addExport d "prototype" .prototype) :=
    addExport_keepsEntries hg₁ hstands.declared hknown.flag
  have hstands₂ := (Edits.grows hproto.edits).standsIn hstands
  have hbody : AnyMoves _ _ := bindBody_moves hstands₂ heritage ms
  have hfound := (Moves.grows hbody).find ((Edits.grows hproto.edits).find hknown.found)
  have hcalm := bindBody_calm (C := (· = d)) (Edits.shaped hproto.edits hg₁)
    (Edits.placed hproto.edits hg₁ (Edits.placed hdecl.edits hg hp)) hstands₂.declared heritage s ms (hS d hfound)
  have hkeeps := Edits.keeps hcalm.edits
  obtain ⟨x, hx⟩ := addExport_found hlt "prototype" .prototype
  refine ⟨d, x, hfound, (hdecl.keepsEntries.trans hproto).trans hcalm.keepsEntries, hkeeps.exports hx,
    fun hfree => hkeeps.flag ?_⟩
  rw [← hexports] at hfree
  obtain ⟨hnew, hflag⟩ := addExport_new hlt hfree .prototype
  cases hx.symm.trans hnew
  rw [hflag, Flags.has_single, decide_eq_true rfl]

end entries

end Graph

open Externs.Graph

/-! ## The classes of a source -/

/-- A class or interface statement of `c` states a static member with this key and flag. -/
def Graph.StatesStatic (g : Graph) (ss : List Statement) (c : Id) (key : String) (f : Flag) : Prop :=
  ∃ s st name ms m, g.StatedIn ss s st ∧ st.Declares name ms ∧ (g.localsOf s).find? name = some c ∧
    m ∈ ms ∧ m.isStatic = true ∧ m.key? = some key ∧ m.sort.flag = f

/-- In the gap `k` stands the first class statement of `c`. -/
structure FirstClass (ambient : Bool) (ss : List Statement) (c : Id) (k : Context) : Prop where
  stated : ∃ name heritage ms, ss = k.fill [.classDecl name heritage ms] ∧
    ((bound ambient ss).localsOf (k.point ambient).scope).find? name = some c
  first : ((bound ambient k.upTo).decl c).flags.has .classDecl = false

/-- What the graph `g` exports from the class `c` under the key of prototype entries, in terms of the first
class statement, which stands in the gap `k`. -/
structure Prototype (ambient : Bool) (ss : List Statement) (g : Graph) (c : Id) (k : Context) (x : Id) : Prop where
  first : FirstClass ambient ss c k
  exported : (g.decl c).exports.find? "prototype" = some x
  /-- It is a prototype entry if nothing was exported under the key before, -/
  entry : g.isPrototype x = true ↔ ((bound ambient k.upTo).decl c).exports.find? "prototype" = none
  /-- and what was exported otherwise. -/
  taken : ∀ y, ((bound ambient k.upTo).decl c).exports.find? "prototype" = some y → y = x

variable {ambient : Bool} {ss : List Statement}

theorem Prototype.keeps {g g' : Graph} {C : Id → Prop} {S : Id → Flag → Prop} {c x : Id} {k : Context}
    (h : Prototype ambient ss g c k x) (hg : g.Shaped) (hk : KeepsEntries C S g g') :
    Prototype ambient ss g' c k x where
  first := h.first
  exported := (Edits.keeps hk.edits).exports h.exported
  entry := by
    have hlt : x < g.size := Shaped.lt_size_of_parent (hg.exports c x (Table.mem_ids_of_find? h.exported))
    rw [← h.entry]
    exact ⟨hk.old x hlt, (Edits.keeps hk.edits).flag⟩
  taken := h.taken

/-- Every prototype entry is that of a class, and every class has its prototype. -/
structure Prototyped (ambient : Bool) (ss : List Statement) (g : Graph) : Prop where
  entries : g.Entries fun c f => (bound ambient ss).StatesStatic ss c "prototype" f
  classes : ∀ c, (g.decl c).flags.has .classDecl = true → ∃ k x, Prototype ambient ss g c k x

theorem Prototyped.calm {g g' : Graph} (h : Prototyped ambient ss g) (hg : g.Shaped)
    (hc : Calm (fun _ => False) (fun c f => (bound ambient ss).StatesStatic ss c "prototype" f) g g') :
    Prototyped ambient ss g' where
  entries := h.entries.calm hc
  classes c hclass := by
    obtain ⟨k, x, hx⟩ := h.classes c ((hc.classes c hclass).resolve_right id)
    exact ⟨k, x, hx.keeps hg hc.keepsEntries⟩

section plain

variable {c : Context} {st : Statement} (hst : st.IsPlain) (hss : ss = c.fill [st])

include hss

variable (ambient) in
/-- What the statement in the gap states of a class, it states of what the name leads to in the end. -/
theorem Context.statesStatic (name : String) (ms : List Member) (d : Id) (hdecl : st.Declares name ms)
    (hd : (((c.point ambient).run [st]).localsOf (c.point ambient).scope).find? name = some d) :
    ∀ m ∈ ms, m.isStatic = true → m.key? = some "prototype" →
      (bound ambient ss).StatesStatic ss d "prototype" m.sort.flag := by
  have hstated := c.statedIn ambient (List.mem_singleton_self st)
  have hend := c.fill_moves ambient [st]
  rw [← hss] at hstated hend
  exact fun m hm hstatic hkey =>
    ⟨_, st, name, ms, m, hstated, hdecl, (Moves.grows hend).find hd, hm, hstatic, hkey, rfl⟩

include hst in
/-- **A statement keeps that classes have prototypes.** -/
theorem Prototyped.plain (h : Prototyped ambient ss (c.point ambient).graph) :
    Prototyped ambient ss ((c.point ambient).run [st]) := by
  have hok := c.point_ok ambient
  have hbefore := c.bound_upTo ambient
  have hplaced : (c.point ambient).graph.Placed := hbefore ▸ bound_placed ambient c.upTo
  have hend := c.fill_moves ambient [st]
  have hstatic := c.statesStatic ambient hss
  rw [← hss] at hend
  rw [Point.run_plain _ fun name body => hst (.block name) body] at hend hstatic ⊢
  by_cases hclass : ∃ name heritage ms, st = .classDecl name heritage ms
  · obtain ⟨name, heritage, ms, rfl⟩ := hclass
    obtain ⟨d, x, hbinds⟩ := bind_bindsClass hok.shaped hplaced hok.isScope (c.point ambient).manner.ambient
      (c.point ambient).manner.exported name heritage ms fun d => hstatic name ms d (Or.inl ⟨heritage, rfl⟩)
    refine ⟨hbinds.keeps.entries h.entries, fun c' hc' => ?_⟩
    by_cases hold : ((c.point ambient).graph.decl c').flags.has .classDecl = true
    · obtain ⟨k, y, hy⟩ := h.classes c' hold
      exact ⟨k, y, hy.keeps hok.shaped hbinds.keeps⟩
    · obtain rfl : c' = d := (hbinds.keeps.classes c' hc').resolve_left hold
      have hnew := Bool.eq_false_iff.2 hold
      refine ⟨c, x, ⟨⟨name, heritage, ms, hss, (Moves.grows hend).find hbinds.found⟩, ?_⟩, hbinds.exported,
        ?_, ?_⟩ <;> rw [hbefore]
      · exact hnew
      · exact hbinds.entry_iff hok.shaped h.entries hnew
      · exact fun y hy => hbinds.taken hy
  · exact h.calm hok.shaped (bind_calm hok.shaped hok.isScope hplaced (c.point ambient).manner.ambient
      (c.point ambient).manner.exported hst (fun name heritage ms e => hclass ⟨name, heritage, ms, e⟩) hstatic)

end plain

/-- **Every class of a source has its prototype,** and every prototype entry is that of a class. -/
theorem bound_prototyped (ambient : Bool) (ss : List Statement) : Prototyped ambient ss (bound ambient ss) := by
  refine bound_induct (fun c st hst hss h => h.plain hst hss) (fun c l inner _ h => ?_) ?_
  · have hok := c.point_ok ambient
    cases l with
    | block name => exact h.calm hok.shaped (openNamed_calm hok.shaped hok.isScope _ name)
    | behind _ => exact h
    | global => exact h
  · exact ⟨fun _ hx => absurd (lt_size_of_flag hx) (Nat.not_lt_zero _),
      fun _ hc => absurd (lt_size_of_flag hc) (Nat.not_lt_zero _)⟩

end Externs
