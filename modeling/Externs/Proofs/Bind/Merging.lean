import Externs.Proofs.Bind.Exports
import Externs.Proofs.Bind.Facts

/-!
# Merging

Declarations of one name in one scope are merged. The graph of a source shows all that the
source says, and little else: what stands in a scope has no flags but those that are said of it,
apart from the flag of a static member of the same name, and a member has just those that are
said of it. Each thing that binding does enters the facts that belong to it, so a statement enters
what it says, and the statements of a source all that the source says.

* `Graph.Bears`: a graph shows what a fact says.
* `Graph.Explained`: what there is in a graph is said.
* `Graph.Enters`: what leads from one graph to another enters some facts and nothing else.
* `Graph.bind_enters`, `Point.run_enters`: a statement, or a block of them, enters what it says.
* `bound_bears`, `bound_explained`: the graph of a source shows what the source says.
-/

namespace Externs

open Statement

/-- An entry that is put into one of several tables is an old one or the new one. -/
theorem Table.find?_of_insertNew_if {α : Type} [DecidableEq α] {a b : α} {t : Table} {key k : String} {d x : Id}
    (h : (if a = b then t.insertNew key d else t).find? k = some x) :
    t.find? k = some x ∨ a = b ∧ k = key ∧ x = d := by
  split at h
  · rename_i hab
    rw [find?_insertNew, Option.or_eq_some_iff] at h
    rcases h with h | ⟨-, h⟩
    · exact Or.inl h
    · split at h
      · rename_i hk
        exact Or.inr ⟨hab, hk, (Option.some.inj h).symm⟩
      · cases h
  · exact Or.inl h

namespace Graph

variable {g g' g'' : Graph} {s : Option Id} {p : List String} {F : List Fact} {d : Id} {f : Flag}

/-- The graph shows what the fact says. -/
def Bears (g : Graph) : Fact → Prop
  | .declared p f => ∃ d, g.Leads none p (some d) ∧ (g.decl d).flags.has f = true
  | .member p key f =>
    ∃ d x, g.Leads none p (some d) ∧ (g.decl d).members.find? key = some x ∧ (g.decl x).flags.has f = true
  | .static p key f =>
    ∃ d x, g.Leads none p (some d) ∧ (g.decl d).exports.find? key = some x ∧ (g.decl x).flags.has f = true

/-- What stands in a scope or among the members of a class is said by some of the facts, and so are
its flags. A static member may add its flag to what it shares its name with. -/
structure Explained (F : List Fact) (g : Graph) : Prop where
  locals : ∀ {s key d}, (g.localsOf s).find? key = some d → ∃ p, g.Leads none p s ∧
    (∃ f, .declared (p ++ [key]) f ∈ F) ∧
    ∀ f, (g.decl d).flags.has f = true → .declared (p ++ [key]) f ∈ F ∨ .static p key f ∈ F
  members : ∀ {m key x}, (g.decl m).members.find? key = some x → ∃ p, g.Leads none p (some m) ∧
    (∃ f, .member p key f ∈ F) ∧ ∀ f, (g.decl x).flags.has f = true → .member p key f ∈ F

/-- From `g` to `g'` just the facts are entered. -/
structure Enters (new : List Fact) (g g' : Graph) : Prop where
  edits : Edits g g'
  bears : ∀ x ∈ new, g'.Bears x
  explained : ∀ {F}, new ⊆ F → g.Explained F → g'.Explained F

/-- A path leads to a scope of a graph that binding may come by. -/
structure OnPath (g : Graph) (p : List String) (s : Option Id) : Prop where
  shaped : g.Shaped
  placed : g.Placed
  leads : g.Leads none p s

theorem OnPath.edits (h : g.OnPath p s) (he : Edits g g') : g'.OnPath p s :=
  ⟨Edits.shaped he h.shaped, Edits.placed he h.shaped h.placed, h.leads.grows (Edits.grows he)⟩

/-- What a path leads to is declared. -/
theorem Leads.declared (h : g.Leads none p (some d)) : g.Declared d := by
  rcases List.eq_nil_or_concat p with rfl | ⟨p, key, rfl⟩
  · cases h
  · rw [List.concat_eq_append] at h
    obtain ⟨s, _, -, hd, ⟨⟩⟩ := leads_snoc_iff.1 h
    exact ⟨s, key, hd⟩

/-- No edit takes a member away. -/
theorem Edit.members (h : Edit g g') (hg : g.Shaped) {m x : Id} {key : String}
    (hx : (g.decl m).members.find? key = some x) : (g'.decl m).members.find? key = some x := by
  have same : ∀ {d : Id} {φ : Declaration → Declaration}, (∀ y, (φ y).members = y.members) →
      ((g.modify d φ).decl m).members.find? key = some x := by
    intro d φ hφ
    have hsame : ((g.modify d φ).decl m).members = (g.decl m).members := part_modify (·.members) hφ d m
    rwa [hsame]
  cases h with
  | @declare s hs key name flag _ =>
    rcases declareLocal_eq (g := g) s key name flag with ⟨d, -, e⟩ | ⟨-, e⟩ <;> rw [e]
    · exact same fun _ => rfl
    · have hset := tableAt_setLocals ((grows_push (n := { name, flags := .single flag, parent := s }) rfl).isScope hs)
        ((g.localsOf s).insertNew key g.size) (.members m)
      rw [if_neg (by simp), tableAt_push rfl rfl rfl] at hset
      have hsame : ((Graph.setLocals _ s _).decl m).members = (g.decl m).members := hset
      rwa [hsame]
  | @exportAs s key d _ =>
    cases s with
    | none => exact hx
    | some _ => exact same fun _ => rfl
  | table => exact same fun _ => rfl
  | relabel _ hf => exact same hf.members
  | @newExport owner _ n hn key _ =>
    have hpush := tableAt_push (g := g) hn.exports hn.members hn.locals (.members m)
    have hsame : (((g.push n).1.exportAs (some owner) key g.size).decl m).members = (g.decl m).members :=
      (part_modify (·.members) (fun _ => by rfl) owner m).trans hpush
    rwa [hsame]
  | @newMember owner ho n hn _ key _ =>
    have hlt : owner < (g.push n).1.size := Nat.lt_trans (hg.scoped_lt _ ho.scoped) (lt_size_push n)
    have hadd := tableAt_addMember hlt key g.size (.members m)
    rw [tableAt_push hn.exports hn.members hn.locals] at hadd
    have htable : (((g.push n).1.addMember owner false key g.size).decl m).members = _ := hadd
    rw [htable]
    split
    · exact Table.find?_insertNew_of_some hx key g.size
    · exact hx

theorem Edits.members (h : Edits g g') (hg : g.Shaped) {m x : Id} {key : String}
    (hx : (g.decl m).members.find? key = some x) : (g'.decl m).members.find? key = some x := by
  induction h with
  | refl => exact hx
  | tail hs h ih => exact h.members (Edits.shaped hs hg) ih

/-- What a graph bears out it bears out from then on. -/
theorem Bears.edits {x : Fact} (h : g.Bears x) (hg : g.Shaped) (he : Edits g g') : g'.Bears x := by
  have hgrows := Edits.grows he
  have hkeeps := Edits.keeps he
  cases x with
  | declared p f =>
    obtain ⟨d, hd, hf⟩ := h
    exact ⟨d, hd.grows hgrows, hkeeps.flag hf⟩
  | member p key f =>
    obtain ⟨d, x, hd, hx, hf⟩ := h
    exact ⟨d, x, hd.grows hgrows, Edits.members he hg hx, hkeeps.flag hf⟩
  | static p key f =>
    obtain ⟨d, x, hd, hx, hf⟩ := h
    exact ⟨d, x, hd.grows hgrows, hkeeps.exports hx, hkeeps.flag hf⟩

namespace Enters

variable {new more : List Fact}

theorem refl (g : Graph) : Enters [] g g := ⟨.refl, nofun, fun _ h => h⟩

theorem trans (h : Enters new g g') (h' : Enters more g' g'') (hg : g.Shaped) : Enters (new ++ more) g g'' where
  edits := h.edits.trans h'.edits
  bears x hx := by
    rcases List.mem_append.1 hx with hx | hx
    · exact (h.bears x hx).edits (Edits.shaped h.edits hg) h'.edits
    · exact h'.bears x hx
  explained hF hE :=
    h'.explained (fun _ hx => hF (List.mem_append_right _ hx))
      (h.explained (fun _ hx => hF (List.mem_append_left _ hx)) hE)

/-- What is entered one by one, each time with its own facts, as long as `P` holds. -/
theorem foldl {α : Type} {φ : Graph → α → Graph} {facts : α → List Fact} {P : Graph → Prop}
    (hP : ∀ {g g'}, Edits g g' → P g → P g') (shaped : ∀ g, P g → g.Shaped)
    (hφ : ∀ g a, P g → Enters (facts a) g (φ g a)) (l : List α) (h : P g) :
    Enters (l.flatMap facts) g (l.foldl φ g) := by
  induction l generalizing g with
  | nil => exact refl g
  | cons a l ih =>
    have ha := hφ g a h
    exact ha.trans (ih (hP ha.edits h)) (shaped g h)

/-- What enters nothing one by one enters nothing. -/
theorem foldl_nil {α : Type} {φ : Graph → α → Graph} {P : Graph → Prop}
    (hP : ∀ {g g'}, Edits g g' → P g → P g') (shaped : ∀ g, P g → g.Shaped)
    (hφ : ∀ g a, P g → Enters [] g (φ g a)) (l : List α) (h : P g) : Enters [] g (l.foldl φ g) := by
  have hall := foldl hP shaped hφ l h
  have hnil : (l.flatMap fun _ => ([] : List Fact)) = [] := by simp
  rwa [hnil] at hall

end Enters

/-- Declarations and members that stay as they are, and keep their flags, stay explained. -/
theorem Explained.of_same (h : g.Explained F) (hg : g.Shaped) (hgrows : Grows g g')
    (locals : ∀ s, g'.localsOf s = g.localsOf s) (members : ∀ m, (g'.decl m).members = (g.decl m).members)
    (flags : ∀ x < g.size, (g'.decl x).flags = (g.decl x).flags) : g'.Explained F where
  locals {s key d} hd := by
    rw [locals] at hd
    obtain ⟨p, hp, hsaid, hflags⟩ := h.locals hd
    rw [flags d (hg.scoped_lt d (scoped_of_find? hd))]
    exact ⟨p, hp.grows hgrows, hsaid, hflags⟩
  members {m key x} hx := by
    rw [members] at hx
    obtain ⟨p, hp, hsaid, hflags⟩ := h.members hx
    rw [flags x (Shaped.lt_size_of_parent (hg.members m x (Table.mem_ids_of_find? hx)).1)]
    exact ⟨p, hp.grows hgrows, hsaid, hflags⟩

/-- Nothing is entered that is a declaration or a member. -/
theorem enters_nil (hg : g.Shaped) (he : Edits g g') (locals : ∀ s, g'.localsOf s = g.localsOf s)
    (members : ∀ m, (g'.decl m).members = (g.decl m).members)
    (flags : ∀ x < g.size, (g'.decl x).flags = (g.decl x).flags) : Enters [] g g' :=
  ⟨he, nofun, fun _ h => h.of_same hg (Edits.grows he) locals members flags⟩

/-- A change of a declaration that adds a flag, and leaves its tables as they are. -/
structure Marks (f : Flag) (φ : Declaration → Declaration) : Prop where
  members : ∀ x, (φ x).members = x.members
  locals : ∀ x, (φ x).locals = x.locals
  flags : ∀ x, (φ x).flags = x.flags.union (.single f)

/-- A flag that is said of what it is added to, as a declaration or as a member. -/
theorem Explained.mark (h : g.Explained F) (hg : g.Shaped) (hp : g.Placed) {φ : Declaration → Declaration}
    (hφ : Marks f φ) (d : Id)
    (hlocal : ∀ {s key}, (g.localsOf s).find? key = some d →
      ∃ p, g.Leads none p s ∧ (.declared (p ++ [key]) f ∈ F ∨ .static p key f ∈ F))
    (hmember : ∀ {m key}, (g.decl m).members.find? key = some d →
      ∃ p, g.Leads none p (some m) ∧ .member p key f ∈ F) : (g.modify d φ).Explained F := by
  have hgrows : Grows g (g.modify d φ) := grows_modify (fun x => Or.inl (hφ.locals x)) d
  have hflags : ∀ x k, ((g.modify d φ).decl x).flags.has k = true →
      (g.decl x).flags.has k = true ∨ x = d ∧ k = f := by
    intro x k hk
    rw [decl_modify] at hk
    split at hk
    · rename_i e
      rw [hφ.flags, Flags.has_union, Flags.has_single, Bool.or_eq_true, decide_eq_true_eq] at hk
      rw [e.1]
      exact hk.imp_right fun e => ⟨rfl, e.symm⟩
    · exact Or.inl hk
  constructor
  · intro s key x hx
    rw [localsOf_modify fun y => by rw [hφ.locals]] at hx
    obtain ⟨p, hpath, hsaid, hold⟩ := h.locals hx
    refine ⟨p, hpath.grows hgrows, hsaid, fun k hk => ?_⟩
    rcases hflags x k hk with hk | ⟨rfl, rfl⟩
    · exact hold k hk
    · obtain ⟨q, hq, hsaid⟩ := hlocal hx
      rwa [hpath.path_unique hg hp hq]
  · intro m key x hx
    have hsame : ((g.modify d φ).decl m).members = (g.decl m).members := part_modify (·.members) hφ.members d m
    rw [hsame] at hx
    obtain ⟨p, hpath, hsaid, hold⟩ := h.members hx
    refine ⟨p, hpath.grows hgrows, hsaid, fun k hk => ?_⟩
    rcases hflags x k hk with hk | ⟨rfl, rfl⟩
    · exact hold k hk
    · obtain ⟨q, hq, hsaid⟩ := hmember hx
      rwa [hpath.path_unique hg hp hq]

theorem marks_flag (f : Flag) : Marks f fun x => { x with flags := x.flags.union (.single f) } :=
  ⟨fun _ => rfl, fun _ => rfl, fun _ => rfl⟩

/-- What stands in a scope is no member. -/
theorem Shaped.not_member_of_find? (hg : g.Shaped) {key key' : String} {m : Id}
    (h : (g.localsOf s).find? key = some d) : (g.decl m).members.find? key' ≠ some d := fun hm =>
  (hg.members m d (Table.mem_ids_of_find? hm)).2.1 (scoped_of_find? h)

/-- A name that is declared in a scope is explained by what is said of its path. -/
theorem Explained.declareLocal (h : g.Explained F) (hs : g.IsScope s) (hp : g.OnPath p s) {key : String}
    (name : String) (hf : f ≠ .prototype) (hF : .declared (p ++ [key]) f ∈ F) :
    (g.declareLocal s key name f).1.Explained F := by
  have hgrows : Grows g (g.declareLocal s key name f).1 := (Edit.declare hs key name hf).grows
  rcases declareLocal_eq (g := g) s key name f with ⟨d, hd, e⟩ | ⟨hnone, e⟩ <;> rw [e] at hgrows ⊢
  · refine h.mark hp.shaped hp.placed (marks_flag f) d (fun hd' => ?_) fun hm => ?_
    · obtain ⟨rfl, rfl⟩ := hp.placed.local_unique hp.shaped hd hd'
      exact ⟨p, hp.leads, Or.inl hF⟩
    · exact absurd hm (hp.shaped.not_member_of_find? hd)
  · set n : Declaration := { name, flags := .single f, parent := s }
    set t := (g.localsOf s).insertNew key g.size
    have hs' : (g.push n).1.IsScope s := (grows_push rfl).isScope hs
    have hflags : ∀ x, (((g.push n).1.setLocals s t).decl x).flags = ((g.push n).1.decl x).flags := by
      intro x
      cases s with
      | none => rfl
      | some m => exact part_modify (·.flags) (fun _ => by rfl) m x
    have hold : ∀ {x}, x < g.size → (((g.push n).1.setLocals s t).decl x).flags = (g.decl x).flags := by
      intro x hx
      rw [hflags, decl_push, if_neg (Nat.ne_of_lt hx)]
    have hnew : (((g.push n).1.setLocals s t).decl g.size).flags = .single f := by
      rw [hflags, decl_push, if_pos rfl]
    constructor
    · intro s' key' x hx
      have htable : ((g.push n).1.setLocals s t).localsOf s' =
          if s' = s then (g.localsOf s').insertNew key g.size else g.localsOf s' := by
        rw [localsOf_setLocals hs', localsOf_push rfl]
        split
        · rename_i hss
          rw [hss]
        · rfl
      rw [htable] at hx
      rcases Table.find?_of_insertNew_if hx with hx | ⟨rfl, rfl, rfl⟩
      · obtain ⟨q, hq, hsaid, hall⟩ := h.locals hx
        refine ⟨q, hq.grows hgrows, hsaid, fun k hk => hall k ?_⟩
        rwa [hold (hp.shaped.scoped_lt x (scoped_of_find? hx))] at hk
      · refine ⟨p, hp.leads.grows hgrows, ⟨f, hF⟩, fun k hk => ?_⟩
        rw [hnew, Flags.has_single, decide_eq_true_eq] at hk
        exact Or.inl (hk ▸ hF)
    · intro m key' x hx
      have hset := tableAt_setLocals hs' t (.members m)
      rw [if_neg (by simp), tableAt_push rfl rfl rfl] at hset
      have hsame : (((g.push n).1.setLocals s t).decl m).members = (g.decl m).members := hset
      rw [hsame] at hx
      obtain ⟨q, hq, hsaid, hall⟩ := h.members hx
      refine ⟨q, hq.grows hgrows, hsaid, fun k hk => hall k ?_⟩
      rwa [hold (Shaped.lt_size_of_parent (hp.shaped.members m x (Table.mem_ids_of_find? hx)).1)] at hk

theorem enters_exportAs (hg : g.Shaped) {key : String} (h : (g.localsOf s).find? key = some d) :
    Enters [] g (g.exportAs s key d) := by
  refine enters_nil hg (.single (.exportAs h)) (localsOf_exportAs s key d) (fun m => ?_) fun x _ => ?_
  · cases s with
    | none => rfl
    | some m' => exact part_modify (·.members) (fun _ => by rfl) m' m
  · cases s with
    | none => rfl
    | some m' => exact part_modify (·.flags) (fun _ => by rfl) m' x

theorem declare_enters (hs : g.IsScope s) (hp : g.OnPath p s) (key name : String) (hf : f ≠ .prototype)
    (exported : Bool) : Enters [.declared (p ++ [key]) f] g (g.declare s key name f exported).1 := by
  have hlocal : Edit g (g.declareLocal s key name f).1 := .declare hs key name hf
  have hfound := declareLocal_find hs key name f
  have hedits := declare_edits hs key name hf exported
  refine ⟨hedits, fun x hx => ?_, fun hF h => ?_⟩
  · rw [List.mem_singleton] at hx
    subst hx
    have hknown := declare_knownAs hp.shaped hs key name hf exported
    exact ⟨_, leads_snoc_iff.2 ⟨s, _, hp.leads.grows (Edits.grows hedits), hknown.found, rfl⟩, hknown.flag⟩
  · have hdeclared := h.declareLocal hs hp name hf (hF List.mem_cons_self)
    unfold declare
    cases exported with
    | false => exact hdeclared
    | true => exact (enters_exportAs (hlocal.shaped hp.shaped) hfound).explained (List.nil_subset _) hdeclared

/-- A change of a declaration that leaves its tables and flags as they are. -/
theorem enters_relabel (hg : g.Shaped) {φ : Declaration → Declaration} (hφ : Relabels φ)
    (flags : ∀ x, (φ x).flags = x.flags) (d : Id) : Enters [] g (g.modify d φ) :=
  enters_nil hg (.single (.relabel d hφ)) (localsOf_modify (fun x => by rw [hφ.locals]) d)
    (part_modify (·.members) hφ.members d) fun x _ => part_modify (·.flags) flags d x

theorem giveType_enters (hg : g.Shaped) (d : Id) (t : Option TypeRef) : Enters [] g (g.giveType d t) := by
  unfold giveType
  refine enters_relabel hg ?_ (fun _ => ?_) d
  · exact relabels_of_flags (fun _ => rfl) (fun _ => rfl) (fun _ => rfl) (fun _ => rfl) fun _ => rfl
  · rfl

theorem addHeritage_enters (hg : g.Shaped) (d : Id) (names : List String) (s : Option Id) :
    Enters [] g (g.addHeritage d names s) := by
  unfold addHeritage
  refine enters_relabel hg ?_ (fun _ => ?_) d
  · exact relabels_of_flags (fun _ => rfl) (fun _ => rfl) (fun _ => rfl) (fun _ => rfl) fun _ => rfl
  · rfl

/-- A new export that is in no scope. -/
theorem enters_newExport (hg : g.Shaped) {owner : Id} (ho : g.Declared owner) {n : Declaration}
    (hn : Inside owner n) {key : String} (hk : (g.decl owner).exports.find? key = none) :
    Enters [] g ((g.push n).1.exportAs (some owner) key g.size) := by
  refine enters_nil hg (.single (.newExport ho hn hk)) (fun s => ?_) (fun m => ?_) fun x hx => ?_
  · rw [localsOf_exportAs, localsOf_push hn.locals]
  · have hpush := tableAt_push (g := g) hn.exports hn.members hn.locals (.members m)
    exact (part_modify (·.members) (fun _ => by rfl) owner m).trans hpush
  · have hold : ((g.push n).1.decl x).flags = (g.decl x).flags := by rw [decl_push, if_neg (Nat.ne_of_lt hx)]
    exact (part_modify (·.flags) (fun _ => by rfl) owner x).trans hold

theorem addExport_enters (hg : g.Shaped) {owner : Id} (ho : g.Declared owner) (name : String) (flag : Flag) :
    Enters [] g (g.addExport owner name flag) := by
  unfold addExport
  split
  · exact .refl g
  · rename_i hk
    exact enters_newExport hg ho ⟨rfl, rfl, rfl, rfl⟩ hk

theorem bindExportName_enters (hg : g.Shaped) {scope : Scope} (hs : g.IsScope scope.owner)
    (e : String × Option String) : Enters [] g (g.bindExportName scope e) := by
  unfold bindExportName
  split
  · rename_i m d hm hd
    rw [hm] at hd hs
    split
    · exact enters_exportAs hg hd
    · split
      · exact .refl g
      · rename_i hk
        exact enters_newExport hg hs.2 ⟨rfl, rfl, rfl, rfl⟩ hk
  · exact .refl g

/-- The module goes by another name, so it is an alias. -/
theorem bindExportAssign_enters {scope : Scope} (hp : g.OnPath p scope.owner) (target : String) :
    Enters ((Statement.exportAssign target).facts p) g (g.bindExportAssign scope target) := by
  have hedits : Edits g (g.bindExportAssign scope target) := bindExportAssign_edits target
  have hleads := hp.leads
  obtain ⟨owner, ambient⟩ := scope
  rw [Statement.facts]
  cases owner with
  | none =>
    rw [if_pos (hleads.path_unique hp.shaped hp.placed .here)]
    exact .refl g
  | some m =>
    have hne : p ≠ [] := by
      rintro rfl
      cases hleads
    rw [if_neg hne]
    refine ⟨hedits, fun x hx => ?_, fun hF h => ?_⟩
    · rw [List.mem_singleton] at hx
      subst hx
      refine ⟨m, hleads.grows (Edits.grows hedits), ?_⟩
      have hlt : m < g.size := hp.shaped.scoped_lt m hleads.declared.scoped
      rw [bindExportAssign, decl_modify, if_pos ⟨rfl, hlt⟩]
      simp
    · have hmarks : Marks .aliasName fun x : Declaration =>
          { x with aliasTarget := some (strip target), flags := x.flags.union (.single .aliasName) } :=
        ⟨fun _ => rfl, fun _ => rfl, fun _ => rfl⟩
      refine h.mark hp.shaped hp.placed hmarks m (fun hd => ?_) fun hx => ?_
      · rename_i s key
        obtain ⟨p, key', rfl⟩ := (List.eq_nil_or_concat p).resolve_left hne
        rw [List.concat_eq_append] at hleads hF
        obtain ⟨s', _, hs', hd', ⟨⟩⟩ := leads_snoc_iff.1 hleads
        obtain ⟨rfl, rfl⟩ := hp.placed.local_unique hp.shaped hd hd'
        exact ⟨p, hs', Or.inl (hF List.mem_cons_self)⟩
      · obtain ⟨s, key', hd⟩ := hleads.declared
        exact absurd hx (hp.shaped.not_member_of_find? hd)

section member

variable (hp : g.OnPath p (some d)) (hf : f ≠ .prototype) {key : String}

include hp hf

/-- A member that is met again. -/
theorem enters_again {x : Id} (hx : (g.decl d).members.find? key = some x) :
    Enters [.member p key f] g (g.modify x fun y => { y with flags := y.flags.union (.single f) }) := by
  have hedit : Edit g (g.modify x fun y => { y with flags := y.flags.union (.single f) }) :=
    .relabel x (relabels_flag hf)
  have he : g.Entry (.members d) key x := Table.mem_entries_of_find? hx
  refine ⟨.single hedit, fun y hy => ?_, fun hF h => ?_⟩
  · cases List.mem_singleton.1 hy
    refine ⟨d, x, hp.leads.grows hedit.grows, hedit.members hp.shaped hx, ?_⟩
    rw [decl_modify, if_pos ⟨rfl, hp.shaped.lt_size_of_entry he⟩]
    simp
  · refine h.mark hp.shaped hp.placed (marks_flag f) x (fun hl => ?_) fun {m key'} hm => ?_
    · exact absurd hx (hp.shaped.not_member_of_find? hl)
    · have he' : g.Entry (.members m) key' x := Table.mem_entries_of_find? hm
      obtain ⟨-, rfl⟩ := hp.placed.once he he'
      cases (hp.shaped.parent_of_entry he).symm.trans (hp.shaped.parent_of_entry he')
      exact ⟨p, hp.leads, hF List.mem_cons_self⟩

/-- A static member whose name is that of an export of the class. -/
theorem enters_shared {x : Id} (hx : (g.decl d).exports.find? key = some x) :
    Enters [.static p key f] g (g.modify x fun y => { y with flags := y.flags.union (.single f) }) := by
  have hedit : Edit g (g.modify x fun y => { y with flags := y.flags.union (.single f) }) :=
    .relabel x (relabels_flag hf)
  have he : g.Entry (.exports d) key x := Table.mem_entries_of_find? hx
  refine ⟨.single hedit, fun y hy => ?_, fun hF h => ?_⟩
  · cases List.mem_singleton.1 hy
    refine ⟨d, x, hp.leads.grows hedit.grows, hedit.keeps.exports hx, ?_⟩
    rw [decl_modify, if_pos ⟨rfl, hp.shaped.lt_size_of_entry he⟩]
    simp
  · refine h.mark hp.shaped hp.placed (marks_flag f) x (fun hl => ?_) fun {m key'} hm => ?_
    · have hexport := hp.placed.local_of_export hp.shaped hx (scoped_of_find? hl)
      obtain ⟨rfl, rfl⟩ := hp.placed.local_unique hp.shaped hexport hl
      exact ⟨p, hp.leads, Or.inr (hF List.mem_cons_self)⟩
    · have he' : g.Entry (.members m) key' x := Table.mem_entries_of_find? hm
      cases (hp.placed.once he he').1

omit hf in
/-- A new static member. -/
theorem enters_newStatic {n : Declaration} (hn : Inside d n) (hflags : n.flags = .single f)
    (hk : (g.decl d).exports.find? key = none) :
    Enters [.static p key f] g ((g.push n).1.exportAs (some d) key g.size) := by
  have hd : g.Declared d := hp.leads.declared
  have hnew := enters_newExport hp.shaped hd hn hk
  refine ⟨hnew.edits, fun y hy => ?_, fun _ h => hnew.explained (List.nil_subset _) h⟩
  cases List.mem_singleton.1 hy
  have hlt : d < g.size := hp.shaped.scoped_lt d hd.scoped
  have hold : ((g.push n).1.decl d).exports = (g.decl d).exports :=
    tableAt_push hn.exports hn.members hn.locals (.exports d)
  refine ⟨d, g.size, hp.leads.grows (Edits.grows hnew.edits), ?_, ?_⟩
  · rw [exportAs_find (Nat.lt_trans hlt (lt_size_push n)), hold, hk]
    rfl
  · refine (keeps_exportAs _ _ _).flag ?_
    rw [decl_push, if_pos rfl, hflags, Flags.has_single, decide_eq_true rfl]

/-- A new member of a class or interface. -/
theorem enters_newMember {n : Declaration} (hn : Inside d n) (hflags : n.flags = .single f)
    (hk : (g.decl d).members.find? key = none) :
    Enters [.member p key f] g ((g.push n).1.addMember d false key g.size) := by
  have hd : g.Declared d := hp.leads.declared
  have hedit : Edit g ((g.push n).1.addMember d false key g.size) :=
    .newMember hd hn (by rw [hflags, Flags.has_single, decide_eq_false hf]) hk
  have hlt : d < (g.push n).1.size := Nat.lt_trans (hp.shaped.scoped_lt d hd.scoped) (lt_size_push n)
  have htable : ∀ m, (((g.push n).1.addMember d false key g.size).decl m).members =
      if m = d then (g.decl m).members.insertNew key g.size else (g.decl m).members := by
    intro m
    have hadd := tableAt_addMember hlt key g.size (.members m)
    rw [tableAt_push hn.exports hn.members hn.locals] at hadd
    simp only [Spot.members.injEq] at hadd
    exact hadd
  have hflag : ∀ x, (((g.push n).1.addMember d false key g.size).decl x).flags =
      ((g.push n).1.decl x).flags := part_modify (·.flags) (fun _ => by rfl) d
  have hold : ∀ {x}, x < g.size →
      (((g.push n).1.addMember d false key g.size).decl x).flags = (g.decl x).flags := by
    intro x hx
    rw [hflag, decl_push, if_neg (Nat.ne_of_lt hx)]
  have hnew : (((g.push n).1.addMember d false key g.size).decl g.size).flags = .single f := by
    rw [hflag, decl_push, if_pos rfl, hflags]
  refine ⟨.single hedit, fun y hy => ?_, fun hF h => ⟨fun {s key' x} hx => ?_, fun {m key' x} hx => ?_⟩⟩
  · cases List.mem_singleton.1 hy
    refine ⟨d, g.size, hp.leads.grows hedit.grows, ?_, ?_⟩
    · rw [htable, if_pos rfl, Table.find?_insertNew_self, hk]
      rfl
    · rw [hnew, Flags.has_single, decide_eq_true rfl]
  · rw [localsOf_addMember, localsOf_push hn.locals] at hx
    obtain ⟨q, hq, hsaid, hall⟩ := h.locals hx
    refine ⟨q, hq.grows hedit.grows, hsaid, fun k hk => hall k ?_⟩
    rwa [hold (hp.shaped.scoped_lt x (scoped_of_find? hx))] at hk
  · rw [htable] at hx
    rcases Table.find?_of_insertNew_if hx with hx | ⟨rfl, rfl, rfl⟩
    · obtain ⟨q, hq, hsaid, hall⟩ := h.members hx
      refine ⟨q, hq.grows hedit.grows, hsaid, fun k hk => hall k ?_⟩
      rwa [hold (Shaped.lt_size_of_parent (hp.shaped.members m x (Table.mem_ids_of_find? hx)).1)] at hk
    · refine ⟨p, hp.leads.grows hedit.grows, ⟨f, hF List.mem_cons_self⟩, fun k hk => ?_⟩
      rw [hnew, Flags.has_single, decide_eq_true_eq] at hk
      exact hk ▸ hF List.mem_cons_self

end member

/-- The flag of a member is entered with it, or added to what has its key. -/
theorem bindMember_enters (hp : g.OnPath p (some d)) (s : Option Id) (m : Member) :
    Enters (m.fact? p).toList g (g.bindMember d s m) := by
  have hf := m.sort.flag_ne
  -- the type that is given at the end changes nothing of what is entered
  have typed : ∀ {g₁ : Graph} {x : Fact} {t : Option TypeRef} {y : Id}, Enters [x] g g₁ →
      Enters [x] g (g₁.giveType y t) := fun h =>
    h.trans (giveType_enters (Edits.shaped h.edits hp.shaped) _ _) hp.shaped
  unfold bindMember Member.fact?
  cases m.key? with
  | none => exact .refl g
  | some key =>
    simp only [Option.map_some, Option.toList_some]
    cases hstatic : m.isStatic with
    | true =>
      simp only [memberTable, if_true]
      cases hfind : (g.decl d).exports.find? key with
      | some x => exact typed (enters_shared hp hf hfind)
      | none => exact typed (enters_newStatic hp ⟨rfl, rfl, rfl, rfl⟩ rfl hfind)
    | false =>
      simp only [memberTable, if_false, Bool.false_eq_true]
      cases hfind : (g.decl d).members.find? key with
      | some x => exact typed (enters_again hp hf hfind)
      | none => exact typed (enters_newMember hp hf ⟨rfl, rfl, rfl, rfl⟩ rfl hfind)

/-- Heritage and members of a class or interface. -/
theorem bindBody_enters (hp : g.OnPath p (some d)) (names : List String) (s : Option Id) (ms : List Member) :
    Enters (ms.filterMap (Member.fact? p)) g ((g.addHeritage d names s).bindMembers d s ms) := by
  have hher := addHeritage_enters hp.shaped d names s
  have hmembers := Enters.foldl (fun he (h : OnPath _ p (some d)) => h.edits he) (fun _ h => h.shaped)
    (fun _ m h => bindMember_enters h s m) ms (hp.edits hher.edits)
  rw [List.filterMap_eq_flatMap_toList]
  exact hher.trans hmembers hp.shaped

section scope

variable (hs : g.IsScope s) (hp : g.OnPath p s) (exported : Bool)

include hs hp

/-- What is declared lies on the path that goes on with its key. -/
theorem declare_onPath (key name : String) (hf : f ≠ .prototype) :
    (g.declare s key name f exported).1.OnPath (p ++ [key]) (some (g.declare s key name f exported).2) := by
  have hedits := hp.edits (declare_edits hs key name hf exported)
  exact ⟨hedits.shaped, hedits.placed,
    leads_snoc_iff.2 ⟨s, _, hedits.leads, declare_find hs key name f exported, rfl⟩⟩

theorem openModule_enters (key name : String) :
    Enters [.declared (p ++ [key]) .moduleDecl] g (g.openModule s key name exported).1 := by
  have hdeclare := declare_enters hs hp key name (show Flag.moduleDecl ≠ .prototype by decide) exported
  have htable : Edit (g.declare s key name .moduleDecl exported).1 (g.openModule s key name exported).1 :=
    .table (declare_declared hs key name .moduleDecl exported)
  refine hdeclare.trans (enters_nil (Edits.shaped hdeclare.edits hp.shaped) (.single htable) ?_ ?_ ?_) hp.shaped
  · exact localsOf_modify (fun _ => by rfl) _
  · exact part_modify (·.members) (fun _ => by rfl) _
  · exact fun x _ => part_modify (·.flags) (fun _ => by rfl) _ x

theorem openModules_enters (segments : List String) :
    Enters (openedBy p segments) g (g.openModules s exported segments).1 := by
  induction segments generalizing g s p exported with
  | nil => exact .refl g
  | cons segment rest ih =>
    have hopen := openModule_enters hs hp exported segment segment
    have hscope := openModule_isScope hp.shaped hs segment segment exported
    have hat := hp.edits hopen.edits
    have hinner : (g.openModule s segment segment exported).1.OnPath (p ++ [segment])
        (some (g.openModule s segment segment exported).2) :=
      ⟨hat.shaped, hat.placed,
        leads_snoc_iff.2 ⟨s, _, hat.leads, openModule_find hs segment segment exported, rfl⟩⟩
    exact hopen.trans (ih hscope hinner true) hp.shaped

/-- Entering a layer enters what the layer says itself, and leads to the path inside it. -/
theorem enter_enters (w : Manner) (l : Layer) :
    Enters (l.facts p) g (g.enter s w l).1 ∧ (g.enter s w l).1.OnPath (l.path p) (g.enter s w l).2 := by
  have hedits : Edits g (g.enter s w l).1 := Moves.edits (enter_moves hp.shaped hs w l).1
  have hat := hp.edits hedits
  cases l with
  | block name =>
    have hnamed := openNamed_namedAt hp.shaped hs w.exported name
    refine ⟨?_, hat.shaped, hat.placed, hat.leads.append hnamed.leads⟩
    cases name with
    | quoted name => exact openModule_enters hs hp w.exported _ name
    | dotted segments => exact openModules_enters hs hp w.exported segments
  | behind m => exact ⟨.refl g, hp⟩
  | global => exact ⟨.refl g, hp.shaped, hp.placed, .here⟩

theorem bindVariable_enters (ambient : Bool) (v : String × Option TypeExpr) :
    Enters [.declared (p ++ [v.1]) .varDecl] g (g.bindVariable ⟨s, ambient⟩ exported v) := by
  have hf : Flag.varDecl ≠ .prototype := by decide
  have hdeclare := declare_enters hs hp v.1 v.1 hf exported
  exact hdeclare.trans (giveType_enters (Edits.shaped hdeclare.edits hp.shaped) _ _) hp.shaped

/-- **A statement that is no layer enters what it says.** -/
theorem bind_enters (ambient : Bool) {st : Statement} (hst : st.IsPlain) :
    Enters (st.facts p) g (g.bind ⟨s, ambient⟩ exported st) := by
  -- what only declares one name
  have named : ∀ (name : String) {f : Flag}, f ≠ .prototype →
      Enters [.declared (p ++ [name]) f] g (g.declare s name name f exported).1 := fun name _ hf =>
    declare_enters hs hp name name hf exported
  cases st with
  | vars vs =>
    rw [bind, Statement.facts, List.map_eq_flatMap]
    exact Enters.foldl (fun he (h : IsScope _ s ∧ OnPath _ p s) => ⟨(Edits.grows he).isScope h.1, h.2.edits he⟩)
      (fun _ h => h.2.shaped) (fun _ v h => bindVariable_enters h.1 h.2 exported ambient v) vs ⟨hs, hp⟩
  | function name => rw [bind]; exact named name (by decide)
  | classDecl name heritage ms =>
    have hf : Flag.classDecl ≠ .prototype := by decide
    have hd := declare_onPath hs hp exported name name hf
    have hproto := addExport_enters hd.shaped hd.leads.declared "prototype" .prototype
    have hbody := bindBody_enters (hd.edits hproto.edits) heritage s ms
    rw [bind]
    exact (named name hf).trans (hproto.trans hbody hd.shaped) hp.shaped
  | interfaceDecl name heritage ms =>
    have hf : Flag.interfaceDecl ≠ .prototype := by decide
    have hbody := bindBody_enters (declare_onPath hs hp exported name name hf) heritage s ms
    rw [bind]
    exact (named name hf).trans hbody hp.shaped
  | enumDecl name members =>
    have hf : Flag.enumDecl ≠ .prototype := by decide
    have hnames := Enters.foldl_nil (fun he (h : OnPath _ (p ++ [name]) (some _)) => h.edits he)
      (fun _ h => h.shaped) (fun _ n h => addExport_enters h.shaped h.leads.declared n .enumMember)
      (members.filter fun n => !n.isEmpty) (declare_onPath hs hp exported name name hf)
    rw [bind]
    exact (named name hf).trans hnames hp.shaped
  | typeAlias name => rw [bind]; exact named name (by decide)
  | importAlias name target =>
    have hf : Flag.aliasName ≠ .prototype := by decide
    have hd := declare_onPath hs hp exported name name hf
    rw [bind]
    refine (named name hf).trans (enters_relabel hd.shaped ?_ (fun _ => ?_) _) hp.shaped
    · exact relabels_of_flags (fun _ => rfl) (fun _ => rfl) (fun _ => rfl) (fun _ => rfl) fun _ => rfl
    · rfl
  | exportAssign target => rw [bind]; exact bindExportAssign_enters hp target
  | exportNames names =>
    rw [bind]
    exact Enters.foldl_nil
      (fun he (h : IsScope _ s ∧ Shaped _) => ⟨(Edits.grows he).isScope h.1, Edits.shaped he h.2⟩)
      (fun _ h => h.2) (fun _ e h => bindExportName_enters h.2 h.1 e) names ⟨hs, hp.shaped⟩
  | moduleDecl name body => exact absurd rfl (hst (.block name) body)
  | ambient inner => exact absurd rfl (hst (.behind .declared) inner)
  | exported inner => exact absurd rfl (hst (.behind .exported) inner)
  | global body => exact absurd rfl (hst .global body)

end scope

end Graph

open Externs.Graph

/-- **Binding enters what the statements say.** -/
theorem Point.run_enters (q : Point) (hs : q.graph.IsScope q.scope) (hp : q.graph.OnPath p q.scope)
    (ss : List Statement) : Enters (factsAll p ss) q.graph (q.run ss) := by
  match ss with
  | [] =>
    rw [factsAll, Point.run_nil]
    exact .refl q.graph
  | st :: rest =>
    have hst : Enters (st.facts p) q.graph (q.run [st]) := by
      rcases st.isPlain_or_around with hplain | ⟨l, inner, hlayer⟩
      · rw [Point.run, bindIn_singleton _ _ st fun name body => hplain (.block name) body]
        exact bind_enters hs hp q.manner.exported q.manner.ambient hplain
      · have hsmaller : sizeOf inner < sizeOf st := hlayer ▸ l.sizeOf_lt_around inner
        obtain ⟨henter, hinner⟩ := enter_enters hs hp q.manner l
        have hscope := (enter_moves hp.shaped hs q.manner l).2
        rw [hlayer, Point.run_around, Layer.facts_around]
        exact henter.trans (Point.run_enters (q.enter l) hscope hinner inner) hp.shaped
    rw [factsAll, Point.run_cons]
    exact hst.trans (Point.run_enters (q.past [st]) ((Edits.grows hst.edits).isScope hs)
      (hp.edits hst.edits) rest) hp.shaped
termination_by sizeOf ss
decreasing_by all_goals simp only [List.cons.sizeOf_spec]; omega

theorem bound_enters (ambient : Bool) (ss : List Statement) :
    Enters (factsAll [] ss) .empty (bound ambient ss) := by
  rw [bound_eq_run]
  exact Point.run_enters (.start ambient) trivial ⟨shaped_empty, placed_empty, .here⟩ ss

/-- **The graph of a source bears out all that the source says.** -/
theorem bound_bears (ambient : Bool) {ss : List Statement} {x : Fact} (h : x ∈ factsAll [] ss) :
    (bound ambient ss).Bears x :=
  (bound_enters ambient ss).bears x h

/-- **What there is in the graph of a source is said by the source.** -/
theorem bound_explained (ambient : Bool) (ss : List Statement) :
    (bound ambient ss).Explained (factsAll [] ss) := by
  refine (bound_enters ambient ss).explained (List.Subset.refl _) ⟨fun {s key d} h => ?_, fun h => ?_⟩
  · cases s <;> cases h
  · cases h

end Externs
