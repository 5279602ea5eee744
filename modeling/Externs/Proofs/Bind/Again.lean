import Externs.Proofs.Bind.Runs

/-!
# Declaring a name again

A name that was declared once may be declared again in the same way, and a module opened
again, wherever binding has got to since. The second time finds all that the first time
made, and changes nothing.

* `Keeps`: no edit takes away a flag or an export.
* `KnownAs`: what a declaration leaves behind.
* `KnownAs.declare_eq`: declaring the name again leaves the graph as it is.
* `openNamed_again`: so does opening the modules of a name again.
* `addHeritage_bindMembers`: heritage and members may be entered in either order.
-/

namespace Externs

theorem Flags.union_single_of_has {fs : Flags} {k : Flag} (h : fs.has k) : fs.union (.single k) = fs := by
  have hmask : fs.mask ||| BitVec.twoPow 12 k.index = fs.mask := by
    ext i hi
    rw [BitVec.getElem_or, BitVec.getElem_twoPow]
    by_cases hk : i = k.index
    · have hbit : fs.mask[i] = true := by rw [← BitVec.getLsbD_eq_getElem, hk]; exact h
      rw [hbit, Bool.true_or]
    · rw [decide_eq_false hk, Bool.or_false]
  rw [union, single, hmask]

theorem Table.insertNew_of_some {t : Table} {key : String} {x : Id} (h : t.find? key = some x) (d : Id) :
    t.insertNew key d = t := by
  rw [insertNew, h]

namespace Graph

variable {g g' : Graph}

theorem ext_nodes {g g' : Graph} (hroots : g.roots = g'.roots) (h : ∀ i : Nat, g.nodes[i]? = g'.nodes[i]?) :
    g = g' := by
  obtain ⟨nodes, roots⟩ := g
  obtain ⟨nodes', roots'⟩ := g'
  cases hroots
  cases Array.ext_getElem? h
  rfl

/-- A change that changes nothing where it is made. -/
theorem modify_eq_self {d : Id} {f : Declaration → Declaration} (h : f (g.decl d) = g.decl d) :
    g.modify d f = g := by
  refine ext_nodes rfl fun i => ?_
  rw [modify, Array.getElem?_modify]
  split
  · rename_i hi
    subst hi
    cases hd : g.nodes[d]? with
    | none => rfl
    | some x =>
      have hx : g.decl d = x := by rw [decl, hd]; rfl
      rw [hx] at h
      exact congrArg some h
  · rfl

theorem modify_modify (d : Id) (f h : Declaration → Declaration) :
    (g.modify d f).modify d h = g.modify d fun x => h (f x) := by
  refine ext_nodes rfl fun i => ?_
  simp only [modify, Array.getElem?_modify]
  split
  · rw [Option.map_map]
    rfl
  · rfl

/-- Changes of different parts of declarations may be made in either order. -/
theorem modify_comm {f h : Declaration → Declaration} (hfh : ∀ x, h (f x) = f (h x)) (d e : Id) :
    (g.modify d f).modify e h = (g.modify e h).modify d f := by
  refine ext_nodes rfl fun i => ?_
  simp only [modify, Array.getElem?_modify]
  split <;> split <;> first | rfl | skip
  rw [Option.map_map, Option.map_map]
  congr 1
  exact funext hfh

theorem push_modify {d : Id} (hd : d < g.size) (f : Declaration → Declaration) (n : Declaration) :
    ((g.modify d f).push n).1 = (g.push n).1.modify d f := by
  refine ext_nodes rfl fun i => ?_
  simp only [modify, push, Array.getElem?_push, Array.getElem?_modify, Array.size_modify]
  have hne : g.nodes.size ≠ d := Nat.ne_of_gt hd
  split
  · rename_i hi
    rw [if_neg (by omega)]
  · rfl

/-- What an edit leaves as it is: flags stay set, and a key that is taken in the exports stays so. -/
structure Keeps (g g' : Graph) : Prop where
  flag : ∀ {d k}, (g.decl d).flags.has k = true → (g'.decl d).flags.has k = true
  exports : ∀ {m key d}, (g.decl m).exports.find? key = some d → (g'.decl m).exports.find? key = some d

namespace Keeps

theorem refl (g : Graph) : Keeps g g := ⟨id, id⟩

theorem trans {g'' : Graph} (h : Keeps g g') (h' : Keeps g' g'') : Keeps g g'' :=
  ⟨fun hk => h'.flag (h.flag hk), fun hd => h'.exports (h.exports hd)⟩

end Keeps

theorem keeps_modify {f : Declaration → Declaration} (flag : ∀ x k, x.flags.has k → (f x).flags.has k)
    (exports : ∀ x key d, x.exports.find? key = some d → (f x).exports.find? key = some d) (d : Id) :
    Keeps g (g.modify d f) where
  flag {x k} h := by
    rw [decl_modify]
    split
    · rename_i e; exact flag _ _ (e.1 ▸ h)
    · exact h
  exports {x key y} h := by
    rw [decl_modify]
    split
    · rename_i e; exact exports _ _ _ (e.1 ▸ h)
    · exact h

/-- Nothing is known of a declaration that is yet to be made. -/
theorem keeps_push (n : Declaration) : Keeps g (g.push n).1 where
  flag {x k} h := by
    rw [decl_push]
    split
    · rename_i e
      rw [e, g.decl_of_size_le (Nat.le_refl _)] at h
      simp at h
    · exact h
  exports {x key y} h := by
    rw [decl_push]
    split
    · rename_i e
      rw [e, g.decl_of_size_le (Nat.le_refl _)] at h
      cases h
    · exact h

theorem keeps_setLocals (s : Option Id) (t : Table) : Keeps g (g.setLocals s t) := by
  cases s with
  | none => exact ⟨id, id⟩
  | some m => exact keeps_modify (fun _ _ => by exact id) (fun _ _ _ => by exact id) m

theorem keeps_exportAs (s : Option Id) (key : String) (d : Id) : Keeps g (g.exportAs s key d) := by
  cases s with
  | none => exact .refl g
  | some m =>
    exact keeps_modify (fun _ _ => by exact id) (fun _ _ _ h => Table.find?_insertNew_of_some h key d) m

theorem keeps_addMember (owner : Id) (key : String) (d : Id) : Keeps g (g.addMember owner false key d) :=
  keeps_modify (fun _ _ => by exact id) (fun _ _ _ => by exact id) owner

/-- **No edit takes away a flag or an export.** -/
theorem Edit.keeps (h : Edit g g') : Keeps g g' := by
  cases h with
  | @declare s _ key name flag hf =>
    rcases declareLocal_eq (g := g) s key name flag with ⟨d, -, e⟩ | ⟨-, e⟩ <;> rw [e]
    · exact keeps_modify (relabels_flag hf).keeps (fun _ _ _ => by exact id) d
    · exact (keeps_push _).trans (keeps_setLocals s _)
  | exportAs => exact keeps_exportAs _ _ _
  | table => exact keeps_modify (fun _ _ => by exact id) (fun _ _ _ => by exact id) _
  | relabel d hf => exact keeps_modify hf.keeps (fun x _ _ h => by rwa [hf.exports]) d
  | newExport => exact (keeps_push _).trans (keeps_exportAs _ _ _)
  | newMember => exact (keeps_push _).trans (keeps_addMember _ _ _)

theorem Edits.keeps (h : Edits g g') : Keeps g g' := by
  induction h with
  | refl => exact .refl g
  | tail _ h ih => exact ih.trans h.keeps

/-- What is exported under a key after `exportAs`: the old entry if there was one. -/
theorem exportAs_find {m : Id} (hm : m < g.size) (key : String) (d : Id) :
    ((g.exportAs (some m) key d).decl m).exports.find? key =
      some (((g.decl m).exports.find? key).getD d) := by
  rw [exportAs, decl_modify, if_pos ⟨rfl, hm⟩]
  exact Table.find?_insertNew_self _ key d

/-- The name with this key is declared as `d` in the scope, with this flag. If it was exported its key
is taken in the exports. -/
structure KnownAs (g : Graph) (s : Option Id) (key : String) (flag : Flag) (exported : Bool) (d : Id) :
    Prop where
  found : (g.localsOf s).find? key = some d
  flag : (g.decl d).flags.has flag = true
  taken : exported = true → ∀ m, s = some m → ∃ x, (g.decl m).exports.find? key = some x

section

variable {s : Option Id} {key : String} {flag : Flag} {exported : Bool} {d : Id}

theorem KnownAs.edits (h : g.KnownAs s key flag exported d) (he : Edits g g') :
    g'.KnownAs s key flag exported d where
  found := (Edits.grows he).find h.found
  flag := (Edits.keeps he).flag h.flag
  taken hx m hm :=
    let ⟨x, hk⟩ := h.taken hx m hm
    ⟨x, (Edits.keeps he).exports hk⟩

/-- What is declared is known. -/
theorem declare_knownAs (hg : g.Shaped) (hs : g.IsScope s) (key name : String) (hf : flag ≠ .prototype)
    (exported : Bool) :
    (g.declare s key name flag exported).1.KnownAs s key flag exported
      (g.declare s key name flag exported).2 := by
  have hlocal : ((g.declareLocal s key name flag).1.decl
      (g.declareLocal s key name flag).2).flags.has flag = true := by
    rcases declareLocal_eq (g := g) s key name flag with ⟨d, hd, e⟩ | ⟨-, e⟩ <;> rw [e]
    · rw [decl_modify, if_pos ⟨rfl, hg.scoped_lt d (scoped_of_find? hd)⟩]
      simp
    · refine (keeps_setLocals s _).flag ?_
      rw [decl_push, if_pos rfl]
      simp
  refine ⟨declare_find hs key name flag exported, ?_, ?_⟩
  · unfold declare
    cases exported with
    | false => exact hlocal
    | true => exact (keeps_exportAs s key _).flag hlocal
  · rintro rfl m rfl
    -- the module lies in the array, so its exports take the key
    have hlt := ((Edit.declare hs key name hf).grows.isScope hs).lt_size
    have hexport : (g.declare (some m) key name flag true).1 =
        (g.declareLocal (some m) key name flag).1.exportAs (some m) key
          (g.declareLocal (some m) key name flag).2 := rfl
    rw [hexport]
    exact ⟨_, exportAs_find hlt key _⟩

/-- **A name that is declared again in the same way leaves the graph as it is.** -/
theorem KnownAs.declare_eq (h : g.KnownAs s key flag exported d) (name : String) :
    g.declare s key name flag exported = (g, d) := by
  have hlocal : g.declareLocal s key name flag = (g, d) := by
    unfold declareLocal
    rw [h.found]
    have hsame : g.modify d (fun x => { x with flags := x.flags.union (.single flag) }) = g :=
      modify_eq_self (by rw [Flags.union_single_of_has h.flag])
    exact congrArg (·, d) hsame
  unfold declare
  rw [hlocal]
  cases exported with
  | false => rfl
  | true =>
    cases s with
    | none => rfl
    | some m =>
      obtain ⟨x, hx⟩ := h.taken rfl m rfl
      have hsame : g.exportAs (some m) key d = g :=
        modify_eq_self (by rw [Table.insertNew_of_some hx])
      dsimp only
      rw [if_pos rfl, hsame]

theorem openModule_knownAs (hg : g.Shaped) (hs : g.IsScope s) (key name : String) (exported : Bool) :
    (g.openModule s key name exported).1.KnownAs s key .moduleDecl exported
      (g.openModule s key name exported).2 := by
  have hknown := declare_knownAs hg hs key name (show Flag.moduleDecl ≠ .prototype by decide) exported
  exact hknown.edits (.single (.table (declare_declared hs key name .moduleDecl exported)))

/-- A module that is opened again has its table already. -/
theorem KnownAs.openModule_eq (h : g.KnownAs s key .moduleDecl exported d)
    (ht : (g.decl d).locals.isSome) (name : String) : g.openModule s key name exported = (g, d) := by
  have hsame : g.modify d (fun x => { x with locals := some (x.locals.getD .empty) }) = g := by
    obtain ⟨t, ht⟩ := Option.isSome_iff_exists.1 ht
    refine modify_eq_self ?_
    rw [ht, Option.getD_some, ← ht]
  unfold openModule
  rw [h.declare_eq name]
  exact congrArg (·, d) hsame

end

section

variable {s : Option Id} (hg : g.Shaped) (hs : g.IsScope s) (exported : Bool)

include hg hs

theorem openModule_again (key name : String) (h : Edits (g.openModule s key name exported).1 g') :
    g'.openModule s key name exported = (g', (g.openModule s key name exported).2) := by
  have hknown := (openModule_knownAs hg hs key name exported).edits h
  have hscope := (Edits.grows h).isScope (openModule_isScope hg hs key name exported)
  exact hknown.openModule_eq hscope.1 name

theorem openModules_again (segments : List String) (h : Edits (g.openModules s exported segments).1 g') :
    g'.openModules s exported segments = (g', (g.openModules s exported segments).2) := by
  induction segments generalizing g s exported with
  | nil => rfl
  | cons segment rest ih =>
    have hopen := openModule_edits hs segment segment exported
    have hg₁ := Edits.shaped hopen hg
    have hs₁ := openModule_isScope hg hs segment segment exported
    have hrest : Edits _ _ := openNamed_edits hg₁ ⟨_, true⟩ hs₁ true (.dotted rest)
    have hsame := openModule_again hg hs exported segment segment (hrest.trans h)
    rw [openModules, hsame]
    exact ih hg₁ hs₁ true h

/-- **Opening the modules of a name again leaves the graph as it is.** -/
theorem openNamed_again (name : ModuleName) (h : Edits (g.openNamed s exported name).1 g') :
    g'.openNamed s exported name = (g', (g.openNamed s exported name).2) := by
  cases name with
  | quoted name =>
    have hsame := openModule_again hg hs exported ("\"" ++ name ++ "\"") name h
    rw [openNamed, hsame]
    rfl
  | dotted segments => exact openModules_again hg hs exported segments h

end

/-- An entry that is there already is not made again. -/
theorem addExport_again {owner x : Id} {name : String} (h : (g.decl owner).exports.find? name = some x)
    (flag : Flag) : g.addExport owner name flag = g := by
  rw [addExport, h]

theorem addHeritage_addHeritage (d : Id) (names more : List String) (s : Option Id) :
    (g.addHeritage d names s).addHeritage d more s = g.addHeritage d (names ++ more) s := by
  unfold addHeritage
  rw [modify_modify]
  simp only [List.map_append, List.append_assoc]

theorem size_le_bindMember (owner : Id) (s : Option Id) (m : Member) :
    g.size ≤ (g.bindMember owner s m).size := by
  unfold bindMember
  cases m.key? with
  | none => exact Nat.le_refl _
  | some key =>
    dsimp only
    split
    · simp [giveType]
    · simp [giveType, addMember]

/-- Heritage and a member may be entered in either order. -/
theorem addHeritage_bindMember {d : Id} (hd : d < g.size) (names : List String) (s : Option Id)
    (owner : Id) (scope : Option Id) (m : Member) :
    (g.bindMember owner scope m).addHeritage d names s =
      (g.addHeritage d names s).bindMember owner scope m := by
  have htable : (g.addHeritage d names s).memberTable owner m.isStatic = g.memberTable owner m.isStatic := by
    unfold memberTable
    split
    · exact part_modify (·.exports) (fun _ => by rfl) d owner
    · exact part_modify (·.members) (fun _ => by rfl) d owner
  unfold bindMember
  rw [htable]
  cases m.key? with
  | none => rfl
  | some key =>
    dsimp only
    cases (g.memberTable owner m.isStatic).find? key with
    | some x =>
      simp only [giveType, addHeritage]
      rw [modify_comm (fun _ => by rfl) x d, modify_comm (fun _ => by rfl) x d]
    | none =>
      set n : Declaration := { name := key, flags := .single m.sort.flag, accessibility := m.accessibility,
                               isStatic := m.isStatic, parent := some owner }
      set t := m.type.map (TypeExpr.toRef scope)
      have hsize : (g.addHeritage d names s).size = g.size := size_modify _ _
      calc ((((g.push n).1.addMember owner m.isStatic key g.size).giveType g.size t).addHeritage d names s)
          = (((g.push n).1.addMember owner m.isStatic key g.size).addHeritage d names s).giveType g.size t :=
            modify_comm (fun _ => by rfl) g.size d
        _ = (((g.push n).1.addHeritage d names s).addMember owner m.isStatic key g.size).giveType g.size t :=
            congrArg (giveType · g.size t) (modify_comm (fun x => by split <;> rfl) owner d)
        _ = ((((g.addHeritage d names s).push n).1.addMember owner m.isStatic key
              (g.addHeritage d names s).size).giveType (g.addHeritage d names s).size t) := by
            rw [hsize]
            exact congrArg (fun g' => (g'.addMember owner m.isStatic key g.size).giveType g.size t)
              (push_modify hd _ n).symm

theorem addHeritage_bindMembers {d : Id} (hd : d < g.size) (names : List String) (s : Option Id)
    (owner : Id) (scope : Option Id) (ms : List Member) :
    (g.bindMembers owner scope ms).addHeritage d names s =
      (g.addHeritage d names s).bindMembers owner scope ms := by
  unfold bindMembers
  induction ms generalizing g with
  | nil => rfl
  | cons m ms ih =>
    have hd' := Nat.lt_of_lt_of_le hd (size_le_bindMember owner scope m)
    rw [List.foldl_cons, List.foldl_cons, ih hd', addHeritage_bindMember hd]

end Graph

end Externs
