import Externs.Proofs.Bind.Exports

/-!
# Where flags come from

Binding adds flags to declarations and takes none away. Each flag is added for a reason: a name is
declared with it, a member is entered, an export is made that is nothing but a name, or a module
goes by another name. So of each thing that binding does it is known which flags it may add.

* `FlagsFrom`: where the flags of a graph come from that another one does not have.
* `flagsFrom_declare`, `flagsFrom_bindMember` and the like: this for each thing that binding does.
-/

namespace Externs

namespace Graph

variable {g g' g'' : Graph} {A : Id → Flag → Prop}

/-- The flags of `g'` are those of `g`, and such as `A` allows. -/
def FlagsFrom (A : Id → Flag → Prop) (g g' : Graph) : Prop :=
  ∀ x f, (g'.decl x).flags.has f = true → (g.decl x).flags.has f = true ∨ A x f

theorem FlagsFrom.trans_same (h : FlagsFrom A g g') (h' : ∀ x, (g''.decl x).flags = (g'.decl x).flags) :
    FlagsFrom A g g'' :=
  fun x f hf => h x f (h' x ▸ hf)

theorem flagsFrom_of_same (h : ∀ x, (g'.decl x).flags = (g.decl x).flags) : FlagsFrom A g g' :=
  fun x _ hf => Or.inl (h x ▸ hf)

theorem flagsFrom_modify {φ : Declaration → Declaration} {k : Flag}
    (hφ : ∀ y, (φ y).flags = y.flags.union (.single k)) (d : Id) :
    FlagsFrom (fun x f => x = d ∧ f = k) g (g.modify d φ) := by
  intro x f hf
  rw [decl_modify] at hf
  split at hf
  · rename_i e
    rw [hφ, Flags.has_union, Flags.has_single, Bool.or_eq_true, decide_eq_true_eq] at hf
    rw [e.1]
    exact hf.imp_right fun hk => ⟨rfl, hk.symm⟩
  · exact Or.inl hf

theorem flagsFrom_push {n : Declaration} {k : Flag} (hn : n.flags = .single k) :
    FlagsFrom (fun x f => x = g.size ∧ f = k) g (g.push n).1 := by
  intro x f hf
  rw [decl_push] at hf
  split at hf
  · rename_i e
    rw [hn, Flags.has_single, decide_eq_true_eq] at hf
    exact Or.inr ⟨e, hf.symm⟩
  · exact Or.inl hf

theorem flags_exportAs (s : Option Id) (key : String) (d x : Id) :
    ((g.exportAs s key d).decl x).flags = (g.decl x).flags := by
  cases s with
  | none => rfl
  | some m => exact part_modify (·.flags) (fun _ => by rfl) m x

theorem flags_setLocals (s : Option Id) (t : Table) (x : Id) :
    ((g.setLocals s t).decl x).flags = (g.decl x).flags := by
  cases s with
  | none => rfl
  | some m => exact part_modify (·.flags) (fun _ => by rfl) m x

/-- What is declared gets the flag of its declaration. -/
theorem flagsFrom_declare (s : Option Id) (key name : String) (k : Flag) (exported : Bool) :
    FlagsFrom (fun x f => x = (g.declare s key name k exported).2 ∧ f = k) g
      (g.declare s key name k exported).1 := by
  have hlocal : FlagsFrom (fun x f => x = (g.declareLocal s key name k).2 ∧ f = k) g
      (g.declareLocal s key name k).1 := by
    rcases declareLocal_eq (g := g) s key name k with ⟨d, -, e⟩ | ⟨-, e⟩ <;> rw [e]
    · exact flagsFrom_modify (fun _ => by rfl) d
    · exact (flagsFrom_push rfl).trans_same (flags_setLocals s _)
  unfold declare
  cases exported with
  | false => exact hlocal
  | true => exact hlocal.trans_same (flags_exportAs s key _)

/-- A member that is new, or met again, gets its flag. -/
theorem flagsFrom_bindMember (d : Id) (s : Option Id) (m : Member) :
    FlagsFrom (fun x f => (x = g.size ∨ ∃ key, m.key? = some key ∧
      (g.memberTable d m.isStatic).find? key = some x) ∧ f = m.sort.flag) g (g.bindMember d s m) := by
  have typed : ∀ {g' : Graph} (x : Id) (t : Option TypeRef) (y : Id),
      ((g'.giveType x t).decl y).flags = (g'.decl y).flags :=
    fun x _ y => part_modify (·.flags) (fun _ => by rfl) x y
  unfold bindMember
  cases m.key? with
  | none => exact flagsFrom_of_same fun _ => rfl
  | some key =>
    dsimp only
    split
    · rename_i x hx
      intro y f hf
      rw [typed] at hf
      refine (flagsFrom_modify (fun _ => by rfl) x y f hf).imp_right ?_
      rintro ⟨rfl, rfl⟩
      exact ⟨Or.inr ⟨key, rfl, hx⟩, rfl⟩
    · intro y f hf
      have hadd : ∀ {g' : Graph} (x : Id), ((g'.addMember d m.isStatic key x).decl y).flags = (g'.decl y).flags :=
        fun x => part_modify (·.flags) (fun _ => by split <;> rfl) d y
      rw [typed, hadd] at hf
      refine (flagsFrom_push rfl y f hf).imp_right ?_
      rintro ⟨rfl, rfl⟩
      exact ⟨Or.inl rfl, rfl⟩

theorem flagsFrom_addExport (d : Id) (name : String) (k : Flag) :
    FlagsFrom (fun x f => x = g.size ∧ f = k) g (g.addExport d name k) := by
  unfold addExport
  split
  · exact flagsFrom_of_same fun _ => rfl
  · exact (flagsFrom_push rfl).trans_same (flags_exportAs _ _ _)

theorem flagsFrom_bindExportName (scope : Scope) (e : String × Option String) :
    FlagsFrom (fun x f => x = g.size ∧ f = .aliasName) g (g.bindExportName scope e) := by
  unfold bindExportName
  split
  · split
    · exact flagsFrom_of_same (flags_exportAs _ _ _)
    · split
      · exact flagsFrom_of_same fun _ => rfl
      · exact (flagsFrom_push rfl).trans_same (flags_exportAs _ _ _)
  · exact flagsFrom_of_same fun _ => rfl

theorem flagsFrom_bindExportAssign (scope : Scope) (target : String) :
    FlagsFrom (fun x f => scope.owner = some x ∧ f = .aliasName) g (g.bindExportAssign scope target) := by
  unfold bindExportAssign
  cases scope.owner with
  | none => exact flagsFrom_of_same fun _ => rfl
  | some m =>
    intro x f hf
    exact (flagsFrom_modify (fun _ => by rfl) m x f hf).imp_right fun ⟨hx, hk⟩ => ⟨congrArg some hx.symm, hk⟩

end Graph

end Externs
