import Externs.Proofs.Syntax.Made

/-!
# What a grammar makes

What a rule makes at its top can be told from the rule, given what the symbols of the
grammar make. So it is settled once for a grammar of which kinds the nodes are, and which
of them have a role.

* `Survey`: the kinds of nodes that the symbols of a grammar make.
* `Rule.kinds`, `Rule.named`: the kinds of nodes that a rule makes, and of those with a role.
* `Survey.Holds`: the rules of the grammar make no other nodes.
* `Made.has_kinds`, `Made.has_named`: so no other nodes are made.
-/

namespace Externs

/-- Some kinds, none standing for all of them. -/
abbrev Kinds : Type := Option (List Kind)

namespace Kinds

def or (a b : Kinds) : Kinds := a.bind fun ks => b.map (ks ++ ·)

/-- Whether all kinds of the first are among the second. -/
def within (a b : Kinds) : Bool :=
  match a, b with
  | _, none => true
  | none, some _ => false
  | some ks, some ls => ks.all ls.contains

/-- The kind is one of these. -/
def Has (a : Kinds) (k : Kind) : Prop := ∀ ks, a = some ks → k ∈ ks

variable {a b : Kinds} {k : Kind}

theorem has_some {ks : List Kind} : Has (some ks) k ↔ k ∈ ks :=
  ⟨fun h => h ks rfl, fun h _ hks => Option.some.inj hks ▸ h⟩

theorem Has.or_left (h : a.Has k) (b : Kinds) : (a.or b).Has k := by
  intro ks hks
  obtain ⟨as, rfl, hbs⟩ := Option.bind_eq_some_iff.1 hks
  obtain ⟨bs, -, rfl⟩ := Option.map_eq_some_iff.1 hbs
  exact List.mem_append_left bs (h as rfl)

theorem Has.or_right (h : b.Has k) (a : Kinds) : (a.or b).Has k := by
  intro ks hks
  obtain ⟨as, rfl, hbs⟩ := Option.bind_eq_some_iff.1 hks
  obtain ⟨bs, rfl, rfl⟩ := Option.map_eq_some_iff.1 hbs
  exact List.mem_append_right as (h bs rfl)

theorem Has.within (h : a.Has k) (hab : a.within b = true) : b.Has k := by
  rintro ls rfl
  cases a with
  | none => cases hab
  | some ks => exact List.contains_iff_mem.1 (List.all_eq_true.1 hab k (h ks rfl))

end Kinds

/-- What the symbols of a grammar make: the kinds of their nodes, and of those with a role. -/
structure Survey (σ : Type) where
  kinds : σ → Kinds
  named : Role → σ → Kinds

variable {σ : Type}

namespace Rule

/-- The kinds of the nodes that a rule makes, comments aside. -/
def kinds (v : Survey σ) : Rule σ → Kinds
  | empty | ahead _ | never _ | lineEnd _ | goesOn _ | endOfSource => some []
  | word _ | mark _ _ | joinedMark _ | other _ => some [.token]
  | name k _ | lexeme _ k | joined _ k | node k _ => some [k]
  | seq a b | alt a b | fold a b => (a.kinds v).or (b.kinds v)
  | many a | role _ a | lines _ a | item a | whole a => a.kinds v
  | call s => v.kinds s

/-- The kinds of the nodes with a role that a rule makes. -/
def named (v : Survey σ) (ρ : Role) : Rule σ → Kinds
  | role r a => if r = ρ then a.kinds v else some []
  | seq a b | alt a b | fold a b => (a.named v ρ).or (b.named v ρ)
  | many a | lines _ a | item a | whole a => a.named v ρ
  | call s => v.named ρ s
  | _ => some []

end Rule

/-- The rules of the symbols make what the survey tells. -/
structure Survey.Holds (v : Survey σ) (rules : σ → Rule σ) : Prop where
  kinds : ∀ s, ((rules s).kinds v).within (v.kinds s) = true
  named : ∀ ρ s, ((rules s).named v ρ).within (v.named ρ s) = true

theorem Node.Skipped.isComment {n : Node} (h : n.Skipped) : n.isComment = true := by
  cases h
  rfl

theorem Node.Skipped.role {n : Node} (h : n.Skipped) : n.role = none := by
  cases h
  rfl

theorem Node.kind_withRole (r : Role) (n : Node) : (n.withRole r).kind = n.kind := by cases n <;> rfl

theorem Node.role_withRole (r : Role) (n : Node) : (n.withRole r).role = some r := by cases n <;> rfl

theorem mem_enclose {kind : Kind} {ns : List Node} {n : Node} (h : n ∈ enclose kind ns) :
    n ∈ ns.takeWhile Node.isComment ∨ ∃ row, n = .branch kind none row (ns.dropWhile Node.isComment) := by
  rcases List.mem_append.1 h with h | h
  · exact Or.inl h
  · exact Or.inr ⟨_, List.mem_singleton.1 h⟩

theorem mem_assign {r : Role} {ns : List Node} {n : Node} (h : n ∈ assign r ns) :
    (n ∈ ns ∧ n.isComment = true) ∨ ∃ m ∈ ns, m.isComment = false ∧ n = m.withRole r := by
  obtain ⟨m, hm, rfl⟩ := List.mem_map.1 h
  cases hc : m.isComment with
  | true => exact Or.inl ⟨hm, hc⟩
  | false => exact Or.inr ⟨m, hm, hc, rfl⟩

/-- What is grafted is the last node of the tail, with the last node of the base in front of what is in it. -/
theorem mem_graft {base tail : List Node} {n : Node} (h : n ∈ graft base tail) :
    n ∈ base ∨ n ∈ tail ∨ ∃ b ∈ base, ∃ kind role row cs, .branch kind role row cs ∈ tail ∧
      n = .branch kind role b.row (b :: tail.dropLast ++ cs) := by
  unfold graft at h
  split at h
  · rename_i b kind role row cs hb htail
    rcases List.mem_append.1 h with h | h
    · exact Or.inl ((List.dropLast_sublist base).subset h)
    · refine Or.inr (Or.inr ⟨b, List.mem_of_getLast? hb, kind, role, row, cs, List.mem_of_getLast? htail, ?_⟩)
      exact List.mem_singleton.1 h
  · rcases List.mem_append.1 h with h | h
    · exact Or.inl h
    · exact Or.inr (Or.inl h)

namespace Made

variable {rules : σ → Rule σ} {v : Survey σ} {r : Rule σ} {ns : List Node}

/-- Comments have no role. -/
theorem role_of_isComment (h : Made rules r ns) : ∀ n ∈ ns, n.isComment = true → n.role = none := by
  induction h with
  | empty | stop | ahead | never | lineEnd | goesOn => nofun
  | token _ hb _ =>
    intro n hn _
    rcases List.mem_append.1 hn with hn | hn
    · exact (hb n hn).role
    · rw [List.mem_singleton.1 hn]; rfl
  | seq _ _ iha ihb | more _ _ iha ihb =>
    intro n hn hc
    rcases List.mem_append.1 hn with hn | hn
    · exact iha n hn hc
    · exact ihb n hn hc
  | left _ ih | right _ ih | call _ ih | first _ ih | lines _ ih | item _ ih | whole _ ih => exact ih
  | node _ ih =>
    intro n hn hc
    rcases mem_enclose hn with hn | ⟨_, rfl⟩
    · exact ih n ((List.takeWhile_sublist _).subset hn) hc
    · rfl
  | role _ ih =>
    intro n hn hc
    rcases mem_assign hn with ⟨hn, -⟩ | ⟨m, -, hm, rfl⟩
    · exact ih n hn hc
    · rw [Node.isComment, Node.kind_withRole] at hc
      rw [Node.isComment, hc] at hm
      cases hm
  | tail _ _ ih iht =>
    intro n hn hc
    rcases mem_graft hn with hn | hn | ⟨b, -, kind, role, row, cs, hmem, rfl⟩
    · exact ih n hn hc
    · exact iht n hn hc
    · have hrole := iht _ hmem hc
      exact hrole
  | endOfSource hb => exact fun n hn _ => (hb n hn).role

/-- **A rule makes nodes of its kinds, and comments.** -/
theorem has_kinds (hv : v.Holds rules) (h : Made rules r ns) :
    ∀ n ∈ ns, n.isComment = true ∨ (r.kinds v).Has n.kind := by
  induction h with
  | empty | stop | ahead | never | lineEnd | goesOn => nofun
  | @token r _ kind _ _ _ h hb _ =>
    intro n hn
    rcases List.mem_append.1 hn with hn | hn
    · exact Or.inl (hb n hn).isComment
    · refine Or.inr ?_
      rw [List.mem_singleton.1 hn]
      have hkind : r.kinds v = some [kind] := by
        cases r <;> first | exact absurd h id | (cases h.1; rfl) | (cases h; rfl)
      rw [hkind]
      exact Kinds.has_some.2 List.mem_cons_self
  | seq _ _ iha ihb =>
    intro n hn
    rcases List.mem_append.1 hn with hn | hn
    · exact (iha n hn).imp_right fun h => h.or_left _
    · exact (ihb n hn).imp_right fun h => h.or_right _
  | more _ _ iha ihb =>
    intro n hn
    rcases List.mem_append.1 hn with hn | hn
    · exact iha n hn
    · exact ihb n hn
  | left _ ih => exact fun n hn => (ih n hn).imp_right fun h => h.or_left _
  | right _ ih => exact fun n hn => (ih n hn).imp_right fun h => h.or_right _
  | @call s _ _ ih => exact fun n hn => (ih n hn).imp_right fun h => h.within (hv.kinds s)
  | first _ ih => exact fun n hn => (ih n hn).imp_right fun h => h.or_left _
  | lines _ ih | item _ ih | whole _ ih => exact ih
  | node _ ih =>
    intro n hn
    rcases mem_enclose hn with hn | ⟨_, rfl⟩
    · exact Or.inl (List.mem_takeWhile_imp hn)
    · exact Or.inr (Kinds.has_some.2 List.mem_cons_self)
  | role _ ih =>
    intro n hn
    rcases mem_assign hn with ⟨-, hc⟩ | ⟨m, hm, hc, rfl⟩
    · exact Or.inl hc
    · rw [Node.kind_withRole]
      refine Or.inr ((ih m hm).resolve_left ?_)
      rw [hc]
      exact Bool.false_ne_true
  | tail _ _ ih iht =>
    intro n hn
    rcases mem_graft hn with hn | hn | ⟨b, -, kind, role, row, cs, hmem, rfl⟩
    · exact ih n hn
    · exact (iht n hn).imp_right fun h => h.or_right _
    · exact (iht _ hmem).imp_right fun h => h.or_right _
  | endOfSource hb => exact fun n hn => Or.inl (hb n hn).isComment

/-- **A rule gives a role to nodes of its kinds for that role.** -/
theorem has_named (hv : v.Holds rules) (h : Made rules r ns) {ρ : Role} :
    ∀ n ∈ ns, n.role = some ρ → (r.named v ρ).Has n.kind := by
  induction h with
  | empty | stop | ahead | never | lineEnd | goesOn => nofun
  | token _ hb _ =>
    intro n hn hρ
    rcases List.mem_append.1 hn with hn | hn
    · rw [(hb n hn).role] at hρ; cases hρ
    · rw [List.mem_singleton.1 hn] at hρ; cases hρ
  | seq _ _ iha ihb =>
    intro n hn hρ
    rcases List.mem_append.1 hn with hn | hn
    · exact (iha n hn hρ).or_left _
    · exact (ihb n hn hρ).or_right _
  | more _ _ iha ihb =>
    intro n hn hρ
    rcases List.mem_append.1 hn with hn | hn
    · exact iha n hn hρ
    · exact ihb n hn hρ
  | left _ ih | first _ ih => exact fun n hn hρ => (ih n hn hρ).or_left _
  | right _ ih => exact fun n hn hρ => (ih n hn hρ).or_right _
  | @call s _ _ ih => exact fun n hn hρ => (ih n hn hρ).within (hv.named ρ s)
  | lines _ ih | item _ ih | whole _ ih => exact ih
  | @node _ _ ns h ih =>
    intro n hn hρ
    rcases mem_enclose hn with hn | ⟨_, rfl⟩
    · have hrole := h.role_of_isComment n ((List.takeWhile_sublist _).subset hn) (List.mem_takeWhile_imp hn)
      rw [hrole] at hρ
      cases hρ
    · cases hρ
  | @role r a ns h _ =>
    intro n hn hρ
    rcases mem_assign hn with ⟨hn, hc⟩ | ⟨m, hm, hc, rfl⟩
    · rw [h.role_of_isComment n hn hc] at hρ
      cases hρ
    · rw [Node.role_withRole] at hρ
      cases hρ
      rw [Node.kind_withRole, Rule.named, if_pos rfl]
      refine (h.has_kinds hv m hm).resolve_left ?_
      rw [hc]
      exact Bool.false_ne_true
  | tail _ _ ih iht =>
    intro n hn hρ
    rcases mem_graft hn with hn | hn | ⟨b, -, kind, role, row, cs, hmem, rfl⟩
    · exact ih n hn hρ
    · exact (iht n hn hρ).or_right _
    · exact (iht _ hmem hρ).or_right _
  | endOfSource hb =>
    intro n hn hρ
    rw [(hb n hn).role] at hρ
    cases hρ

end Made

end Externs
