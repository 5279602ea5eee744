import Externs.Proofs.Syntax.Survey

/-!
# Lawful trees

The nodes of a syntax tree obey some laws: which kinds are kinds of tokens, where the name of a
declaration is a single token, how the parts of a dotted name stand beside each other. That all
that is made by a grammar is lawful can be seen from its rules, one by one. A node that takes what
stands before it as its first child is lawful when it has got it.

* `Node.Everywhere`: a law for a node and all nodes below it.
* `Node.Lawful`: the laws.
* `Rule.lawful`: what a rule makes is lawful, as far as can be seen from the rule.
* `Made.lawful`: so is all that a grammar of such rules makes.
-/

namespace Externs

namespace Kind

/-- The kinds of tokens and comments. -/
def single : List Kind :=
  [token, comment, identifier, typeIdentifier, propertyIdentifier, privateIdentifier, string, number]

/-- The kinds of tokens that stand on one line. -/
def lineless : List Kind := [identifier, typeIdentifier, propertyIdentifier, privateIdentifier, number]

/-- The names of members. -/
def propertyNames : List Kind := [propertyIdentifier, privateIdentifier, string, number, computedName]

/-- The kinds of the child with a role, where there is a law. -/
def parts : Kind → Role → Kinds
  | function, .name | enumDecl, .name => some [identifier]
  | classDecl, .name | interfaceDecl, .name | typeAlias, .name => some [typeIdentifier]
  | exportSpecifier, .name | exportSpecifier, .newName => some [identifier, string]
  | field, .name | method, .name | enumAssignment, .name => some propertyNames
  | module, .name | namespaceBlock, .name => some [string, identifier, nestedIdentifier]
  | enumDecl, .body => some [enumBody]
  | _, _ => none

/-- The kinds of all children, where there is a law. -/
def contents : Kind → Kinds
  | exportClause => some [token, exportSpecifier]
  | _ => none

end Kind

namespace Node

/-- `P` holds of the node and of all nodes below it. -/
inductive Everywhere (P : Node → Prop) : Node → Prop
  | leaf {kind : Kind} {role : Option Role} {row : Nat} {gap text : String} {missing : Bool}
      (h : P (.leaf kind role row gap text missing)) : Everywhere P (.leaf kind role row gap text missing)
  | branch {kind : Kind} {role : Option Role} {row : Nat} {cs : List Node}
      (h : P (.branch kind role row cs)) (hcs : ∀ c ∈ cs, Everywhere P c) :
      Everywhere P (.branch kind role row cs)

theorem Everywhere.here {P : Node → Prop} {n : Node} (h : n.Everywhere P) : P n := by
  cases h with
  | leaf h => exact h
  | branch h _ => exact h

theorem Everywhere.child {P : Node → Prop} {n c : Node} (h : n.Everywhere P) (hc : c ∈ n.children) :
    c.Everywhere P := by
  cases h with
  | leaf => cases hc
  | branch _ hcs => exact hcs c hc

theorem Everywhere.imp {P Q : Node → Prop} (hpq : ∀ n, P n → Q n) {n : Node} (h : n.Everywhere P) :
    n.Everywhere Q := by
  induction h with
  | leaf h => exact .leaf (hpq _ h)
  | branch h _ ih => exact .branch (hpq _ h) ih

theorem Everywhere.and {P Q : Node → Prop} {n : Node} (hp : n.Everywhere P) (hq : n.Everywhere Q) :
    n.Everywhere fun n => P n ∧ Q n := by
  induction hp with
  | leaf h => exact .leaf ⟨h, hq.here⟩
  | branch h _ ih => exact .branch ⟨h, hq.here⟩ fun c hc => ih c hc (hq.child hc)

mutual

/-- Whether a decidable law holds of a node and of all nodes below it. -/
def everywhere (P : Node → Prop) [DecidablePred P] : (n : Node) → Decidable (n.Everywhere P)
  | leaf kind role row gap text missing =>
    decidable_of_iff (P (leaf kind role row gap text missing)) ⟨.leaf, Everywhere.here⟩
  | branch kind role row cs =>
    match everywhereAll P cs with
    | isTrue hcs => decidable_of_iff (P (branch kind role row cs)) ⟨(.branch · hcs), Everywhere.here⟩
    | isFalse hcs => isFalse fun h => hcs fun _ hc => h.child hc

def everywhereAll (P : Node → Prop) [DecidablePred P] : (ns : List Node) → Decidable (∀ n ∈ ns, n.Everywhere P)
  | [] => isTrue nofun
  | n :: ns =>
    match everywhere P n, everywhereAll P ns with
    | isTrue hn, isTrue hns => isTrue (List.forall_mem_cons.2 ⟨hn, hns⟩)
    | isFalse hn, _ => isFalse fun h => hn (h n List.mem_cons_self)
    | _, isFalse hns => isFalse fun h => hns fun m hm => h m (List.mem_cons_of_mem n hm)

end

instance (P : Node → Prop) [DecidablePred P] (n : Node) : Decidable (n.Everywhere P) := everywhere P n

/-- A tree without faults has none at any of its nodes. -/
theorem faults_eq_nil_iff {n : Node} : n.faults = [] ↔ n.Everywhere (·.isFault = false) := by
  constructor
  · intro h
    match n with
    | leaf kind role row gap text missing =>
      refine .leaf (Bool.eq_false_iff.2 fun hfault => ?_)
      rw [faults, if_pos hfault] at h
      cases h
    | branch kind role row cs =>
      rw [faults, List.append_eq_nil_iff, List.flatMap_eq_nil_iff] at h
      refine .branch (Bool.eq_false_iff.2 fun hfault => ?_) fun c hc => faults_eq_nil_iff.1 (h.2 c hc)
      rw [if_pos hfault] at h
      cases h.1
  · intro h
    induction h with
    | leaf h => rw [faults, h]; rfl
    | branch h _ ih =>
      rw [faults, h, List.flatMap_eq_nil_iff.2 ih]
      rfl

/-- A dot with a name behind it. -/
inductive DotName : List Node → Prop
  | mk {row row' : Nat} {gap gap' text : String} :
      DotName [.leaf .token none row gap "." false, .leaf .propertyIdentifier none row' gap' text false]

/-- The laws for a node with these children. -/
structure LawfulBranch (kind : Kind) (cs : List Node) : Prop where
  composite : kind ∉ Kind.single
  inside : ∀ c ∈ cs, c.isComment = true ∨ kind.contents.Has c.kind
  part : ∀ ρ x, cs.find? (·.role = some ρ) = some x → (kind.parts ρ).Has x.kind
  /-- The mark of accessibility is one word. -/
  mark : kind = .accessibility → ∃ row gap text, cs = [.leaf .token none row gap text false]
  /-- A dotted name has a name before its last dot. -/
  dotted : kind = .nestedIdentifier → ∃ front last, cs.filter (!·.isComment) = front ++ last ∧ DotName last ∧
    front.length ≤ 1 ∧ ∀ b ∈ front, b.kind = .identifier ∨ b.kind = .nestedIdentifier

/-- The laws. -/
def Lawful : Node → Prop
  | .leaf kind role _ gap text _ =>
    Blank gap ∧ (kind = .comment → role = none) ∧ (kind ∈ Kind.lineless → '\n' ∉ text.toList)
  | .branch kind _ _ cs => LawfulBranch kind cs

theorem Lawful.withRole {n : Node} (h : n.Lawful) (hc : n.isComment = false) (r : Role) :
    (n.withRole r).Lawful := by
  cases n with
  | leaf kind role row gap text missing =>
    refine ⟨h.1, fun hk => ?_, h.2.2⟩
    have hne : ¬kind = .comment := of_decide_eq_false hc
    exact absurd hk hne
  | branch => exact h

theorem Everywhere.withRole {n : Node} (h : n.Everywhere Lawful) (hc : n.isComment = false) (r : Role) :
    (n.withRole r).Everywhere Lawful := by
  cases h with
  | leaf h => exact .leaf (Lawful.withRole h hc r)
  | branch h hcs => exact .branch h hcs

end Node

open Node

variable {σ : Type}

namespace Rule

/-- A rule for one fixed token. -/
def isFixed : Rule σ → Bool
  | word _ | mark _ _ => true
  | alt a b => a.isFixed && b.isFixed
  | _ => false

/-- A rule that reads nothing. -/
def isSilent : Rule σ → Bool
  | goesOn _ | lineEnd _ => true
  | _ => false

/-- A dot with a name behind it. -/
def isDotName : Rule σ → Bool
  | seq (mark s _) (name k _) => s = "." && k = .propertyIdentifier
  | _ => false

/-- A rule in which a name comes before anything else with that role. -/
def namesFirst (v : Survey σ) : Rule σ → Bool
  | role .name (name .typeIdentifier _) => true
  | seq a b => a.namesFirst v || ((a.named v .name).within (some []) && b.namesFirst v)
  | _ => false

/-- Whether a node of the kind is lawful with what the rule makes as its children. -/
def makesLawful (v : Survey σ) (kind : Kind) (a : Rule σ) : Bool :=
  !Kind.single.contains kind && kind ≠ .nestedIdentifier && (kind ≠ .accessibility || a.isFixed) &&
    (a.kinds v).within kind.contents &&
    (if kind = .typeAlias then a.namesFirst v else (a.named v .name).within (kind.parts .name)) &&
    [Role.newName, .declaration, .body, .type, .returnType].all fun ρ => (a.named v ρ).within (kind.parts ρ)

/-- The same for a node that has one more child in front, of one of some kinds. -/
def tailMakesLawful (front : Kinds) (kind : Kind) (a : Rule σ) : Bool :=
  !Kind.single.contains kind && kind ≠ .accessibility && kind.contents = none &&
    (kind ≠ .nestedIdentifier || (a.isDotName && front.within (some [.identifier, .nestedIdentifier]))) &&
    [Role.name, .newName, .declaration, .body, .type, .returnType].all fun ρ => kind.parts ρ = none

mutual

/-- Whether all that the rule makes is lawful. -/
def lawful (v : Survey σ) : Rule σ → Bool
  | name k _ => k ≠ .comment
  | lexeme l k | joined l k =>
    k ≠ .comment && (!Kind.lineless.contains k || [Lexeme.name, .privateName, .number].contains l)
  | seq a b | alt a b => a.lawful v && b.lawful v
  | many a | role _ a | lines _ a | item a | whole a => a.lawful v
  | node k a => a.lawful v && a.makesLawful v k
  | fold first tail => first.lawful v && tail.tailLawful v ((first.kinds v).or (tail.kinds v))
  | _ => true

/-- Whether all that the rule makes is lawful with one more child in front, of one of some kinds. -/
def tailLawful (v : Survey σ) (front : Kinds) : Rule σ → Bool
  | seq a b => a.isSilent && b.tailLawful v front
  | alt a b => a.tailLawful v front && b.tailLawful v front
  | node k a => a.lawful v && a.tailMakesLawful front k
  | _ => false

end

end Rule

/-- The first node with a role is behind all comments. -/
theorem find?_dropWhile_isComment {ns : List Node} (h : ∀ n ∈ ns, n.isComment = true → n.role = none) (ρ : Role) :
    (ns.dropWhile Node.isComment).find? (·.role = some ρ) = ns.find? (·.role = some ρ) := by
  induction ns with
  | nil => rfl
  | cons n ns ih =>
    rw [List.dropWhile_cons]
    split
    · rename_i hc
      rw [ih fun m hm => h m (List.mem_cons_of_mem _ hm), List.find?_cons_of_neg]
      simp [h n List.mem_cons_self hc]
    · rfl

theorem filter_skipped {before : List Node} (h : ∀ n ∈ before, n.isComment = true) :
    before.filter (!·.isComment) = [] :=
  List.filter_eq_nil_iff.2 fun n hn => by simp [h n hn]

theorem filter_dropWhile_isComment (ns : List Node) :
    (ns.dropWhile Node.isComment).filter (!·.isComment) = ns.filter (!·.isComment) := by
  have hfront := filter_skipped fun n (hn : n ∈ ns.takeWhile Node.isComment) => List.mem_takeWhile_imp hn
  have hwhole := congrArg (List.filter (!·.isComment)) (ns.takeWhile_append_dropWhile (p := Node.isComment))
  rw [List.filter_append, hfront, List.nil_append] at hwhole
  exact hwhole

theorem graft_nil (tail : List Node) : graft [] tail = tail := rfl

theorem graft_concat (base before : List Node) (b : Node) (kind : Kind) (role : Option Role) (row : Nat)
    (cs : List Node) : graft (base ++ [b]) (before ++ [.branch kind role row cs]) =
      base ++ [.branch kind role b.row (b :: before ++ cs)] := by
  simp only [graft, List.getLast?_append, List.getLast?_singleton, Option.some_or, List.dropLast_concat]

/-- Nodes of which the last is lawful when it has more children in front: one of some kinds, and comments. -/
structure Half (front : Kinds) (ns : List Node) : Prop where
  last : ∃ before kind row cs, ns = before ++ [.branch kind none row cs] ∧
    (∀ n ∈ before, n.isComment = true ∧ n.Everywhere Lawful) ∧ (∀ c ∈ cs, c.Everywhere Lawful) ∧
    ∀ bs : List Node, (bs.filter (!·.isComment)).length ≤ 1 → (∀ b ∈ bs, b.isComment = true ∨ front.Has b.kind) →
      LawfulBranch kind (bs ++ cs)

theorem Half.graft {front : Kinds} {ns ms : List Node} (h : Half front ms) (hns : ∀ n ∈ ns, n.Everywhere Lawful)
    (hkinds : ∀ n ∈ ns, n.isComment = true ∨ front.Has n.kind) : ∀ n ∈ graft ns ms, n.Everywhere Lawful := by
  obtain ⟨before, kind, row, cs, rfl, hbefore, hcs, hbranch⟩ := h
  intro n hn
  rcases List.eq_nil_or_concat ns with rfl | ⟨base, b, rfl⟩
  · rw [graft_nil] at hn
    rcases List.mem_append.1 hn with hn | hn
    · exact (hbefore n hn).2
    · rw [List.mem_singleton.1 hn]
      exact .branch (hbranch [] (Nat.zero_le _) nofun) hcs
  · rw [List.concat_eq_append] at hns hkinds hn
    rw [graft_concat] at hn
    rcases List.mem_append.1 hn with hn | hn
    · exact hns n (List.mem_append_left _ hn)
    · have hb := List.mem_append_right base (List.mem_singleton_self b)
      have hcomments : before.filter (!·.isComment) = [] := filter_skipped fun n hn => (hbefore n hn).1
      rw [List.mem_singleton.1 hn]
      refine .branch (hbranch (b :: before) ?_ fun x hx => ?_) fun c hc => ?_
      · rw [List.filter_cons, hcomments]
        split
        · exact Nat.le_refl 1
        · exact Nat.zero_le 1
      · rcases List.mem_cons.1 hx with rfl | hx
        · exact hkinds x hb
        · exact Or.inl (hbefore x hx).1
      · rcases List.mem_append.1 hc with hc | hc
        · rcases List.mem_cons.1 hc with rfl | hc
          · exact hns c hb
          · exact (hbefore c hc).2
        · exact hcs c hc

/-- A comment is lawful. -/
theorem Node.Skipped.lawful {n : Node} (h : n.Skipped) : n.Everywhere Lawful := by
  cases h with
  | comment hgap => exact .leaf ⟨hgap, fun _ => rfl, fun hk => absurd hk (by decide)⟩

namespace Made

variable {rules : σ → Rule σ} {v : Survey σ} {r : Rule σ} {ns : List Node}

theorem of_isFixed (h : Made rules r ns) (hr : r.isFixed = true) : ∃ before row gap text,
    (∀ n ∈ before, n.Skipped) ∧ ns = before ++ [.leaf .token none row gap text false] := by
  induction h with
  | @token r before kind row gap text h hb _ =>
    cases r with
    | word => cases h.1; exact ⟨before, row, gap, text, hb, rfl⟩
    | mark => cases h.1; exact ⟨before, row, gap, text, hb, rfl⟩
    | alt => exact absurd h id
    | _ => cases hr
  | left _ ih => exact ih (Bool.and_eq_true_iff.1 hr).1
  | right _ ih => exact ih (Bool.and_eq_true_iff.1 hr).2
  | _ => cases hr

theorem of_isSilent (h : Made rules r ns) (hr : r.isSilent = true) : ns = [] := by
  cases h with
  | goesOn | lineEnd => rfl
  | token h => cases r <;> first | exact absurd h id | cases hr
  | _ => cases hr

theorem seq_inv {a b : Rule σ} (h : Made rules (.seq a b) ns) :
    ∃ xs ys, ns = xs ++ ys ∧ Made rules a xs ∧ Made rules b ys := by
  cases h with
  | seq ha hb => exact ⟨_, _, rfl, ha, hb⟩
  | token h => exact absurd h id

theorem of_isDotName (h : Made rules r ns) (hr : r.isDotName = true) : DotName (ns.filter (!·.isComment)) := by
  match r, hr with
  | .seq (.mark s nb) (.name k reserved), hr =>
    obtain ⟨rfl, rfl⟩ : s = "." ∧ k = .propertyIdentifier := by
      simpa only [Rule.isDotName, Bool.and_eq_true, decide_eq_true_eq] using hr
    obtain ⟨xs, ys, hns, hx, hy⟩ := h.seq_inv
    rw [hns, List.filter_append]
    cases hx with
    | token h hb _ =>
      obtain ⟨rfl, rfl⟩ := h
      cases hy with
      | token h hb' _ =>
        obtain ⟨rfl, -⟩ := h
        have hskip : ∀ {before : List Node}, (∀ n ∈ before, n.Skipped) → before.filter (!·.isComment) = [] :=
          fun h => filter_skipped fun n hn => (h n hn).isComment
        rw [List.filter_append, List.filter_append, hskip hb, hskip hb']
        exact .mk

/-- The first name is that of the declaration. -/
theorem of_namesFirst (hv : v.Holds rules) (h : Made rules r ns) (hr : r.namesFirst v = true) :
    ∃ x, ns.find? (·.role = some .name) = some x ∧ x.kind = .typeIdentifier := by
  induction r generalizing ns with
  | role ρ a _ =>
    match ρ, a, hr with
    | .name, .name .typeIdentifier reserved, _ =>
      cases h with
      | token h => exact absurd h id
      | role h =>
        cases h with
        | @token _ before _ row gap text h hb _ =>
          obtain ⟨rfl, -⟩ := h
          have hbefore : (assign .name before).find? (·.role = some .name) = none := by
            refine List.find?_eq_none.2 fun n hn => ?_
            rcases mem_assign hn with ⟨hn, -⟩ | ⟨m, hm, hc, -⟩
            · simp [(hb n hn).role]
            · rw [(hb m hm).isComment] at hc
              cases hc
          refine ⟨.leaf .typeIdentifier (some .name) row gap text false, ?_, rfl⟩
          rw [assign, List.map_append, ← assign, List.find?_append, hbefore]
          rfl
  | seq a b iha ihb =>
    obtain ⟨xs, ys, hns, hx, hy⟩ := h.seq_inv
    rw [hns, List.find?_append]
    rw [Rule.namesFirst, Bool.or_eq_true, Bool.and_eq_true] at hr
    rcases hr with ha | ⟨ha, hb⟩
    · obtain ⟨x, hfind, hkind⟩ := iha hx ha
      exact ⟨x, by rw [hfind, Option.some_or], hkind⟩
    · have hnone : xs.find? (·.role = some .name) = none := by
        refine List.find?_eq_none.2 fun n hn hrole => ?_
        have hkind := (hx.has_named hv n hn (of_decide_eq_true hrole)).within ha
        cases Kinds.has_some.1 hkind
      rw [hnone, Option.none_or]
      exact ihb hy hb
  | _ => cases hr

/-- What a node has as its children is lawful if the rule that makes them tells so. -/
theorem lawfulBranch (hv : v.Holds rules) (h : Made rules r ns) {kind : Kind} (hr : r.makesLawful v kind = true) :
    LawfulBranch kind (ns.dropWhile Node.isComment) := by
  simp only [Rule.makesLawful, Bool.and_eq_true, Bool.or_eq_true, decide_eq_true_eq, List.all_eq_true] at hr
  obtain ⟨⟨⟨⟨⟨hsingle, hdotted⟩, hmark⟩, hinside⟩, hname⟩, hparts⟩ := hr
  have hwithin : ∀ {ρ x}, (r.named v ρ).within (kind.parts ρ) = true →
      ns.find? (·.role = some ρ) = some x → (kind.parts ρ).Has x.kind := by
    intro ρ x hw hx
    have hrole := List.find?_some hx
    exact (h.has_named hv x (List.mem_of_find?_eq_some hx) (of_decide_eq_true hrole)).within hw
  refine ⟨?_, fun c hc => ?_, fun ρ x hx => ?_, fun hk => ?_, fun hk => absurd hk hdotted⟩
  · intro hmem
    rw [List.contains_iff_mem.2 hmem] at hsingle
    cases hsingle
  · exact (h.has_kinds hv c ((List.dropWhile_sublist _).subset hc)).imp_right fun h => h.within hinside
  · rw [find?_dropWhile_isComment h.role_of_isComment] at hx
    cases ρ with
    | name =>
      split at hname
      · rename_i hk
        obtain ⟨y, hy, hkind⟩ := h.of_namesFirst hv hname
        cases hx.symm.trans hy
        rw [hk, hkind]
        exact Kinds.has_some.2 List.mem_cons_self
      · exact hwithin hname hx
    | _ => exact hwithin (hparts _ (by decide)) hx
  · obtain ⟨before, row, gap, text, hb, rfl⟩ := h.of_isFixed (hmark.resolve_left (absurd hk))
    have hcomments : ∀ n ∈ before, n.isComment = true := fun n hn => (hb n hn).isComment
    refine ⟨row, gap, text, ?_⟩
    rw [List.dropWhile_append_of_pos hcomments]
    rfl

/-- A token is lawful if the rule that makes it tells so. -/
theorem lawful_token {kind : Kind} {text : String} (h : r.Spells kind text) (hr : r.lawful v = true) {row : Nat}
    {gap : String} (hgap : Blank gap) : (Node.leaf kind none row gap text false).Lawful := by
  refine ⟨hgap, fun _ => rfl, fun hk => ?_⟩
  have hscan : ∀ {l : Lexeme}, l ∈ [.name, .privateName, .number] → l.Spells text → '\n' ∉ text.toList := by
    rintro l hl ⟨gs, n, hn, rfl⟩
    exact Lexeme.newline_notMem hl hn
  have hlexeme : ∀ {l : Lexeme} {k : Kind}, kind = k → l.Spells text →
      (k ≠ .comment && (!Kind.lineless.contains k || [Lexeme.name, .privateName, .number].contains l)) = true →
      '\n' ∉ text.toList := by
    rintro l _ rfl hl hr
    rw [List.contains_iff_mem.2 hk] at hr
    exact hscan (List.contains_iff_mem.1 (Bool.and_eq_true_iff.1 hr).2) hl
  cases r with
  | word | mark | joinedMark =>
    rw [h.1] at hk
    exact absurd hk (by decide)
  | other =>
    cases h
    exact absurd hk (by decide)
  | name => exact hscan (by decide) h.2
  | lexeme => exact hlexeme h.1 h.2 hr
  | joined => exact hlexeme h.1 h.2 hr
  | _ => exact absurd h id

/-- A node of a tail is lawful once it has got what stands before it. -/
theorem half (h : Made rules r ns) {front : Kinds} {kind : Kind} (hr : r.tailMakesLawful front kind = true)
    (hns : ∀ n ∈ ns, n.Everywhere Lawful) : Half front (enclose kind ns) := by
  simp only [Rule.tailMakesLawful, Bool.and_eq_true, Bool.or_eq_true, decide_eq_true_eq, List.all_eq_true] at hr
  obtain ⟨⟨⟨⟨hsingle, hmark⟩, hinside⟩, hdotted⟩, hparts⟩ := hr
  refine ⟨_, kind, _, _, rfl, fun n hn => ?_, fun c hc => hns c ((List.dropWhile_sublist _).subset hc),
    fun bs hone hbs => ⟨?_, fun c _ => ?_, fun ρ x _ => ?_, fun hk => absurd hk hmark, fun hk => ?_⟩⟩
  · exact ⟨List.mem_takeWhile_imp hn, hns n ((List.takeWhile_sublist _).subset hn)⟩
  · intro hmem
    rw [List.contains_iff_mem.2 hmem] at hsingle
    cases hsingle
  · rw [hinside]
    exact Or.inr nofun
  · have hnone : kind.parts ρ = none := hparts ρ (by cases ρ <;> decide)
    rw [hnone]
    exact nofun
  · obtain ⟨hdot, hfront⟩ := hdotted.resolve_left (absurd hk)
    have hlast : DotName ((ns.dropWhile Node.isComment).filter (!·.isComment)) := by
      rw [filter_dropWhile_isComment]
      exact h.of_isDotName hdot
    refine ⟨bs.filter (!·.isComment), _, List.filter_append .., hlast, hone, fun b hb => ?_⟩
    obtain ⟨hmem, hc⟩ := List.mem_filter.1 hb
    have hhas := (hbs b hmem).resolve_left (by simpa using hc)
    simpa using Kinds.has_some.1 (hhas.within hfront)

/-- **All that a grammar makes is lawful if each of its rules tells so.** -/
theorem lawful (hv : v.Holds rules) (hrules : ∀ s, (rules s).lawful v = true) (h : Made rules r ns) :
    (r.lawful v = true → ∀ n ∈ ns, n.Everywhere Lawful) ∧
      ∀ front, r.tailLawful v front = true → Half front ns := by
  induction h with
  | empty | stop | ahead | never | lineEnd | goesOn => exact ⟨fun _ => nofun, fun _ hr => by cases hr⟩
  | @token r before kind row gap text h hb hg =>
    refine ⟨fun hr n hn => ?_, fun front hr => ?_⟩
    · rcases List.mem_append.1 hn with hn | hn
      · exact (hb n hn).lawful
      · rw [List.mem_singleton.1 hn]
        exact .leaf (lawful_token h hr hg)
    · cases r <;> first | exact absurd h id | cases hr
  | seq ha _ iha ihb =>
    refine ⟨fun hr n hn => ?_, fun front hr => ?_⟩
    · rw [Rule.lawful, Bool.and_eq_true] at hr
      rcases List.mem_append.1 hn with hn | hn
      · exact iha.1 hr.1 n hn
      · exact ihb.1 hr.2 n hn
    · rw [Rule.tailLawful, Bool.and_eq_true] at hr
      rw [ha.of_isSilent hr.1]
      exact ihb.2 front hr.2
  | left _ ih =>
    refine ⟨fun hr => ?_, fun front hr => ?_⟩
    · rw [Rule.lawful, Bool.and_eq_true] at hr
      exact ih.1 hr.1
    · rw [Rule.tailLawful, Bool.and_eq_true] at hr
      exact ih.2 front hr.1
  | right _ ih =>
    refine ⟨fun hr => ?_, fun front hr => ?_⟩
    · rw [Rule.lawful, Bool.and_eq_true] at hr
      exact ih.1 hr.2
    · rw [Rule.tailLawful, Bool.and_eq_true] at hr
      exact ih.2 front hr.2
  | more _ _ iha ihb =>
    refine ⟨fun hr n hn => ?_, fun front hr => by cases hr⟩
    rcases List.mem_append.1 hn with hn | hn
    · exact iha.1 hr n hn
    · exact ihb.1 hr n hn
  | @call s _ _ ih => exact ⟨fun _ => ih.1 (hrules s), fun _ hr => by cases hr⟩
  | node h ih =>
    refine ⟨fun hr n hn => ?_, fun front hr => ?_⟩
    · rw [Rule.lawful, Bool.and_eq_true] at hr
      have hns := ih.1 hr.1
      rcases mem_enclose hn with hn | ⟨_, rfl⟩
      · exact hns n ((List.takeWhile_sublist _).subset hn)
      · exact .branch (h.lawfulBranch hv hr.2) fun c hc => hns c ((List.dropWhile_sublist _).subset hc)
    · rw [Rule.tailLawful, Bool.and_eq_true] at hr
      exact h.half hr.2 (ih.1 hr.1)
  | @role ρ _ _ _ ih =>
    refine ⟨fun hr n hn => ?_, fun _ hr => by cases hr⟩
    rcases mem_assign hn with ⟨hn, -⟩ | ⟨m, hm, hc, rfl⟩
    · exact ih.1 hr n hn
    · exact (ih.1 hr m hm).withRole hc ρ
  | first _ ih =>
    refine ⟨fun hr => ?_, fun _ hr => by cases hr⟩
    rw [Rule.lawful, Bool.and_eq_true] at hr
    exact ih.1 hr.1
  | tail h _ ih iht =>
    refine ⟨fun hr => ?_, fun _ hr => by cases hr⟩
    have hns := ih.1 hr
    rw [Rule.lawful, Bool.and_eq_true] at hr
    exact (iht.2 _ hr.2).graft hns (h.has_kinds hv)
  | lines _ ih | item _ ih | whole _ ih => exact ⟨ih.1, fun _ hr => by cases hr⟩
  | endOfSource hb => exact ⟨fun _ n hn => (hb n hn).lawful, fun _ hr => by cases hr⟩

end Made

end Externs
