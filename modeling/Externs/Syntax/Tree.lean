/-!
# Syntax trees

A syntax tree keeps every token of the source and what stands in front of it, so
that the source can be read off its leaves. Comments are leaves among the others: a
comment belongs to the smallest node that has tokens on both sides of it.

* `Node.leaves`, `Node.text`: the tokens of a node, and the source between its ends.
* `Node.parts`, `Node.part?`: the children other than fixed tokens, and the one with a role.
* `Node.faults`: the faulty nodes in preorder; `Node.firstFault?` finds the first one.
-/

namespace Externs

/-- What a node is. Constructs in which nothing can be declared share a kind. -/
inductive Kind where
  /-- A word or mark with a fixed spelling. -/
  | token
  | comment
  /-- What could not be read. -/
  | fault
  | program
  | block
  -- Statements
  | ambient
  | exportStatement
  | exportClause
  | exportSpecifier
  | expressionStatement
  | module
  | namespaceBlock
  | variableList
  | declarator
  | function
  | classDecl
  | interfaceDecl
  | enumDecl
  | typeAlias
  | importAlias
  | statement
  -- Parts of declarations
  | classHeritage
  | extendsClause
  | implementsClause
  | classBody
  | interfaceBody
  | enumBody
  | enumAssignment
  | field
  | method
  | member
  | accessibility
  | parameters
  -- Types
  | ascription
  | genericType
  | arrayType
  | parenthesizedType
  | readonlyType
  | type
  | typeArguments
  | typeParameters
  -- Names and expressions
  | identifier
  | typeIdentifier
  | propertyIdentifier
  | privateIdentifier
  | computedName
  | nestedIdentifier
  | nestedTypeIdentifier
  | memberAccess
  | string
  | number
  | pattern
  | expression
  deriving DecidableEq, Repr

/-- What a child is to its parent, where the kind does not say it. -/
inductive Role where
  | name
  | newName
  | declaration
  | body
  | type
  | returnType
  deriving DecidableEq, Repr

/-- `row` counts the line ends before the node. -/
inductive Node where
  /-- A token, with the blanks in front of it; `missing` if the source lacks it. -/
  | leaf (kind : Kind) (role : Option Role) (row : Nat) (gap text : String) (missing : Bool)
  | branch (kind : Kind) (role : Option Role) (row : Nat) (children : List Node)
  deriving Repr

namespace Node

def kind : Node → Kind
  | leaf k _ _ _ _ _ => k
  | branch k _ _ _ => k

def role : Node → Option Role
  | leaf _ r _ _ _ _ => r
  | branch _ r _ _ => r

def row : Node → Nat
  | leaf _ _ n _ _ _ => n
  | branch _ _ n _ => n

def children : Node → List Node
  | leaf .. => []
  | branch _ _ _ cs => cs

def withRole (r : Role) : Node → Node
  | leaf k _ n g t m => leaf k (some r) n g t m
  | branch k _ n cs => branch k (some r) n cs

def isMissing : Node → Bool
  | leaf _ _ _ _ _ m => m
  | branch .. => false

def isComment (n : Node) : Bool := n.kind = .comment

mutual

/-- Whether two trees are equal. -/
def decEq : (a b : Node) → Decidable (a = b)
  | leaf k r n g t m, leaf k' r' n' g' t' m' =>
    decidable_of_iff ((k = k' ∧ r = r' ∧ n = n') ∧ g = g' ∧ t = t' ∧ m = m') (by simp [and_assoc])
  | branch k r n cs, branch k' r' n' cs' =>
    match decEqAll cs cs' with
    | isTrue h => decidable_of_iff (k = k' ∧ r = r' ∧ n = n') (by simp [h])
    | isFalse h => isFalse (by simp [h])
  | leaf .., branch .. => isFalse nofun
  | branch .., leaf .. => isFalse nofun

def decEqAll : (ns ms : List Node) → Decidable (ns = ms)
  | [], [] => isTrue rfl
  | [], _ :: _ => isFalse nofun
  | _ :: _, [] => isFalse nofun
  | n :: ns, m :: ms =>
    match decEq n m, decEqAll ns ms with
    | isTrue h, isTrue h' => isTrue (by rw [h, h'])
    | isFalse h, _ => isFalse fun e => h (List.cons.inj e).1
    | _, isFalse h' => isFalse fun e => h' (List.cons.inj e).2

end

instance : DecidableEq Node := decEq

/-- The tokens of a node, each with the blanks in front of it. -/
def leaves : Node → List (String × String)
  | leaf _ _ _ g t _ => [(g, t)]
  | branch _ _ _ cs => cs.flatMap leaves

/-- The source from the first token of the node to its last one. -/
def text (n : Node) : String :=
  match n.leaves with
  | [] => ""
  | (_, t) :: rest => t ++ String.join (rest.map fun l => l.1 ++ l.2)

/-- The children that are not fixed tokens; comments are among them. -/
def parts (n : Node) : List Node := n.children.filter (·.kind ≠ .token)

/-- The first child that has a role. -/
def part? (n : Node) (r : Role) : Option Node := n.children.find? (·.role = some r)

/-- Whether a fixed token of this spelling is a child of the node. -/
def hasToken (n : Node) (spelling : String) : Bool :=
  n.children.any fun c => c.kind = .token && c.text = spelling

def isFault (n : Node) : Bool := n.kind = .fault || n.isMissing

/-- The faulty nodes in preorder. -/
def faults : Node → List Node
  | n@(leaf ..) => if n.isFault then [n] else []
  | n@(branch _ _ _ cs) => (if n.isFault then [n] else []) ++ cs.flatMap faults

mutual

/-- The number of nodes, the node itself included. -/
def count : Node → Nat
  | leaf .. => 1
  | branch _ _ _ cs => 1 + countAll cs

/-- The number of nodes of several trees. -/
def countAll : List Node → Nat
  | [] => 0
  | n :: ns => n.count + countAll ns

end

theorem count_eq (n : Node) : n.count = 1 + countAll n.children := by
  cases n <;> simp [count, countAll, children]

theorem countAll_append (ns ms : List Node) : countAll (ns ++ ms) = countAll ns + countAll ms := by
  induction ns with
  | nil => simp [countAll]
  | cons n ns ih => rw [List.cons_append, countAll, countAll, ih, Nat.add_assoc]

theorem countAll_reverse (ns : List Node) : countAll ns.reverse = countAll ns := by
  induction ns with
  | nil => rfl
  | cons n ns ih =>
    rw [List.reverse_cons, countAll_append, ih]
    simp only [countAll]
    omega

/-- The first faulty node among those on a stack and below them. The top of the stack is its
end, so the children of a node go there from the last one to the first. -/
def firstFaultFrom (stack : Array Node) : Option Node :=
  match _ : stack.back? with
  | none => none
  | some n => if n.isFault then some n else firstFaultFrom (stack.pop ++ n.children.reverse)
termination_by countAll stack.toList
decreasing_by
  obtain ⟨rest, rfl⟩ := Array.back?_eq_some_iff.1 ‹stack.back? = some n›
  have := count_eq n
  rw [Array.pop_push, Array.toList_appendList, Array.toList_push, countAll_append, countAll_append,
    countAll_reverse]
  simp only [countAll]
  omega

/-- The first faulty node of a tree. -/
def firstFault? (n : Node) : Option Node := firstFaultFrom #[n]

/-- The line, counted from one, at which a tree is at fault: that of its first faulty node,
or its own if it has none. -/
def faultLine (n : Node) : Nat := ((n.firstFault?.map row).getD n.row) + 1

end Node

end Externs
