import Externs.Decl.Graph
import Externs.Syntax.Tree
import Externs.Text.Blank
import Externs.Text.Segments

/-!
# Statements

What a source declares, as far as names go: the statements that bring names into
being, with the types, members and heritage that lead from one to another. All else
that a source says is left out.

* `TypeExpr.ofNode`: the type that a node of the syntax tree writes.
* `Member.ofNode?`: a member of a class or interface.
* `outline`: the statements of a syntax tree.
-/

namespace Externs

/-- A type, as far as names are read through it. -/
inductive TypeExpr where
  | named (name : String)
  | array (element : TypeExpr)
  | other
  deriving DecidableEq, Repr

/-- Accessors are properties to the outside. -/
inductive MemberSort where
  | property
  | method
  deriving DecidableEq, Repr

structure Member where
  /-- The name without quotes; none if it is computed. -/
  name? : Option String
  sort : MemberSort
  isStatic : Bool
  accessibility : Accessibility
  type : Option TypeExpr
  deriving DecidableEq, Repr

inductive ModuleName where
  | quoted (name : String)
  | dotted (segments : List String)
  deriving DecidableEq, Repr

inductive Statement where
  | vars (vars : List (String × Option TypeExpr))
  | function (name : String)
  | classDecl (name : String) (heritage : List String) (members : List Member)
  | interfaceDecl (name : String) (heritage : List String) (members : List Member)
  | enumDecl (name : String) (members : List String)
  | typeAlias (name : String)
  | importAlias (name target : String)
  | moduleDecl (name : ModuleName) (body : List Statement)
  /-- What `declare` stands before. -/
  | ambient (inner : List Statement)
  /-- Statements for the outermost scope. -/
  | global (body : List Statement)
  /-- What `export` stands before. -/
  | exported (inner : List Statement)
  | exportAssign (target : String)
  /-- Names exported each under itself or under another name. -/
  | exportNames (names : List (String × Option String))
  deriving Repr

/-- A name between quotes of one kind loses them. -/
def unquote (s : String) : String :=
  match s.toList with
  | q :: rest =>
    if (q = '"' || q = '\'' || q = '`') && rest.getLast? = some q then String.ofList rest.dropLast else s
  | [] => s

namespace TypeExpr

mutual

/-- Parentheses and `readonly` do not count; of type arguments only the name before them does. -/
def ofNode : Node → TypeExpr
  | n@(.leaf k ..) => if k = .typeIdentifier then named (compact n.text) else other
  | n@(.branch k _ _ cs) =>
    match k with
    | .nestedTypeIdentifier => named (compact n.text)
    | .genericType => (ofName? cs).getD other
    | .arrayType => ((ofFirst? cs).map array).getD other
    | .parenthesizedType => (ofFirst? cs).getD other
    | .readonlyType => (ofFirst? cs).getD other
    | _ => other

/-- The first of some nodes that is not a fixed token; a comment is no type. -/
def ofFirst? : List Node → Option TypeExpr
  | [] => none
  | n :: ns => if n.kind = .token then ofFirst? ns else some (ofNode n)

/-- The node that has the name's role. -/
def ofName? : List Node → Option TypeExpr
  | [] => none
  | n :: ns => if n.role = some .name then some (ofNode n) else ofName? ns

end

/-- The type of a part; an ascription gives the type behind its colon. -/
def ofPart? (n : Node) (r : Role) : Option TypeExpr :=
  (n.part? r).bind fun a => if a.kind = .ascription then ofFirst? a.children else some (ofNode a)

end TypeExpr

namespace Member

def accessibilityOf (member name : Node) : Accessibility :=
  if name.kind = .privateIdentifier then .privateAccess
  else
    let marks := (member.children.filter (·.kind = .accessibility)).map fun n => strip n.text
    match marks.find? fun t => t = "private" || t = "protected" with
    | some t => if t = "private" then .privateAccess else .protectedAccess
    | none => .publicAccess

/-- A method that is marked as an accessor is a property of the type it gives. -/
def ofNode? (n : Node) : Option Member :=
  let isAccessor := n.hasToken "get" || n.hasToken "set"
  let sort := if n.kind = .field || isAccessor then .property else .method
  let type := if n.kind = .field then TypeExpr.ofPart? n .type
    else if isAccessor then TypeExpr.ofPart? n .returnType
    else none
  if n.kind = .field || n.kind = .method then
    (n.part? .name).map fun name =>
      ⟨if name.kind = .computedName then none else some (unquote name.text), sort,
        n.hasToken "static", accessibilityOf n name, type⟩
  else none

end Member

namespace Node

def partText (n : Node) (r : Role) : String := ((n.part? r).map text).getD ""

/-- The names that a heritage clause refers to. -/
def heritageNames (clause : Node) : List String :=
  clause.parts.filterMap fun n =>
    match n.kind with
    | .identifier | .typeIdentifier | .nestedIdentifier | .nestedTypeIdentifier | .memberAccess =>
      some (compact n.text)
    | .genericType =>
      match TypeExpr.ofNode n with
      | .named name => some name
      | _ => none
    | _ => none

/-- The heritage of a class stands one level deeper than that of an interface. -/
def heritage (n : Node) : List String :=
  let clauses := n.children ++ (n.children.filter (·.kind = .classHeritage)).flatMap Node.children
  (clauses.filter (·.kind = .extendsClause)).flatMap heritageNames

def bodyMembers (n : Node) : List Member :=
  match n.part? .body with
  | some body => body.children.filterMap Member.ofNode?
  | none => []

def enumNames (n : Node) : List String :=
  match n.part? .body with
  | none => []
  | some body => body.children.filterMap fun c =>
    match c.kind with
    | .enumAssignment => some (unquote (c.partText .name))
    | .propertyIdentifier | .string => some (unquote c.text)
    | _ => none

/-- Only a plain name is declared by a variable, no pattern. -/
def declared? (n : Node) : Option (String × Option TypeExpr) :=
  if n.kind = .declarator then
    (n.part? .name).bind fun name =>
      if name.kind = .identifier then some (name.text, TypeExpr.ofPart? n .type) else none
  else none

def moduleName? (n : Node) : Option ModuleName :=
  (n.part? .name).map fun name =>
    if name.kind = .string then .quoted (unquote name.text)
    else .dotted ((segments name.text).map strip)

/-- The names of an export clause; a comment among them is no name. -/
def specifiers (n : Node) : List (String × Option String) :=
  (n.children.filter (·.kind = .exportClause)).flatMap fun clause =>
    clause.parts.filterMap fun s => (s.part? .name).map fun name => (name.text, (s.part? .newName).map text)

def importAlias? (n : Node) : Option Statement :=
  match n.parts.filter fun c => c.kind = .identifier || c.kind = .nestedIdentifier with
  | name :: target :: _ =>
    if name.kind = .identifier then some (.importAlias (strip name.text) (compact target.text)) else none
  | _ => none

end Node

/-- A declaration without a name declares nothing. -/
def ifNamed (n : Node) (make : String → Statement) : List Statement :=
  let name := n.partText .name
  if name.isEmpty then [] else [make name]

mutual

/-- What a statement of the syntax tree declares. -/
def outlineOf : Node → List Statement
  | .leaf .. => []
  | n@(.branch kind _ _ cs) =>
    match kind with
    | .ambient => if n.hasToken "global" then [.global (outlineBlocks cs)] else [.ambient (outlineAll cs)]
    | .exportStatement =>
      if n.hasToken "=" then (n.parts.head?.map fun t => Statement.exportAssign t.text).toList
      else if (n.part? .declaration).isSome then [.exported (outlineDeclared cs)]
      else [.exportNames n.specifiers]
    | .module | .namespaceBlock =>
      match n.moduleName? with
      | some name => [.moduleDecl name (outlineBody cs)]
      | none => []
    | .variableList => [.vars (cs.filterMap Node.declared?)]
    | .function => ifNamed n .function
    | .classDecl => ifNamed n (.classDecl · n.heritage n.bodyMembers)
    | .interfaceDecl => ifNamed n (.interfaceDecl · n.heritage n.bodyMembers)
    | .enumDecl => ifNamed n (.enumDecl · n.enumNames)
    | .typeAlias => ifNamed n .typeAlias
    | .importAlias => n.importAlias?.toList
    | _ => []

def outlineAll : List Node → List Statement
  | [] => []
  | n :: ns => outlineOf n ++ outlineAll ns

/-- The statements inside a node. -/
def outlineInside : Node → List Statement
  | .leaf .. => []
  | .branch _ _ _ cs => outlineAll cs

/-- The statements inside the blocks among some nodes. -/
def outlineBlocks : List Node → List Statement
  | [] => []
  | n :: ns => (if n.kind = .block then outlineInside n else []) ++ outlineBlocks ns

/-- The statements inside the body among some nodes. -/
def outlineBody : List Node → List Statement
  | [] => []
  | n :: ns => if n.role = some .body then outlineInside n else outlineBody ns

/-- What the declaration among some nodes declares. -/
def outlineDeclared : List Node → List Statement
  | [] => []
  | n :: ns => if n.role = some .declaration then outlineOf n else outlineDeclared ns

end

/-- The statements of a syntax tree, in source order. -/
def outline (tree : Node) : List Statement := outlineInside tree

end Externs
