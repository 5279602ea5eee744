import Externs.Syntax.Statement

/-!
# Binding

Binding enters the statements of a file into a declaration graph, in source order.
Declarations of one name in one scope are one declaration. A statement is bound in a
scope: a module, or the file itself, which exports nothing.

* `Graph.declare`: a name comes into being in a scope, or is met again.
* `Graph.bindMembers`: the members of a class or interface.
* `Graph.bindAll`: the statements of a block.
* `bound`: the graph of a file.
* `unbound`: the export assignments that have no module to name.
-/

namespace Externs

/-- Where a statement stands: in a module (none: the file), all of whose declarations are
exported if it is ambient. -/
structure Scope where
  owner : Option Id
  ambient : Bool
  deriving DecidableEq, Repr

/-- Statements of a `global` block stand in the file, and are ambient. -/
def Scope.outermost : Scope := ⟨none, true⟩

def TypeExpr.toRef (scope : Option Id) : TypeExpr → TypeRef
  | named name => .named name scope
  | array element => .arrayOf (element.toRef scope) scope
  | other => .nameless scope

/-- The key of a member: its name, unless it is computed, empty or that of the constructor. -/
def Member.key? (m : Member) : Option String :=
  m.name?.filter fun n => !n.isEmpty && n ≠ "constructor"

def MemberSort.flag : MemberSort → Flag
  | property => .property
  | method => .method

namespace Graph

/-- Puts a declaration into the table of a scope. -/
def setLocals (g : Graph) (owner : Option Id) (t : Table) : Graph :=
  match owner with
  | none => { g with roots := t }
  | some m => g.modify m fun x => { x with locals := some t }

/-- Exports a declaration from a module; the file exports nothing. -/
def exportAs (g : Graph) (owner : Option Id) (key : String) (d : Id) : Graph :=
  match owner with
  | none => g
  | some m => g.modify m fun x => { x with exports := x.exports.insertNew key d }

/-- The declaration under a key in a scope, with one more flag; a new one if there is none. -/
def declareLocal (g : Graph) (owner : Option Id) (key name : String) (flag : Flag) : Graph × Id :=
  match (g.localsOf owner).find? key with
  | some d => (g.modify d fun x => { x with flags := x.flags.union (.single flag) }, d)
  | none =>
    let (g, d) := g.push { name, flags := .single flag, parent := owner }
    (g.setLocals owner ((g.localsOf owner).insertNew key d), d)

/-- Declares a name in a scope and exports it if it is an exported one. -/
def declare (g : Graph) (owner : Option Id) (key name : String) (flag : Flag) (exported : Bool) :
    Graph × Id :=
  let (g, d) := g.declareLocal owner key name flag
  (if exported then g.exportAs owner key d else g, d)

/-- The type of a declaration is the first one that is written for it. -/
def giveType (g : Graph) (d : Id) (t : Option TypeRef) : Graph :=
  g.modify d fun x => { x with typeRef := x.typeRef.or t }

def addHeritage (g : Graph) (d : Id) (names : List String) (scope : Option Id) : Graph :=
  g.modify d fun x => { x with heritage := x.heritage ++ names.map fun n => .named n scope }

/-- Static members are exports of their class. -/
def memberTable (g : Graph) (owner : Id) (isStatic : Bool) : Table :=
  if isStatic then (g.decl owner).exports else (g.decl owner).members

def addMember (g : Graph) (owner : Id) (isStatic : Bool) (key : String) (d : Id) : Graph :=
  g.modify owner fun x =>
    if isStatic then { x with exports := x.exports.insertNew key d }
    else { x with members := x.members.insertNew key d }

/-- A member that is met again adds its flag; what it is accessible to stays as first written. -/
def bindMember (g : Graph) (owner : Id) (scope : Option Id) (m : Member) : Graph :=
  match m.key? with
  | none => g
  | some key =>
    let type := m.type.map (TypeExpr.toRef scope)
    match (g.memberTable owner m.isStatic).find? key with
    | some d =>
      (g.modify d fun x => { x with flags := x.flags.union (.single m.sort.flag) }).giveType d type
    | none =>
      let (g, d) := g.push { name := key, flags := .single m.sort.flag, accessibility := m.accessibility,
                             isStatic := m.isStatic, parent := some owner }
      (g.addMember owner m.isStatic key d).giveType d type

def bindMembers (g : Graph) (owner : Id) (scope : Option Id) (ms : List Member) : Graph :=
  ms.foldl (fun g m => g.bindMember owner scope m) g

/-- A new export of a declaration that is nothing but a name under it. -/
def addExport (g : Graph) (owner : Id) (name : String) (flag : Flag) : Graph :=
  match (g.decl owner).exports.find? name with
  | some _ => g
  | none =>
    let (g, d) := g.push { name, flags := .single flag, parent := some owner }
    g.exportAs (some owner) name d

def bindEnumMembers (g : Graph) (owner : Id) (names : List String) : Graph :=
  (names.filter fun n => !n.isEmpty).foldl (fun g n => g.addExport owner n .enumMember) g

def bindVariable (g : Graph) (scope : Scope) (exported : Bool) (v : String × Option TypeExpr) : Graph :=
  let (g, d) := g.declare scope.owner v.1 v.1 .varDecl exported
  g.giveType d (v.2.map (TypeExpr.toRef scope.owner))

/-- A module of its own table, empty at first. -/
def openModule (g : Graph) (owner : Option Id) (key name : String) (exported : Bool) : Graph × Id :=
  let (g, d) := g.declare owner key name .moduleDecl exported
  (g.modify d fun x => { x with locals := some (x.locals.getD .empty) }, d)

/-- Opens the modules of a dotted name inside each other; the inner ones are always exported. -/
def openModules (g : Graph) (owner : Option Id) (exported : Bool) : List String → Graph × Option Id
  | [] => (g, owner)
  | segment :: rest =>
    let (g, d) := g.openModule owner segment segment exported
    openModules g (some d) true rest

/-- Quoted names have keys of their own, apart from all other names. -/
def openNamed (g : Graph) (owner : Option Id) (exported : Bool) : ModuleName → Graph × Option Id
  | .quoted name =>
    let (g, d) := g.openModule owner ("\"" ++ name ++ "\"") name exported
    (g, some d)
  | .dotted segments => g.openModules owner exported segments

/-- Exports what is declared so far under a name, as itself or under another name. -/
def bindExportName (g : Graph) (scope : Scope) (e : String × Option String) : Graph :=
  match scope.owner, (g.localsOf scope.owner).find? e.1 with
  | some m, some d =>
    match e.2.filter fun a => !a.isEmpty && a ≠ e.1 with
    | none => g.exportAs (some m) e.1 d
    | some a =>
      match (g.decl m).exports.find? a with
      | some _ => g
      | none =>
        let (g, d) := g.push { name := a, flags := .single .aliasName,
                               importTarget := some (.named e.1 (some m)), parent := some m }
        g.exportAs (some m) a d
  | _, _ => g

/-- The module goes by the name of what it assigns to its export. -/
def bindExportAssign (g : Graph) (scope : Scope) (target : String) : Graph :=
  match scope.owner with
  | none => g
  | some m => g.modify m fun x =>
    { x with aliasTarget := some (strip target), flags := x.flags.union (.single .aliasName) }

mutual

/-- Enters a statement. -/
def bind (g : Graph) (scope : Scope) (exported : Bool) : Statement → Graph
  | .vars vars => vars.foldl (fun g v => g.bindVariable scope exported v) g
  | .function name => (g.declare scope.owner name name .function exported).1
  | .classDecl name heritage members =>
    let (g, d) := g.declare scope.owner name name .classDecl exported
    ((g.addExport d "prototype" .prototype).addHeritage d heritage scope.owner).bindMembers d scope.owner
      members
  | .interfaceDecl name heritage members =>
    let (g, d) := g.declare scope.owner name name .interfaceDecl exported
    (g.addHeritage d heritage scope.owner).bindMembers d scope.owner members
  | .enumDecl name members =>
    let (g, d) := g.declare scope.owner name name .enumDecl exported
    g.bindEnumMembers d members
  | .typeAlias name => (g.declare scope.owner name name .typeAlias exported).1
  | .importAlias name target =>
    let (g, d) := g.declare scope.owner name name .aliasName exported
    g.modify d fun x => { x with importTarget := some (.named target scope.owner) }
  | .moduleDecl name body =>
    let (g, owner) := g.openNamed scope.owner exported name
    bindAll g ⟨owner, scope.ambient⟩ body
  | .ambient inner => bindAmbient g scope exported inner
  | .global body => bindAll g .outermost body
  | .exported inner => bindEach g scope true inner
  | .exportAssign target => g.bindExportAssign scope target
  | .exportNames names => names.foldl (fun g e => g.bindExportName scope e) g

/-- Enters statements that are all exported or all not. -/
def bindEach (g : Graph) (scope : Scope) (exported : Bool) : List Statement → Graph
  | [] => g
  | s :: ss => bindEach (bind g scope exported s) scope exported ss

/-- Enters the statements of a block, which are exported if the block is ambient. -/
def bindAll (g : Graph) (scope : Scope) : List Statement → Graph
  | [] => g
  | s :: ss => bindAll (bind g scope scope.ambient s) scope ss

/-- Enters what stands behind `declare`: the blocks of a module are ambient there. -/
def bindAmbient (g : Graph) (scope : Scope) (exported : Bool) : List Statement → Graph
  | [] => g
  | .moduleDecl name body :: ss =>
    let (g, owner) := g.openNamed scope.owner exported name
    bindAmbient (bindAll g ⟨owner, true⟩ body) scope exported ss
  | s :: ss => bindAmbient (bind g scope exported s) scope exported ss

end

end Graph

/-- The graph of a file with these statements. -/
def bound (ambient : Bool) (statements : List Statement) : Graph :=
  Graph.empty.bindAll ⟨none, ambient⟩ statements

mutual

/-- The targets of export assignments that stand outside every module. -/
def Statement.unbound (inModule : Bool) : Statement → List String
  | .exportAssign target => if inModule then [] else [target]
  | .moduleDecl name body =>
    let opens := match name with
      | .quoted _ => true
      | .dotted segments => !segments.isEmpty
    unboundAll (inModule || opens) body
  | .ambient inner => unboundAll inModule inner
  | .global body => unboundAll false body
  | .exported inner => unboundAll inModule inner
  | _ => []

def Statement.unboundAll (inModule : Bool) : List Statement → List String
  | [] => []
  | s :: ss => s.unbound inModule ++ Statement.unboundAll inModule ss

end

end Externs
