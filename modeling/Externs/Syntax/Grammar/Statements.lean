import Externs.Syntax.Grammar.Expressions

/-!
# Grammar of statements

Declarations, exports and imports keep their parts. The statements that run are read
only for their extent, since nothing is declared to the outside in them.
-/

namespace Externs.Grammar

open Rule Phrase

/-! ## Declarations -/

def declarator : R :=
  node .declarator
    ((role .name (anyName .identifier) ++ sign "!" ++ role .type (call ascription)) <|>
      (role .name bindingTarget ++ opt (role .type (call ascription)) ++ opt initializer))

def variableList : R :=
  node .variableList ((anyWord ["var", "const"] <|> contextual "let") ++
    sepBy1 (sign ",") declarator ++ semicolon)

/-- A function ends with its body, or like a statement; one with a mark has a body. -/
def function : R :=
  let named := role .name (anyName .identifier) ++ call callSignature
  let body := role .body (call block)
  node .function (opt (contextual "async") ++ word "function" ++
    ((sign "*" ++ named ++ body) <|> (named ++ (body <|> sign ";" <|> lineEnd .head))))

/-- A class that is extended is any expression; a name or a member is one that can be looked up. -/
def extendsClause : R :=
  let base := fold (call primary) postfixTail ++ opt (call typeArguments)
  node .extendsClause (word "extends" ++
    sepBy1 (sign ",")
      ((base ++ ahead (anySign ["\x7b", ","] <|> word "implements")) <|> call expression))

def implementsClause : R :=
  node .implementsClause (word "implements" ++ sepBy1 (sign ",") (call type))

def heritage : R :=
  node .classHeritage ((extendsClause ++ opt implementsClause) <|> implementsClause)

def classDeclaration : R :=
  node .classDecl (decorators ++ opt (word "abstract") ++ word "class" ++
    role .name (name .typeIdentifier ["extends", "implements"]) ++ opt (call typeParameters) ++
    opt heritage ++ role .body (call classBody))

def interfaceDeclaration : R :=
  node .interfaceDecl (word "interface" ++ role .name (anyName .typeIdentifier) ++
    opt (call typeParameters) ++
    opt (node .extendsClause (word "extends" ++ sepBy1 (sign ",") (call typeName))) ++
    role .body (objectTypeRule .interfaceBody))

def enumDeclaration : R :=
  node .enumDecl (opt (word "const") ++ word "enum" ++ role .name (anyName .identifier) ++
    role .body (call enumBody))

def typeAlias : R :=
  node .typeAlias (contextual "type" ++ role .name (anyName .typeIdentifier) ++
    opt (call typeParameters) ++ sign "=" ++ call type ++ semicolon)

def dottedName : R :=
  fold (anyName .identifier) (node .nestedIdentifier (sign "." ++ anyName .propertyIdentifier))

def importAlias : R :=
  node .importAlias (word "import" ++ anyName .identifier ++ sign "=" ++ never (word "require") ++
    dottedName ++ semicolon)

def moduleNameRule : R := role .name (string <|> dottedName)

def moduleDeclaration : R :=
  node .module (contextual "module" ++ call moduleName ++ opt (role .body (call block)))

def namespaceDeclaration : R :=
  node .namespaceBlock (contextual "namespace" ++ call moduleName ++ opt (role .body (call block)))

/-- Outside `declare` and `export` a namespace may end with its line, before a block. -/
def namespaceStatement : R :=
  node .namespaceBlock (contextual "namespace" ++ call moduleName ++
    opt (goesOn .expression ++ role .body (call block)))

def ambient : R :=
  node .ambient (contextual "declare" ++
    ((word "global" ++ call block) <|>
      (word "module" ++ sign "." ++ anyName .propertyIdentifier ++ sign ":" ++ call type ++ semicolon) <|>
      call declaration))

def declarationRule : R :=
  function <|> classDeclaration <|> enumDeclaration <|> variableList <|> interfaceDeclaration <|>
    moduleDeclaration <|> namespaceDeclaration <|> typeAlias <|> importAlias <|> ambient

/-! ## Exports and imports -/

def exportedName : R := anyName .identifier <|> string

def origin : R := word "from" ++ string ++ opt (anyWord ["with", "assert"] ++ objectLiteral)

def exportSpecifier : R :=
  let names := role .name exportedName ++ opt (word "as" ++ role .newName exportedName)
  let mark := anyWord ["type", "typeof"]
  node .exportSpecifier ((mark ++ names) <|> (never mark ++ names))

def exportClause : R := node .exportClause (inBrackets "\x7b" "\x7d" (commas exportSpecifier))

def exportStatementRule : R :=
  node .exportStatement (decorators ++ contextual "export" ++
    ((sign "*" ++ opt (word "as" ++ exportedName) ++ origin ++ semicolon) <|>
      (opt (word "type") ++ exportClause ++ opt origin ++ semicolon) <|>
      (sign "=" ++ call expression ++ semicolon) <|>
      (word "as" ++ word "namespace" ++ anyName .identifier ++ semicolon) <|>
      (word "default" ++ (role .declaration (call declaration) <|> (call expression ++ semicolon))) <|>
      role .declaration (call declaration)))

def importSpecifier : R :=
  let names := (exportedName ++ word "as" ++ anyName .identifier) <|> anyName .identifier
  let mark := anyWord ["type", "typeof"]
  (mark ++ names) <|> (never mark ++ names)

def namedImports : R := inBrackets "\x7b" "\x7d" (commas importSpecifier)

def importClause : R :=
  let all := sign "*" ++ word "as" ++ anyName .identifier
  all <|> namedImports <|> (anyName .identifier ++ opt (sign "," ++ (all <|> namedImports)))

def importStatementRule : R :=
  let source := (importClause ++ origin) <|>
    (anyName .identifier ++ sign "=" ++ word "require" ++ inBrackets "(" ")" string) <|>
    string ++ opt (anyWord ["with", "assert"] ++ objectLiteral)
  node .statement (word "import" ++ (source <|> (anyWord ["type", "typeof"] ++ source)) ++ semicolon)

/-! ## Statements that run -/

def inParens (a : R) : R := inBrackets "(" ")" a

def forHead : R :=
  let start := (anyWord ["var", "let", "const"] ++ sepBy1 (sign ",") (bindingTarget ++ opt (call ascription) ++ opt initializer)) <|>
    call expressions
  ((anyWord ["var", "let", "const"] ++ bindingTarget <|> call unary) ++ anyWord ["of", "in"] ++ call expressions) <|>
    (opt start ++ sign ";" ++ opt (call expressions) ++ sign ";" ++ opt (call expressions))

def controlRule : R :=
  (word "if" ++ inParens (call expressions) ++ call statement ++ opt (word "else" ++ call statement)) <|>
    (word "for" ++ opt (word "await") ++ inParens forHead ++ call statement) <|>
    (word "while" ++ inParens (call expressions) ++ call statement) <|>
    (word "do" ++ call statement ++ word "while" ++ inParens (call expressions) ++ opt semicolon) <|>
    (word "try" ++ call block ++
      opt (word "catch" ++ opt (inParens (bindingTarget ++ opt (call ascription))) ++ call block) ++
      opt (word "finally" ++ call block)) <|>
    (word "switch" ++ inParens (call expressions) ++ sign "\x7b" ++
      many ((word "case" ++ call expressions <|> word "default") ++ sign ":" ++ many (call statement)) ++
      sign "\x7d") <|>
    (word "with" ++ inParens (call expressions) ++ call statement) <|>
    (anyWord ["break", "continue"] ++ opt (goesOn .plain ++ anyName .identifier) ++ semicolon) <|>
    (anyWord ["return", "throw"] ++ opt (goesOn .plain ++ call expressions) ++ semicolon) <|>
    (word "debugger" ++ semicolon) <|>
    (name .identifier (statementWords ++ expressionWords) ++ sign ":" ++ call statement)

def expressionStatement : R :=
  never (anyWord statementWords) ++ call expressions ++ semicolon

def statementRule : R :=
  call exportStatement <|> importAlias <|> call importStatement <|> namespaceStatement <|>
    call declaration <|> call block <|> node .statement (call control) <|>
    node .statement (sign ";") <|> node .expressionStatement expressionStatement

def blockRule : R :=
  node .block (lines true (sign "\x7b" ++ many (item (call statement)) ++ item (sign "\x7d")))

def programRule : R :=
  opt (joined .interpreter .token) ++ many (item (call statement)) ++ item endOfSource

end Externs.Grammar
