import Externs.Syntax.Grammar.Members

/-!
# Grammar of expressions

Nothing is declared inside an expression, so only its extent counts, and whether it
is a name, a member reached by dots, or anything else. Operators are read in a row,
without regard to how tightly they bind.
-/

namespace Externs.Grammar

open Rule Phrase

def argumentsRule : R :=
  inBrackets "(" ")" (commas (opt (sign "...") ++ call expression))

def templateRule : R :=
  sign "`" ++ many (joined .templateText .token <|>
    (joinedMark "$\x7b" ++ lines false (call expressions) ++ sign "\x7d")) ++ joinedMark "`"

def memberName : R := anyName .propertyIdentifier <|> lexeme .privateName .privateIdentifier

/-- A name, or a pattern that takes a value apart. -/
def bindingTarget : R := call bindingPattern <|> anyName .identifier

def bindingPatternRule : R :=
  let element := bindingTarget ++ opt initializer
  node .pattern (inBrackets "\x7b" "\x7d" (commas
      ((sign "..." ++ bindingTarget) <|> (call propertyName ++ sign ":" ++ element) <|>
        (anyName .identifier ++ opt initializer)))) <|>
    node .pattern (inBrackets "[" "]" (opt ((sign "..." <|> empty) ++ element) ++
      many (sign "," ++ opt ((sign "..." <|> empty) ++ element))))

def functionBody : R :=
  opt (anyName .identifier) ++ call callSignature ++ call block

def functionExpression : R :=
  opt (word "async" ++ goesOn .expression) ++ word "function" ++ opt (sign "*") ++ functionBody

/-- Decorators stand before a class or before what exports one. -/
def decorators : R :=
  opt (whole (many1 (call decorator) ++ ahead (anyWord ["abstract", "class", "export"])))

def classExpression : R :=
  decorators ++ word "class" ++ opt (name .typeIdentifier ["extends", "implements"]) ++
    opt (call typeParameters) ++ opt (word "extends" ++ call unary ++ opt (call typeArguments)) ++
    opt (word "implements" ++ sepBy1 (sign ",") (call type)) ++ call classBody

def objectLiteral : R :=
  inBrackets "\x7b" "\x7d" (commas
    ((sign "..." ++ call expression) <|>
      (call propertyName ++ sign ":" ++ call expression) <|>
      (methodModifiers ++ call propertyName ++ opt (sign "?") ++ call callSignature ++ call block) <|>
      (anyName .identifier ++ opt initializer)))

def arrayLiteral : R :=
  let element := opt (sign "...") ++ call expression
  inBrackets "[" "]" (opt element ++ many (sign "," ++ opt element))

def construction : R :=
  word "new" ++
    ((sign "." ++ word "target") <|>
      (fold (call primary) (node .memberAccess (sign "." ++ memberName) <|>
        node .expression (inBrackets "[" "]" (call expressions)))) ++
      opt (call typeArguments) ++ opt (call arguments))

def primaryRule : R :=
  node .expression functionExpression <|>
    node .expression classExpression <|>
    node .expression construction <|>
    node .expression (inBrackets "(" ")" (call expressions ++ opt (call ascription))) <|>
    node .expression objectLiteral <|>
    node .expression arrayLiteral <|>
    node .expression (call template) <|>
    node .expression (anyWord ["this", "super", "true", "false", "null", "undefined"]) <|>
    node .expression (word "import" ++ (call arguments <|> (sign "." ++ word "meta"))) <|>
    lexeme .string .string <|>
    lexeme .number .number <|>
    lexeme .pattern .expression <|>
    name .identifier expressionWords

/-- Where an expression with type arguments can end. -/
def instanceEnd : R :=
  ahead (anySign [";", ",", ")", "]", "\x7d", ":", ".", "?.", "==", "!="] <|> lineEnd .expression <|> endOfSource)

def postfixTail : R :=
  goesOn .expression ++
    (node .memberAccess (mark "." ['.'] ++ memberName) <|>
      node .memberAccess (mark "?." "0123456789".toList ++ memberName) <|>
      node .expression (mark "?." "0123456789".toList ++
        (call arguments <|> inBrackets "[" "]" (call expressions))) <|>
      node .expression (inBrackets "[" "]" (call expressions)) <|>
      node .expression (call arguments) <|>
      node .expression (call typeArguments ++ (call arguments <|> call template <|> instanceEnd)) <|>
      node .expression (call template) <|>
      node .expression (mark "!" ['=']) <|>
      node .expression (anySign ["++", "--"]))

def arrowFunction : R :=
  opt (word "async" ++ goesOn .expression) ++
    (opt (call typeParameters) ++ ahead (call balanced ++ (sign "=>" <|> sign ":")) ++ call parameters ++
        opt (call returnedType) <|> name .identifier expressionWords) ++
    sign "=>" ++ (call block <|> call expression)

def unaryRule : R :=
  node .expression arrowFunction <|>
    node .expression ((anySign ["++", "--", "+", "-", "!", "~"] <|>
        anyWord ["typeof", "void", "delete", "await"]) ++ call unary) <|>
    node .expression (word "yield" ++ opt (goesOn .expression ++ opt (sign "*") ++ call expression)) <|>
    node .expression (call typeArguments ++ call unary) <|>
    fold (call primary) postfixTail

def binaryOperator : R :=
  anySign ["**=", "*=", "**", "*", "/=", "/", "%=", "%", "+=", "+", "-=", "-", ">>>=", ">>>", ">>=", ">>",
      ">=", ">", "<<=", "<<", "<=", "<", "===", "==", "!==", "!=", "&&=", "&&", "&=", "&", "||=", "||",
      "|=", "|", "^=", "^", "??=", "??"] <|>
    mark "=" ['>'] <|> anyWord ["instanceof", "in"]

def expressionRule : R :=
  fold (call unary)
    (goesOn .expression ++
      (node .expression (binaryOperator ++ call unary) <|>
        node .expression (sign "?" ++ call expression ++ sign ":" ++ call expression) <|>
        node .expression (word "as" ++ (word "const" <|> call type)) <|>
        node .expression (word "satisfies" ++ call type)))

def expressionsRule : R := sepBy1 (sign ",") (call expression)

def decoratorRule : R :=
  node .member (sign "@" ++
    (inBrackets "(" ")" (call expression) <|>
      (anyName .identifier ++ many (sign "." ++ memberName) ++ opt (opt (call typeArguments) ++ call arguments))))

end Externs.Grammar
