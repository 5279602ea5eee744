import Externs.Syntax.Grammar.Phrase

/-!
# Grammar of types

A type is a reference to a name, an array, a type in parentheses or behind
`readonly`, or any other type. `readonly` and function types take all that follows
them; unions, intersections and conditions are read one operand at a time.
-/

namespace Externs.Grammar

open Rule Phrase

def ascriptionRule : R := node .ascription (sign ":" ++ call type)

/-- A condition on a parameter, in place of the type that a function gives. -/
def predicate : R :=
  (anyWord ["this"] <|> anyName .identifier) ++ goesOn .plain ++ word "is" ++ call type

def assertion : R := word "asserts" ++ (predicate <|> word "this" <|> anyName .identifier)

/-- What a function gives: only a plain type is an ascription that can be read further. -/
def returnedTypeRule : R :=
  node .type (sign ":" ++ assertion) <|> node .type (sign ":" ++ predicate) <|>
    (ahead (sign ":" ++ never (word "asserts")) ++ call ascription)

def returned : R := assertion <|> predicate <|> (never (word "asserts") ++ call type)

/-- A dotted name, with type arguments where there are any. -/
def typeNameRule : R :=
  fold (role .name (fold (name .typeIdentifier typeWords)
      (node .nestedTypeIdentifier (sign "." ++ anyName .typeIdentifier))))
    (node .genericType (call typeArguments))

def typeArgumentsRule : R := node .typeArguments (inBrackets "<" ">" (commas1 (call type)))

def typeParameter : R :=
  (word "const" ++ anyName .typeIdentifier <|> anyName .typeIdentifier) ++
    opt ((word "extends" <|> sign ":") ++ call type) ++ opt (sign "=" ++ call type)

def typeParametersRule : R := node .typeParameters (inBrackets "<" ">" (commas1 typeParameter))

/-- Parentheses, other parentheses within them closed. -/
def balancedRule : R :=
  sign "(" ++ many (call balanced <|> string <|> other ['(', ')']) ++ sign ")"

def parameter : R :=
  many (call decorator) ++ opt (modifier (node .accessibility (anyWord ["public", "private", "protected"]))) ++
    opt (modifier (word "override")) ++ opt (modifier (word "readonly")) ++
    ((sign "..." ++ (call bindingPattern <|> anyName .identifier)) <|> call bindingPattern <|>
      anyName .identifier) ++
    opt (sign "?") ++ opt (call ascription) ++ opt (sign "=" ++ call expression)

def parametersRule : R := node .parameters (inBrackets "(" ")" (commas parameter))

def callSignatureRule : R :=
  opt (call typeParameters) ++ call parameters ++ opt (role .returnType (call returnedType))

def functionType : R :=
  (call typeParameters ++ call parameters <|>
      ahead (call balanced ++ sign "=>") ++ call parameters) ++ sign "=>" ++ returned

def constructorType : R :=
  opt (word "abstract") ++ word "new" ++ opt (call typeParameters) ++ call parameters ++ sign "=>" ++
    call type

/-- The type of a value, written by its name and what is reached from it. -/
def query : R :=
  word "typeof" ++
    fold (node .expression (word "import" ++ call arguments) <|> word "this" <|> anyName .identifier)
      (node .memberAccess ((sign "." <|> sign "?.") ++
          (anyName .propertyIdentifier <|> lexeme .privateName .privateIdentifier)) <|>
        node .expression (goesOn .plain ++ sign "[" ++
          (string <|> number <|> anyWord ["any", "number", "boolean", "string", "symbol", "object"]) ++
          sign "]") <|>
        node .expression (call typeArguments))

/-- What a file exports, by the file's name. -/
def imported : R :=
  word "import" ++ call arguments ++
    many (sign "." ++ (anyName .propertyIdentifier <|> lexeme .privateName .privateIdentifier)) ++
    opt (call arguments)

def tupleMember : R :=
  (sign "..." ++ anyName .identifier ++ call ascription) <|>
    (anyName .identifier ++ opt (sign "?") ++ call ascription) <|>
    (sign "..." ++ call type) <|> (call type ++ opt (sign "?"))

def templateType : R :=
  sign "`" ++ many (joined .templateText .token <|> (joinedMark "$\x7b" ++ lines false (call type) ++ sign "\x7d")) ++
    joinedMark "`"

def typeBase : R :=
  node .parenthesizedType (inBrackets "(" ")" (call type)) <|>
    node .type query <|>
    node .type (word "keyof" ++ call typePrimary) <|>
    node .type (word "unique" ++ word "symbol") <|>
    node .type (anyWord ["any", "number", "boolean", "string", "symbol", "void", "unknown", "never", "object"]) <|>
    node .type (anyWord ["this", "true", "false", "null", "undefined"]) <|>
    word "const" <|>
    call objectType <|>
    node .type (inBrackets "[" "]" (commas tupleMember)) <|>
    node .type templateType <|>
    node .type string <|>
    node .type (opt (anySign ["-", "+"]) ++ number) <|>
    node .type (sign "*") <|>
    node .type (sign "?" ++ call typePrimary) <|>
    call typeName

def typePrimaryRule : R :=
  fold typeBase
    (node .arrayType (goesOn .plain ++ sign "[" ++ sign "]") <|>
      node .type (goesOn .plain ++ inBrackets "[" "]" (call type)))

def typeOperandRule : R :=
  node .type (anySign ["|", "&"] ++ call typeOperand) <|>
    node .readonlyType (word "readonly" ++ call type) <|>
    node .type functionType <|>
    node .type constructorType <|>
    node .type (word "infer" ++ anyName .typeIdentifier ++ opt (goesOn .plain ++ word "extends" ++ call type)) <|>
    node .type imported <|>
    call typePrimary

/-- A bar in front of a brace closes an exact object type and joins nothing. -/
def typeRule : R :=
  fold (call typeOperand)
    (node .type ((mark "|" ['}'] <|> sign "&") ++ call typeOperand) <|>
      node .type (goesOn .plain ++ word "extends" ++ call type ++ sign "?" ++ call type ++ sign ":" ++
        call type))

end Externs.Grammar
