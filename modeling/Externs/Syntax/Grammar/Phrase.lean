import Externs.Syntax.Rule

/-!
# Phrases and names

The phrases of the declaration language, and the words that no name can be at a
place because a keyword is read there first. A keyword that means nothing at a place
is a name like any other.
-/

namespace Externs.Grammar

inductive Phrase where
  -- Types
  | type
  | typeOperand
  | typePrimary
  | typeName
  | typeArguments
  | typeParameters
  | objectType
  | parameters
  | callSignature
  | ascription
  | returnedType
  | balanced
  -- Members
  | propertyName
  | typeMember
  | classMember
  | classBody
  | enumBody
  -- Expressions
  | expression
  | expressions
  | unary
  | primary
  | arguments
  | template
  | bindingPattern
  | decorator
  -- Statements
  | statement
  | block
  | declaration
  | moduleName
  | exportStatement
  | importStatement
  | control
  | program
  deriving DecidableEq, Repr

/-- A rule of the declaration language. -/
abbrev R := Rule Phrase

open Rule

/-- Words that begin a type other than a name. -/
def typeWords : List String :=
  ["any", "number", "boolean", "string", "symbol", "unique", "void", "unknown", "never", "object",
    "const", "typeof", "keyof", "infer", "readonly", "new", "abstract", "this", "true", "false",
    "null", "undefined", "import"]

/-- Words that begin an expression other than a name. -/
def expressionWords : List String :=
  ["function", "class", "typeof", "void", "delete", "await", "yield", "this", "super", "true",
    "false", "null", "undefined", "import", "new"]

/-- Words that begin a statement that is no expression. -/
def statementWords : List String :=
  ["var", "const", "if", "for", "while", "do", "try", "switch", "with", "break", "continue", "return",
    "throw", "debugger", "interface", "enum", "abstract"]

/-- A name where no keyword is read. -/
def anyName (kind : Kind) : R := name kind []

/-- A keyword that is a statement by itself where its line ends behind it. -/
def contextual (w : String) : R := word w ++ goesOn .expression

/-- The end of a statement. -/
def semicolon : R := sign ";" <|> lineEnd .plain

def inBrackets (l r : String) (a : R) : R := lines false (sign l ++ a) ++ sign r

def string : R := lexeme .string .string

def number : R := lexeme .number .number

/-- A word for a modifier is one only in front of a name, and is a name itself otherwise. -/
def modifier (a : R) : R :=
  a ++ goesOn .plain ++ ahead (anyName .identifier <|> string <|> number <|> lexeme .privateName .token <|>
    anySign ["[", "*"])

end Externs.Grammar
