import Externs.Syntax.Grammar.Types

/-!
# Grammar of members

The bodies of classes, interfaces, object types and enumerations.
-/

namespace Externs.Grammar

open Rule Phrase

def computedName : R := node .computedName (inBrackets "[" "]" (call expression))

def propertyNameRule : R :=
  anyName .propertyIdentifier <|> lexeme .privateName .privateIdentifier <|> string <|> number <|>
    computedName

def access : R := modifier (node .accessibility (anyWord ["public", "private", "protected"]))

/-- The mark of an accessor or a generator. -/
def methodMark : R := modifier (anyWord ["get", "set"]) <|> sign "*"

def methodModifiers : R :=
  opt access ++ opt (modifier (word "static")) ++ opt (modifier (word "override")) ++
    opt (modifier (word "readonly")) ++ opt (modifier (word "async")) ++ opt methodMark

def fieldModifiers : R :=
  opt access ++ opt (modifier (word "static")) ++ opt (modifier (word "override")) ++
    opt (modifier (word "readonly"))

def initializer : R := sign "=" ++ call expression

/-- A member with a key of any name of a type, also one for every member of another type. -/
def indexSignature : R :=
  opt (opt (anySign ["-", "+"]) ++ word "readonly" ++ goesOn .plain) ++
    inBrackets "[" "]"
      ((anyName .identifier ++ sign ":" ++ call type) <|>
        (anyName .typeIdentifier ++ word "in" ++ call type ++ opt (word "as" ++ call type))) ++
    (call ascription <|> (anySign ["-?:", "+?:", "?:"] ++ call type))

def constructSignature : R :=
  opt (word "abstract") ++ word "new" ++ goesOn .plain ++ opt (call typeParameters) ++ call parameters ++
    opt (call ascription)

/-- Where a method's signature begins behind its name. -/
def signatureStart : R := anySign ["(", "<"]

/-- Members are parted by a comma, a semicolon or the end of a line. -/
def memberEnd : R := sign "," <|> semicolon <|> ahead (sign "|\x7d")

def typeMemberRule : R :=
  node .member (call exportStatement) ++ memberEnd <|>
    node .member indexSignature ++ memberEnd <|>
    node .member constructSignature ++ memberEnd <|>
    (never (word "abstract") ++
      (node .field (fieldModifiers ++ role .name (call propertyName) ++ opt (sign "?") ++
          never signatureStart ++ opt (role .type (call ascription))) ++ memberEnd <|>
        node .method (methodModifiers ++ role .name (call propertyName) ++ opt (sign "?") ++
          call callSignature) ++ memberEnd)) <|>
    node .member (call callSignature) ++ memberEnd

/-- One mark may stand in front of the first member. -/
def objectTypeRule (kind : Kind) : R :=
  node kind
    (lines true ((mark "\x7b|" [] <|> sign "\x7b") ++
      opt (opt (anySign [",", ";"]) ++ many1 (item (call typeMember))) ++
      item (sign "|\x7d" <|> sign "\x7d")))

/-! ## Classes -/

def abstractModifiers : R :=
  opt access ++ word "abstract" ++ opt (modifier (word "override")) ++ opt methodMark

def notMarked : R := never (opt access ++ anyWord ["abstract", "accessor"])

def methodSignature : R :=
  (abstractModifiers <|> (notMarked ++ methodModifiers)) ++ role .name (call propertyName) ++
    opt (sign "?") ++ call callSignature

/-- A method ends with its body, or like a statement. Only one with a body is decorated. -/
def method : R :=
  let body := role .body (call block) ++ never (sign ",")
  node .method (many1 (call decorator) ++ methodSignature ++ body) <|>
    (node .method (methodSignature ++ (body <|> lineEnd .head <|> ahead (anySign [";", ","]))) ++
      opt (sign ","))

def declareModifiers : R :=
  opt (modifier (word "declare") ++ opt access <|> access ++ opt (modifier (word "declare")))

def fieldMarks : R :=
  (word "abstract" ++ opt (modifier (word "readonly"))) <|>
    (modifier (word "readonly") ++ word "abstract") <|>
    word "accessor" <|>
    (opt (modifier (word "static")) ++ opt (modifier (word "override")) ++
      opt (modifier (word "readonly")))

def field : R :=
  node .field (many (call decorator) ++ declareModifiers ++ fieldMarks ++
    role .name (call propertyName) ++ opt (anySign ["?", "!"]) ++ never signatureStart ++
    opt (role .type (call ascription)) ++ opt initializer)

def classMemberRule : R :=
  node .member (word "static" ++ call block) <|>
    node .member indexSignature ++ (sign "," <|> semicolon) <|>
    field ++ (sign "," <|> semicolon) <|>
    method <|>
    sign ";"

def classBodyRule : R :=
  node .classBody (lines true (sign "\x7b" ++ many (item (call classMember)) ++ item (sign "\x7d")))

/-! ## Enumerations -/

def enumItem : R :=
  node .enumAssignment (role .name (call propertyName) ++ initializer) <|> role .name (call propertyName)

def enumBodyRule : R :=
  node .enumBody (lines false (sign "\x7b" ++ commas enumItem ++ sign "\x7d"))

end Externs.Grammar
