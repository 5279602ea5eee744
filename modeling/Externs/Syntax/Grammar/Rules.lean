import Externs.Syntax.Grammar.Statements

/-!
# The grammar

One rule for each symbol.
-/

namespace Externs.Grammar

open Rule Phrase

def rules : Phrase → R
  | type => typeRule
  | typeOperand => typeOperandRule
  | typePrimary => typePrimaryRule
  | typeName => typeNameRule
  | typeArguments => typeArgumentsRule
  | typeParameters => typeParametersRule
  | objectType => objectTypeRule .type
  | parameters => parametersRule
  | callSignature => callSignatureRule
  | ascription => ascriptionRule
  | returnedType => returnedTypeRule
  | balanced => balancedRule
  | propertyName => propertyNameRule
  | typeMember => typeMemberRule
  | classMember => classMemberRule
  | classBody => classBodyRule
  | enumBody => enumBodyRule
  | expression => expressionRule
  | expressions => expressionsRule
  | unary => unaryRule
  | primary => primaryRule
  | arguments => argumentsRule
  | template => templateRule
  | bindingPattern => bindingPatternRule
  | decorator => decoratorRule
  | statement => statementRule
  | block => blockRule
  | declaration => declarationRule
  | moduleName => moduleNameRule
  | exportStatement => exportStatementRule
  | importStatement => importStatementRule
  | .control => controlRule
  | program => programRule

end Externs.Grammar
