/-
# MiniC.Fault — what can be wrong with a source, and how it is reported

A fault is a cause; `Fault.message` is its wording. A compile error is a fault at a place, shown
as the path of the source, the line, the column and the message.

The first fault found ends the reading of a file. Faults of the lexer come before all others,
since a file is split into tokens before anything else is read.
-/
import MiniC.Operator
import MiniC.Token.Lexeme
import MiniC.Ty

namespace MiniC

set_option autoImplicit false

/-- Where in a construct a symbol is missing. -/
inductive Place where
  | afterDeclaration
  | afterTypeDefinition
  | afterReturn
  | afterExpression
  | afterAssignment
  | afterParameterList
  | afterCastType
  | afterArguments
  | afterArrayLength
  | afterVariableName
  | betweenArguments
  | closingDeclaratorGroup
  | openingBlock
  | closingBlock
  | openingArrayLength
  deriving DecidableEq, Repr

/-- Why the text of a file cannot be had: the system refuses it, with a reason and its number, or
it is not UTF-8. -/
inductive ReadFault where
  | system (reason : String) (code : Nat)
  | invalidEncoding
  deriving DecidableEq, Repr

namespace ReadFault

def notFound : ReadFault := .system "No such file or directory" 2

def denied : ReadFault := .system "Permission denied" 13

def isDirectory : ReadFault := .system "Is a directory" 21

end ReadFault

/-- The causes of a compile error. -/
inductive Fault where
  | lexical (fault : LexicalFault)
  | unreadable (fault : ReadFault)
  -- a token that is not what the construct needs
  | missing (mark : Symbol) (place : Place) (found : Kind)
  | expectedIdentifier (found : Kind)
  | expectedTypeName (found : Kind)
  | expectedArrayLength (found : Kind)
  | expectedExpression (found : Kind)
  -- declarators
  | strayInDeclarator (found : Kind)
  | unreadableComponent (found : Kind)
  | secondName (name : String)
  | invalidArrayLength (length : Nat)
  | unnamedDeclaration
  | nameInCast
  -- names
  | noOpenScope
  | alreadyDeclared (name : String)
  | alreadyDefined (name : String)
  | unknownName (name : String)
  -- functions
  | nestedFunction
  | notFunctionType (ty : Ty)
  | unnamedParameter
  | missingReturn
  | returnOutsideFunction
  | returnsValueFromVoid
  | returnsNothing (expected : Ty)
  -- types that do not fit
  | initializerMismatch (value declared : Ty)
  | returnMismatch (value declared : Ty)
  | argumentMismatch (number : Nat) (argument parameter : Ty)
  | assignmentMismatch (operator : AssignmentOperator) (target value : Ty)
  | conditionNotBool (condition : Ty)
  | noBinaryOperator (operator : BinaryOperator) (left right : Ty)
  | noUnaryOperator (operator : UnaryOperator) (operand : Ty)
  | invalidCast (operand target : Ty)
  | notAssignable
  | ambiguousLiteral
  -- calls
  | notCallable (ty : Ty)
  | tooFewArguments (expected found : Nat)
  | tooManyArguments (expected : Nat)
  -- a cursor beyond the tokens, and a bound on recursion; no source gets to either
  | outsideTokens
  | exhausted

/-- A fault and the place it is reported at. -/
structure CompileError where
  fault : Fault
  position : Position

/-! ## Wording -/

def LexicalFault.message : LexicalFault → String
  | unknownCharacter c => "Unknown character '" ++ c.toString ++ "'"
  | literal (.digitTooBig digit base) =>
    "Digit '" ++ digit.toString ++ "' too big for base " ++ toString base
  | literal .tooLarge => "Integer literal too large"

/-- The words that follow the missing symbol. -/
def Place.text : Place → String
  | afterDeclaration => " after declaration"
  | afterTypeDefinition => " after type definition"
  | afterReturn => " after return"
  | afterExpression => " after expression"
  | afterAssignment => " after assignment"
  | afterParameterList => " after parameter list"
  | afterCastType => " after cast type"
  | afterArguments => " after arguments"
  | afterArrayLength => " after array length"
  | afterVariableName => " after variable name"
  | betweenArguments => " between arguments"
  | closingDeclaratorGroup => " to close declarator group"
  | openingBlock => " to open block"
  | closingBlock => " to close block"
  | openingArrayLength => ""

def ReadFault.message : ReadFault → String
  | system reason code => reason ++ " (os error " ++ toString code ++ ")"
  | invalidEncoding => "stream did not contain valid UTF-8"

/-- What the user is told. -/
def Fault.message : Fault → String
  | lexical fault => fault.message
  | unreadable fault => "Unable to read file: " ++ fault.message
  | missing mark place found =>
    "Expected " ++ mark.quoted ++ place.text ++ ", found " ++ found.describe
  | expectedIdentifier found => "Expected identifier, found " ++ found.describe
  | expectedTypeName found => "Expected type name, found " ++ found.describe
  | expectedArrayLength found => "Expected array length, found " ++ found.describe
  | expectedExpression found => "Expected expression, found " ++ found.describe
  | strayInDeclarator found => "Unexpected " ++ found.describe ++ " in declarator"
  | unreadableComponent found => "Unexpected " ++ found.describe ++ " in declarator"
  | secondName name => "Unexpected name '" ++ name ++ "' in declarator"
  | invalidArrayLength length => "Invalid array length " ++ toString length
  | unnamedDeclaration => "Expected name in declaration"
  | nameInCast => "Unexpected name in cast"
  | noOpenScope => "No open scope"
  | alreadyDeclared name => "'" ++ name ++ "' is already declared in this scope"
  | alreadyDefined name => "Type '" ++ name ++ "' is already defined in this scope"
  | unknownName name => "Unable to find name '" ++ name ++ "'"
  | nestedFunction => "Cannot define nested functions"
  | notFunctionType ty => "Expected a function type, found " ++ ty.describe
  | unnamedParameter => "Expected name in function parameter"
  | missingReturn => "Function does not return in all code paths"
  | returnOutsideFunction => "Return outside of a function"
  | returnsValueFromVoid => "Cannot return a value from a void function"
  | returnsNothing expected => "Expected a return value of type " ++ expected.describe
  | initializerMismatch value declared =>
    "Initializer type " ++ value.describe ++ " does not match declared type " ++
      declared.describe
  | returnMismatch value declared =>
    "Return type " ++ value.describe ++ " does not match function return type " ++
      declared.describe
  | argumentMismatch number argument parameter =>
    "Argument " ++ toString number ++ " has type " ++ argument.describe ++ ", expected " ++
      parameter.describe
  | assignmentMismatch operator target value =>
    "Cannot apply " ++ operator.symbol.quoted ++ " to " ++ target.describe ++ " and " ++
      value.describe
  | conditionNotBool condition => "Condition must be bool, found " ++ condition.describe
  | noBinaryOperator operator left right =>
    "No binary operator " ++ operator.symbol.quoted ++ " for types " ++ left.describe ++ " and " ++
      right.describe
  | noUnaryOperator operator operand =>
    "No unary operator " ++ operator.symbol.quoted ++ " for type " ++ operand.describe
  | invalidCast operand target =>
    "Invalid cast from " ++ operand.describe ++ " to " ++ target.describe
  | notAssignable => "Expression is not assignable"
  | ambiguousLiteral => "Ambiguous type for integer literal"
  | notCallable ty => "Cannot call a non-function of type " ++ ty.describe
  | tooFewArguments expected found =>
    "Too few arguments, expected " ++ toString expected ++ ", found " ++ toString found
  | tooManyArguments expected => "Too many arguments, expected " ++ toString expected
  | outsideTokens => "No token to read"
  | exhausted => "Nesting is too deep"

namespace CompileError

def message (error : CompileError) : String :=
  error.fault.message

/-- The error as diagnostics show it. -/
def render (path : String) (error : CompileError) : String :=
  error.position.renderMessage path error.message

end CompileError

end MiniC
