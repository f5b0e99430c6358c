/-
# MiniC.Parser.Expression — expressions and their types

Binary operators are read by climbing: above a minimum precedence, an operand is extended by every
operator that binds tighter than the minimum, and the right operand of an operator is read above
the precedence of that operator. So operators of one precedence associate to the left.

A literal has no type of its own. It takes the type that its surroundings suggest, which has to be
an integer type: the type of a declaration for its initializer, of a parameter for its argument, of
the left operand for the right one, of a cast for its operand. Grouping parentheses, signs and the
leftmost operand hand the suggestion on; `&` and `*` do not.

Every node is typed as it is made, and a node that does not fit is an error at once.
-/
import MiniC.Operator.Typing
import MiniC.Parser.Declarator

namespace MiniC

set_option autoImplicit false

/-- The binary operator that a token may stand for. -/
def Kind.binaryOperator? : Kind → Option BinaryOperator
  | .symbol mark => BinaryOperator.ofSymbol? mark
  | _ => none

/-- The unary operator that a token may stand for. -/
def Kind.unaryOperator? : Kind → Option UnaryOperator
  | .symbol mark => UnaryOperator.ofSymbol? mark
  | _ => none

/-- The operand of a unary operator is read above this precedence. -/
def unaryPrecedence : Nat := 5

/-- The operand of a cast is read above this precedence, the largest of a byte. -/
def castPrecedence : Nat := 255

theorem unaryPrecedence_le_castPrecedence : unaryPrecedence ≤ castPrecedence := by decide

/-- No binary operator extends the operand of a unary operator, nor that of a cast. -/
theorem BinaryOperator.precedence_lt_unaryPrecedence (operator : BinaryOperator) :
    operator.precedence < unaryPrecedence := by
  cases operator <;> decide

namespace Parser

/-- A reader of expressions above a minimum precedence under a suggested type. -/
abbrev ExpressionParser := Nat → Option Ty → Parser Expression

/-! ## Operands -/

/-- A literal takes the suggested type. -/
def literal (value : Nat) (suggested : Option Ty) : Parser Expression := do
  match suggested.filter Ty.isInteger with
  | some ty =>
    let token ← advance
    return .integer ty value token.position
  | none => fail .ambiguousLiteral

/-- A name stands for a declaration. -/
def reference (spelling : String) : Parser Expression := do
  match ← findValue? spelling with
  | some declaration =>
    let token ← advance
    return .name declaration spelling token.position
  | none => fail (.unknownName spelling)

/-- A cast behind its opening parenthesis, which stands at `opening`. The operand is a single unary
expression, and has the kind or the size of the type. -/
def cast (expression : ExpressionParser) (opening : Position) : Parser Expression := do
  let declared ← declarator
  match declared.name with
  | some name => failAt .nameInCast name.position
  | none =>
    expect .closeParen .afterCastType
    let operand ← expression castPrecedence (some declared.ty)
    if declared.ty.sameShape operand.ty || declared.ty.size == operand.ty.size then
      return .cast declared.ty operand opening
    else failAt (.invalidCast operand.ty declared.ty) opening

/-- What a parenthesis opens: a cast if a type name follows, and a group otherwise. -/
def grouped (expression : ExpressionParser) (suggested : Option Ty) : Parser Expression := do
  let opening ← advance
  if ← isTypeName then cast expression opening.position
  else
    let inner ← expression 0 suggested
    expect .closeParen .afterExpression
    return inner

/-- A literal, a name, a cast or a group. -/
def primary (expression : ExpressionParser) (suggested : Option Ty) : Parser Expression := do
  match (← peek).kind with
  | .integer value => literal value suggested
  | .name spelling => reference spelling
  | .symbol .openParen => grouped expression suggested
  | kind => fail (.expectedExpression kind)

/-! ## Calls -/

/-- What stands before the argument of the given index. -/
def separator (index : Nat) : Parser Unit := do
  if 0 < index then expect .comma .betweenArguments

/-- The arguments for the parameters that are left, `index` of `expected` being read. -/
def argumentsFrom (expression : ExpressionParser) (expected : Nat) :
    (index : Nat) → List (Parameter Ty) → Parser (List Expression)
  | _, [] => return []
  | index, parameter :: rest => do
    if ← check .closeParen then fail (.tooFewArguments expected index)
    else
      separator index
      let argument ← expression 0 (some parameter.ty)
      if argument.ty.compatible parameter.ty then
        return argument :: (← argumentsFrom expression expected (index + 1) rest)
      else
        failAt (.argumentMismatch (index + 1) argument.ty parameter.ty) argument.position

/-- One argument for each parameter, up to the closing parenthesis. -/
def arguments (expression : ExpressionParser) (parameters : List (Parameter Ty)) :
    Parser (List Expression) := do
  let read ← argumentsFrom expression parameters.length 0 parameters
  if !(← check .closeParen) && (parameters.isEmpty || (← check .comma)) then
    fail (.tooManyArguments parameters.length)
  else
    expect .closeParen .afterArguments
    return read

/-- A call of `callee`, if one follows. -/
def call (expression : ExpressionParser) (callee : Expression) : Parser (Option Expression) := do
  if ← check .openParen then
    match callee.ty.signature? with
    | some (result, parameters) =>
      let _ ← advance
      let read ← arguments expression parameters
      return some (.call result callee read callee.position)
    | none => fail (.notCallable callee.ty)
  else return none

/-- A primary expression and the calls behind it. -/
def called (expression : ExpressionParser) (suggested : Option Ty) : Parser Expression := do
  iterate (call expression) (← primary expression suggested)

/-! ## Operators -/

/-- A unary operator and its operand, a single unary expression. -/
def signed (expression : ExpressionParser) (operator : UnaryOperator) (suggested : Option Ty) :
    Parser Expression := do
  let token ← advance
  let operand ← expression unaryPrecedence (if operator.isSign then suggested else none)
  match operator.result? token.position operand.ty with
  | some ty => return .unary ty operator operand token.position
  | none => failAt (.noUnaryOperator operator operand.ty) token.position

/-- A single unary expression. -/
def unary (expression : ExpressionParser) (suggested : Option Ty) : Parser Expression := do
  match (← peek).kind.unaryOperator? with
  | some operator => signed expression operator suggested
  | none => called expression suggested

/-- `left` extended by an operator that binds tighter than `minimum`, if one follows. -/
def extended (expression : ExpressionParser) (minimum : Nat) (left : Expression) :
    Parser (Option Expression) := do
  match (← peek).kind.binaryOperator? with
  | some operator =>
    if operator.precedence ≤ minimum then return none
    else
      let token ← advance
      let right ← expression operator.precedence (some left.ty)
      match operator.result? left.ty right.ty with
      | some ty => return some (.binary ty operator left right left.position)
      | none => failAt (.noBinaryOperator operator left.ty right.ty) token.position
  | none => return none

/-- An operand with all operators that bind tighter than `minimum`. -/
def climb (expression : ExpressionParser) (minimum : Nat) (suggested : Option Ty) :
    Parser Expression := do
  iterate (extended expression minimum) (← unary expression suggested)

/-- An expression above a minimum precedence. -/
def expressionAbove (minimum : Nat) (suggested : Option Ty) : Parser Expression :=
  recurse (fun again input => climb (fun minimum suggested => again (minimum, suggested))
    input.1 input.2) (minimum, suggested)

/-- An expression; a literal at its head takes the suggested type. -/
def expression (suggested : Option Ty) : Parser Expression :=
  expressionAbove 0 suggested

end Parser

end MiniC
