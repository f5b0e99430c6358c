/-
# MiniC.Operator.Typing — the type of an operator's result

Signs take an integer and keep its type; `&` makes a pointer to any operand and `*` yields what a
pointer points to. Arithmetic and orderings take two integers of compatible types, `==` takes two
operands of compatible types; arithmetic keeps the left type and the others yield `bool`.
-/
import MiniC.Operator
import MiniC.Ty.Compatible

namespace MiniC

set_option autoImplicit false

/-- The type of the operator standing at `site` before an operand of type `operand`, if it
applies. -/
def UnaryOperator.result? (operator : UnaryOperator) (site : Position) (operand : Ty) :
    Option Ty :=
  match operator with
  | plus | minus => if operand.isInteger then some operand else none
  | addressOf => some (.pointer ⟨.site site, none⟩ operand)
  | dereference => operand.pointee?

/-- The type of the operator between operands of types `left` and `right`, if it applies. -/
def BinaryOperator.result? (operator : BinaryOperator) (left right : Ty) : Option Ty :=
  let integers := left.isInteger && right.isInteger && left.compatible right
  if operator.isArithmetic then if integers then some left else none
  else if operator.isRelational then if integers then some Ty.bool else none
  else if left.compatible right then some Ty.bool else none

/-- Whether a value of type `value` may be assigned to a target of type `target`. -/
def AssignmentOperator.accepts (operator : AssignmentOperator) (target value : Ty) : Bool :=
  match operator.binary? with
  | some binary => (binary.result? target value).isSome
  | none => value.compatible target

end MiniC
