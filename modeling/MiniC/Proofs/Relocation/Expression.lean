/-
# MiniC.Proofs.Relocation.Expression — expressions at other places

One lemma for each function of the grammar. An expression decides by the shapes, sizes and
compatibility of types, all of which stay where places are moved one to one.
-/
import MiniC.Parser.Expression
import MiniC.Proofs.Relocation.Declarator

namespace MiniC.Parser

set_option autoImplicit false

variable {tokens tokens' : Array Token} {along : Alignment tokens tokens'}

/-! ## Operands -/

theorem filter_isInteger_relocate (suggested : Option Ty) :
    (suggested.map (Ty.relocate along.move)).filter Ty.isInteger =
      (suggested.filter Ty.isInteger).map (Ty.relocate along.move) := by
  cases suggested with
  | none => rfl
  | some ty => by_cases integer : ty.isInteger <;> simp [Option.filter, integer]

theorem follows_literal (value : Nat) (suggested : Option Ty) :
    Follows along (Expression.relocate along.move) (literal value suggested)
      (literal value (suggested.map (Ty.relocate along.move))) := by
  simp only [literal, filter_isInteger_relocate]
  cases suggested.filter Ty.isInteger with
  | some ty =>
    exact follows_advance_bind fun token _ => follows_pure (Expression.integer ty value token.position)
  | none => exact follows_fail rfl

theorem follows_reference (spelling : String) :
    Follows along (Expression.relocate along.move) (reference spelling) (reference spelling) := by
  refine follows_bind (follows_findValue? _) fun found => ?_
  cases found with
  | some declared =>
    exact follows_advance_bind fun token _ => follows_pure (Expression.name declared spelling token.position)
  | none => exact follows_fail rfl

theorem follows_separator (index : Nat) :
    Follows along id (separator index) (separator index) := by
  unfold separator
  split
  · exact follows_expect _ _
  · exact follows_pure ()

section Inside

variable {inner inner' : ExpressionParser}
  (follows : ∀ minimum suggested, Follows along (Expression.relocate along.move)
    (inner minimum suggested) (inner' minimum (suggested.map (Ty.relocate along.move))))

include follows

theorem follows_cast (opening : Position) :
    Follows along (Expression.relocate along.move) (cast inner opening)
      (cast inner' (along.move opening)) := by
  refine follows_bind follows_declarator fun declared => ?_
  obtain ⟨ty, _ | name⟩ := declared
  · refine follows_bind (follows_expect _ _) fun _ =>
      follows_bind (follows castPrecedence (some ty)) fun operand => ?_
    simp only [Declarator.relocate, Expression.ty_relocate, Ty.sameShape_relocate, Ty.size_relocate]
    split
    · exact follows_pure (Expression.cast ty operand opening)
    · exact follows_failAt rfl opening
  · exact follows_failAt rfl name.position

theorem follows_grouped (suggested : Option Ty) :
    Follows along (Expression.relocate along.move) (grouped inner suggested)
      (grouped inner' (suggested.map (Ty.relocate along.move))) := by
  refine follows_advance_bind fun opening length => follows_bind follows_isTypeName fun typed => ?_
  cases typed with
  | true => exact follows_cast follows opening.position
  | false =>
    exact follows_bind (follows 0 suggested) fun content =>
      follows_bind (follows_expect _ _) fun _ => follows_pure content

theorem follows_primary (suggested : Option Ty) :
    Follows along (Expression.relocate along.move) (primary inner suggested)
      (primary inner' (suggested.map (Ty.relocate along.move))) := by
  refine follows_peek_bind fun token length => ?_
  dsimp only
  split
  · exact follows_literal _ suggested
  · exact follows_reference _
  · exact follows_grouped follows suggested
  · exact follows_fail rfl

/-! ## Calls -/

theorem follows_argumentsFrom (expected index : Nat) (parameters : List (Parameter Ty)) :
    Follows along (List.map (Expression.relocate along.move))
      (argumentsFrom inner expected index parameters)
      (argumentsFrom inner' expected index (parameters.map (Parameter.relocate along.move))) := by
  induction parameters generalizing index with
  | nil => exact follows_pure []
  | cons parameter rest ih =>
    refine follows_bind (follows_check _) fun closed => ?_
    cases closed with
    | true => exact follows_fail rfl
    | false =>
      refine follows_bind (follows_separator _) fun _ =>
        follows_bind (follows 0 (some parameter.ty)) fun argument => ?_
      simp only [Parameter.relocate, Expression.ty_relocate, Expression.position_relocate,
        Ty.compatible_relocate along.injective]
      split
      · exact follows_bind (ih _) fun others => follows_pure (argument :: others)
      · exact follows_failAt rfl argument.position

theorem follows_arguments (parameters : List (Parameter Ty)) :
    Follows along (List.map (Expression.relocate along.move)) (arguments inner parameters)
      (arguments inner' (parameters.map (Parameter.relocate along.move))) := by
  simp only [arguments, List.length_map, List.isEmpty_map]
  refine follows_bind (follows_argumentsFrom follows _ _ _) fun read =>
    follows_bind (follows_check _) fun closed => follows_bind (follows_check _) fun comma => ?_
  dsimp only [id]
  split
  · exact follows_fail rfl
  · exact follows_bind (follows_expect _ _) fun _ => follows_pure read

theorem follows_call (callee : Expression) :
    Follows along (Option.map (Expression.relocate along.move)) (call inner callee)
      (call inner' (callee.relocate along.move)) := by
  refine follows_bind (follows_check _) fun opening => ?_
  cases opening with
  | true =>
    simp only [id, Expression.ty_relocate, Expression.position_relocate, Ty.signature?_relocate]
    rcases callee.ty.signature? with _ | ⟨result, parameters⟩
    · exact follows_fail rfl
    · refine follows_advance_bind fun _ _ =>
        follows_bind (follows_arguments follows parameters) fun read => follows_pure_of_eq ?_
      simp only [Option.map_some, Expression.relocate, Expression.relocateAll_eq_map]
  | false => exact follows_pure none

theorem follows_called (suggested : Option Ty) :
    Follows along (Expression.relocate along.move) (called inner suggested)
      (called inner' (suggested.map (Ty.relocate along.move))) :=
  follows_bind (follows_primary follows suggested) fun callee =>
    follows_iterate (follows_call follows) callee

/-! ## Operators -/

theorem follows_signed (operator : UnaryOperator) (suggested : Option Ty) :
    Follows along (Expression.relocate along.move) (signed inner operator suggested)
      (signed inner' operator (suggested.map (Ty.relocate along.move))) := by
  refine follows_advance_bind fun token length => ?_
  have handed : (if operator.isSign then suggested.map (Ty.relocate along.move) else none) =
      (if operator.isSign then suggested else none).map (Ty.relocate along.move) := by
    split <;> rfl
  rw [handed]
  refine follows_bind (follows _ _) fun operand => ?_
  simp only [Expression.ty_relocate, UnaryOperator.result?_relocate]
  cases operator.result? token.position operand.ty with
  | some ty => exact follows_pure (Expression.unary ty operator operand token.position)
  | none => exact follows_failAt rfl token.position

theorem follows_unary (suggested : Option Ty) :
    Follows along (Expression.relocate along.move) (unary inner suggested)
      (unary inner' (suggested.map (Ty.relocate along.move))) := by
  refine follows_peek_bind fun token length => ?_
  dsimp only
  split
  · exact follows_signed follows _ suggested
  · exact follows_called follows suggested

theorem follows_extended (minimum : Nat) (left : Expression) :
    Follows along (Option.map (Expression.relocate along.move)) (extended inner minimum left)
      (extended inner' minimum (left.relocate along.move)) := by
  refine follows_peek_bind fun token length => ?_
  dsimp only
  split
  · next operator _ =>
    split
    · exact follows_pure none
    · refine follows_advance_bind fun token length => ?_
      simp only [Expression.ty_relocate, Expression.position_relocate]
      refine follows_bind (follows _ (some left.ty)) fun right => ?_
      simp only [Expression.ty_relocate, BinaryOperator.result?_relocate along.injective]
      cases operator.result? left.ty right.ty with
      | some ty => exact follows_pure (some (Expression.binary ty operator left right left.position))
      | none => exact follows_failAt rfl token.position
  · exact follows_pure none

theorem follows_climb (minimum : Nat) (suggested : Option Ty) :
    Follows along (Expression.relocate along.move) (climb inner minimum suggested)
      (climb inner' minimum (suggested.map (Ty.relocate along.move))) :=
  follows_bind (follows_unary follows suggested) fun left =>
    follows_iterate (follows_extended follows minimum) left

end Inside

/-! ## Expressions -/

theorem follows_expressionAbove (minimum : Nat) (suggested : Option Ty) :
    Follows along (Expression.relocate along.move) (expressionAbove minimum suggested)
      (expressionAbove minimum (suggested.map (Ty.relocate along.move))) := by
  let carry (input : Nat × Option Ty) := (input.1, input.2.map (Ty.relocate along.move))
  have inside : ∀ inner inner' : Nat × Option Ty → Parser Expression,
      (∀ input, Follows along (Expression.relocate along.move) (inner input)
        (inner' (carry input))) →
      ∀ input : Nat × Option Ty, Follows along (Expression.relocate along.move)
        (climb (fun minimum suggested => inner (minimum, suggested)) input.1 input.2)
        (climb (fun minimum suggested => inner' (minimum, suggested)) input.1
          (input.2.map (Ty.relocate along.move))) :=
    fun inner inner' follows input =>
      follows_climb (fun minimum suggested => follows (minimum, suggested)) input.1 input.2
  exact follows_recurse inside (minimum, suggested)

theorem follows_expression (suggested : Option Ty) :
    Follows along (Expression.relocate along.move) (expression suggested)
      (expression (suggested.map (Ty.relocate along.move))) :=
  follows_expressionAbove 0 suggested

end MiniC.Parser
