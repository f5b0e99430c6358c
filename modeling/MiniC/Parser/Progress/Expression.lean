/-
# MiniC.Parser.Progress.Expression — why reading an expression ends

An expression meets itself behind a parenthesis, a sign or an operator: as the operand of a cast, a
group, an argument, or the operand of an operator.

* `guarded_climb` — expressions inside an expression stand behind a token.
* `expressionAbove_eq` — so an expression is what climbing makes of expressions.
-/
import MiniC.Parser.Expression
import MiniC.Parser.Progress.Declarator

namespace MiniC

set_option autoImplicit false

/-- The end of the file is no operator. -/
theorem Kind.ne_endOfFile_of_binaryOperator? {kind : Kind} {operator : BinaryOperator}
    (found : kind.binaryOperator? = some operator) : kind ≠ .endOfFile := by
  rintro rfl
  cases found

theorem Kind.ne_endOfFile_of_unaryOperator? {kind : Kind} {operator : UnaryOperator}
    (found : kind.unaryOperator? = some operator) : kind ≠ .endOfFile := by
  rintro rfl
  cases found

namespace Parser

variable {tokens : Array Token} {start : Nat} {one other : ExpressionParser}

/-! ## Operands -/

theorem lands_literal (value : Nat) (suggested : Option Ty) :
    Lands tokens start (literal value suggested) (literal value suggested) := by
  unfold literal
  split
  · exact lands_bind lands_advance fun _ => lands_pure _
  · exact lands_fail _

theorem lands_reference (spelling : String) :
    Lands tokens start (reference spelling) (reference spelling) := by
  refine lands_bind (lands_findValue? _) fun found => ?_
  split
  · exact lands_bind lands_advance fun _ => lands_pure _
  · exact lands_fail _

theorem lands_cast
    (inner : ∀ minimum suggested,
      Lands tokens start (one minimum suggested) (other minimum suggested))
    (opening : Position) : Lands tokens start (cast one opening) (cast other opening) := by
  refine lands_bind lands_declarator fun declared => ?_
  split
  · exact lands_failAt _ _
  · refine lands_bind (lands_expect _ _) fun _ => lands_bind (inner _ _) fun operand => ?_
    split
    · exact lands_pure _
    · exact lands_failAt _ _

/-- What a parenthesis opens uses expressions only behind it. -/
theorem landsAt_grouped
    (inner : ∀ minimum suggested,
      Lands tokens (start + 1) (one minimum suggested) (other minimum suggested))
    (suggested : Option Ty) {state : State} {token : Token}
    (current : tokens[state.cursor]? = some token) (opening : token.kind = .symbol .openParen)
    (low : start ≤ state.cursor) :
    LandsAt tokens start state (grouped one suggested) (grouped other suggested) := by
  refine landsAt_advance current (by simp [opening]) low ?_
  refine lands_bind lands_isTypeName fun typed => ?_
  split
  · exact lands_cast inner _
  · exact lands_bind (inner _ _) fun _ => lands_bind (lands_expect _ _) fun _ => lands_pure _

theorem lands_primary
    (inner : ∀ minimum suggested,
      Lands tokens (start + 1) (one minimum suggested) (other minimum suggested))
    (suggested : Option Ty) :
    Lands tokens start (primary one suggested) (primary other suggested) := by
  refine lands_peek_bind fun token state current low => ?_
  split
  · exact (lands_literal _ _).here current low
  · exact (lands_reference _).here current low
  · next opening => exact landsAt_grouped inner suggested current opening low
  · exact (lands_fail _).here current low

/-! ## Calls -/

theorem lands_separator (index : Nat) :
    Lands tokens start (separator index) (separator index) := by
  unfold separator
  split
  · exact lands_expect _ _
  · exact lands_pure _

theorem lands_argumentsFrom
    (inner : ∀ minimum suggested,
      Lands tokens start (one minimum suggested) (other minimum suggested))
    (expected index : Nat) (parameters : List (Parameter Ty)) :
    Lands tokens start (argumentsFrom one expected index parameters)
      (argumentsFrom other expected index parameters) := by
  induction parameters generalizing index with
  | nil => exact lands_pure _
  | cons parameter rest ih =>
    refine lands_bind (lands_check _) fun closed => ?_
    split
    · exact lands_fail _
    · refine lands_bind (lands_separator _) fun _ => lands_bind (inner _ _) fun argument => ?_
      split
      · exact lands_bind (ih _) fun _ => lands_pure _
      · exact lands_failAt _ _

theorem lands_arguments
    (inner : ∀ minimum suggested,
      Lands tokens start (one minimum suggested) (other minimum suggested))
    (parameters : List (Parameter Ty)) :
    Lands tokens start (arguments one parameters) (arguments other parameters) := by
  refine lands_bind (lands_argumentsFrom inner _ _ _) fun read =>
    lands_bind (lands_check _) fun closed => lands_bind (lands_check _) fun comma => ?_
  split
  · exact lands_fail _
  · exact lands_bind (lands_expect _ _) fun _ => lands_pure _

theorem lands_call
    (inner : ∀ minimum suggested,
      Lands tokens (start + 1) (one minimum suggested) (other minimum suggested))
    (callee : Expression) : Lands tokens start (call one callee) (call other callee) := by
  refine lands_check_bind _ fun token state current low => ?_
  split
  · next opening =>
    split
    · refine landsAt_advance current (fun ended => ?_) low
        (lands_bind (lands_arguments inner _) fun _ => lands_pure _)
      simp [ended] at opening
    · exact (lands_fail _).here current low
  · exact (lands_pure _).here current low

theorem lands_called
    (inner : ∀ minimum suggested,
      Lands tokens (start + 1) (one minimum suggested) (other minimum suggested))
    (suggested : Option Ty) :
    Lands tokens start (called one suggested) (called other suggested) :=
  lands_bind (lands_primary inner suggested) fun _ => lands_iterate (lands_call inner) _

/-! ## Operators -/

/-- A unary operator has its operand behind it. -/
theorem landsAt_signed
    (inner : ∀ minimum suggested,
      Lands tokens (start + 1) (one minimum suggested) (other minimum suggested))
    (operator : UnaryOperator) (suggested : Option Ty) {state : State} {token : Token}
    (current : tokens[state.cursor]? = some token) (more : token.kind ≠ .endOfFile)
    (low : start ≤ state.cursor) :
    LandsAt tokens start state (signed one operator suggested)
      (signed other operator suggested) := by
  refine landsAt_advance current more low (lands_bind (inner _ _) fun operand => ?_)
  split
  · exact lands_pure _
  · exact lands_failAt _ _

theorem lands_unary
    (inner : ∀ minimum suggested,
      Lands tokens (start + 1) (one minimum suggested) (other minimum suggested))
    (suggested : Option Ty) : Lands tokens start (unary one suggested) (unary other suggested) := by
  refine lands_peek_bind fun token state current low => ?_
  split
  · next found =>
    exact landsAt_signed inner _ suggested current (Kind.ne_endOfFile_of_unaryOperator? found) low
  · exact (lands_called inner suggested).here current low

theorem lands_extended
    (inner : ∀ minimum suggested,
      Lands tokens (start + 1) (one minimum suggested) (other minimum suggested))
    (minimum : Nat) (left : Expression) :
    Lands tokens start (extended one minimum left) (extended other minimum left) := by
  refine lands_peek_bind fun token state current low => ?_
  split
  · next found =>
    split
    · exact (lands_pure _).here current low
    · refine landsAt_advance current (Kind.ne_endOfFile_of_binaryOperator? found) low
        (lands_bind (inner _ _) fun right => ?_)
      split
      · exact lands_pure _
      · exact lands_failAt _ _
  · exact (lands_pure _).here current low

theorem lands_climb
    (inner : ∀ minimum suggested,
      Lands tokens (start + 1) (one minimum suggested) (other minimum suggested))
    (minimum : Nat) (suggested : Option Ty) :
    Lands tokens start (climb one minimum suggested) (climb other minimum suggested) :=
  lands_bind (lands_unary inner suggested) fun _ => lands_iterate (lands_extended inner minimum) _

/-! ## Expressions -/

/-- Expressions inside an expression stand behind a token. -/
theorem guarded_climb :
    Guarded fun (again : Nat × Option Ty → Parser Expression) input =>
      climb (fun minimum suggested => again (minimum, suggested)) input.1 input.2 :=
  fun _ _ _ _ inner input =>
    lands_climb (fun minimum suggested => inner (minimum, suggested)) input.1 input.2

theorem lands_expressionAbove (minimum : Nat) (suggested : Option Ty) :
    Lands tokens start (expressionAbove minimum suggested) (expressionAbove minimum suggested) :=
  lands_recurse guarded_climb _

theorem lands_expression (suggested : Option Ty) :
    Lands tokens start (expression suggested) (expression suggested) :=
  lands_expressionAbove 0 suggested

/-- An expression is what climbing makes of expressions. -/
theorem expressionAbove_eq (minimum : Nat) (suggested : Option Ty) {state : State}
    (within : state.cursor ≤ tokens.size) :
    expressionAbove minimum suggested tokens state =
      climb expressionAbove minimum suggested tokens state :=
  recurse_eq guarded_climb (minimum, suggested) within

end Parser

end MiniC
