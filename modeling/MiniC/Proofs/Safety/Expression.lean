/-
# MiniC.Proofs.Safety.Expression — expressions are read inside the tokens

One lemma for each function of the grammar. Every use of an expression inside another stands
behind a token, so that it may be taken to be safe from the next place on.
-/
import MiniC.Proofs.Consumption
import MiniC.Proofs.Safety.Declarator

namespace MiniC.Parser

set_option autoImplicit false

variable {tokens : Array Token} {start : Nat} {state : State}

/-! ## Operands -/

theorem safe_literal (value : Nat) (suggested : Option Ty) :
    Safe tokens start (literal value suggested) := by
  unfold literal
  split
  · exact safe_bind safe_advance fun _ => safe_pure _
  · exact safe_fail rfl

theorem safe_reference (spelling : String) : Safe tokens start (reference spelling) := by
  refine safe_bind (safe_findValue? _) fun found => ?_
  split
  · exact safe_bind safe_advance fun _ => safe_pure _
  · exact safe_fail rfl

theorem safe_separator (index : Nat) : Safe tokens start (separator index) := by
  unfold separator
  split
  · exact safe_expect _ (by decide)
  · exact safe_pure _

section Inside

variable (inner : ∀ minimum suggested, Safe tokens start (expressionAbove minimum suggested))

include inner

theorem safe_cast (opening : Position) : Safe tokens start (cast expressionAbove opening) := by
  refine safe_bind safe_declarator fun declared => ?_
  split
  · exact safe_failAt rfl _
  · refine safe_bind (safe_expect _ (by decide)) fun _ => safe_bind (inner _ _) fun operand => ?_
    split
    · exact safe_pure _
    · exact safe_failAt rfl _

theorem safe_argumentsFrom (expected index : Nat) (parameters : List (Parameter Ty)) :
    Safe tokens start (argumentsFrom expressionAbove expected index parameters) := by
  induction parameters generalizing index with
  | nil => exact safe_pure _
  | cons parameter rest ih =>
    refine safe_bind (safe_check _) fun closed => ?_
    split
    · exact safe_fail rfl
    · refine safe_bind (safe_separator _) fun _ => safe_bind (inner _ _) fun argument => ?_
      split
      · exact safe_bind (ih _) fun _ => safe_pure _
      · exact safe_failAt rfl _

theorem safe_arguments (parameters : List (Parameter Ty)) :
    Safe tokens start (arguments expressionAbove parameters) := by
  refine safe_bind (safe_argumentsFrom inner _ _ _) fun read =>
    safe_bind (safe_check _) fun closed => safe_bind (safe_check _) fun comma => ?_
  split
  · exact safe_fail rfl
  · exact safe_bind (safe_expect _ (by decide)) fun _ => safe_pure _

end Inside

/-! ## Behind a token -/

section Behind

variable (inner : ∀ minimum suggested,
  Safe tokens (start + 1) (expressionAbove minimum suggested))

include inner

theorem safeAt_grouped (suggested : Option Ty) {token : Token}
    (here : tokens[state.cursor]? = some token) (opening : token.kind = .symbol .openParen)
    (sound : state.Sound tokens start) :
    SafeAt tokens start state (grouped expressionAbove suggested) := by
  refine safeAt_advance_bind here (by simp [opening]) sound ?_
  refine safe_bind safe_isTypeName fun typed => ?_
  split
  · exact safe_cast inner _
  · exact safe_bind (inner _ _) fun _ => safe_bind (safe_expect _ (by decide)) fun _ => safe_pure _

theorem safe_primary (suggested : Option Ty) :
    Safe tokens start (primary expressionAbove suggested) := by
  refine safe_peek_bind fun token state here sound => ?_
  split
  · exact safe_literal _ _ _ sound
  · exact safe_reference _ _ sound
  · next opening => exact safeAt_grouped inner suggested here opening sound
  · exact safe_fail rfl _ sound

theorem safe_call (callee : Expression) : Safe tokens start (call expressionAbove callee) := by
  simp only [call, check, bind_assoc, pure_bind]
  refine safe_peek_bind fun token state here sound => ?_
  split
  · next opening =>
    split
    · exact safeAt_advance_bind here (by rw [eq_of_beq opening]; simp) sound
        (safe_bind (safe_arguments inner _) fun _ => safe_pure _)
    · exact safe_fail rfl _ sound
  · exact safeAt_pure sound _

theorem safe_called (suggested : Option Ty) :
    Safe tokens start (called expressionAbove suggested) :=
  safe_bind (safe_primary inner suggested) fun _ => safe_iterate advancing_call (safe_call inner) _

theorem safeAt_signed (operator : UnaryOperator) (suggested : Option Ty) {token : Token}
    (here : tokens[state.cursor]? = some token) (more : token.kind ≠ .endOfFile)
    (sound : state.Sound tokens start) :
    SafeAt tokens start state (signed expressionAbove operator suggested) := by
  refine safeAt_advance_bind here more sound (safe_bind (inner _ _) fun operand => ?_)
  split
  · exact safe_pure _
  · exact safe_failAt rfl _

theorem safe_unary (suggested : Option Ty) :
    Safe tokens start (unary expressionAbove suggested) := by
  refine safe_peek_bind fun token state here sound => ?_
  split
  · next found =>
    exact safeAt_signed inner _ suggested here (Kind.ne_endOfFile_of_unaryOperator? found) sound
  · exact safe_called inner suggested _ sound

theorem safe_extended (minimum : Nat) (left : Expression) :
    Safe tokens start (extended expressionAbove minimum left) := by
  refine safe_peek_bind fun token state here sound => ?_
  split
  · next found =>
    split
    · exact safeAt_pure sound _
    · refine safeAt_advance_bind here (Kind.ne_endOfFile_of_binaryOperator? found) sound
        (safe_bind (inner _ _) fun right => ?_)
      split
      · exact safe_pure _
      · exact safe_failAt rfl _
  · exact safeAt_pure sound _

theorem safe_climb (minimum : Nat) (suggested : Option Ty) :
    Safe tokens start (climb expressionAbove minimum suggested) :=
  safe_bind (safe_unary inner suggested) fun _ =>
    safe_iterate (advancing_extended minimum) (safe_extended inner minimum) _

end Behind

/-! ## Expressions -/

theorem safe_expressionAbove (minimum : Nat) (suggested : Option Ty) :
    Safe tokens start (expressionAbove minimum suggested) := by
  refine safe_of_later (fun input : Nat × Option Ty => expressionAbove input.1 input.2)
    (fun start later input state sound => ?_) start (minimum, suggested)
  exact (safe_climb (fun minimum suggested => later (minimum, suggested)) _ _ state sound).of_eq id
    (expressionAbove_eq _ _ (Nat.le_of_lt sound.high))

theorem safe_expression (suggested : Option Ty) : Safe tokens start (expression suggested) :=
  safe_expressionAbove 0 suggested

end MiniC.Parser
