/-
# MiniC.Proofs.Lookahead.Expression — an expression looks one token ahead

One lemma for each function of the grammar. An expression ends in front of a token that is no
operator and opens no call; it has looked at that token, and at none behind it.
-/
import MiniC.Parser.Expression
import MiniC.Proofs.Lookahead

namespace MiniC.Parser

set_option autoImplicit false

variable {tokens tokens' : Array Token}

/-! ## Operands -/

theorem glances_expect (mark : Symbol) (place : Place) :
    Glances tokens tokens' (expect mark place) (expect mark place) :=
  (stops_expect mark place).glances

theorem glances_literal (value : Nat) (suggested : Option Ty) :
    Glances tokens tokens' (literal value suggested) (literal value suggested) := by
  unfold literal
  split
  · exact glances_bind glances_advance fun _ => keeps_pure _
  · exact keeps_fail _

theorem glances_reference (spelling : String) :
    Glances tokens tokens' (reference spelling) (reference spelling) := by
  refine glances_bind (keeps_findValue? _) fun found => ?_
  split
  · exact glances_bind glances_advance fun _ => keeps_pure _
  · exact keeps_fail _

theorem glances_separator (index : Nat) :
    Glances tokens tokens' (separator index) (separator index) := by
  unfold separator
  split
  · exact glances_expect _ _
  · exact keeps_pure _

section Inside

variable {one other : ExpressionParser}
  (inner : ∀ minimum suggested,
    Glances tokens tokens' (one minimum suggested) (other minimum suggested))

include inner

theorem glances_cast (opening : Position) :
    Glances tokens tokens' (cast one opening) (cast other opening) := by
  refine glances_bind glances_declarator fun declared => ?_
  split
  · exact keeps_failAt _ _
  · refine glances_bind (glances_expect _ _) fun _ => glances_bind (inner _ _) fun operand => ?_
    split
    · exact keeps_pure _
    · exact keeps_failAt _ _

theorem glances_grouped (suggested : Option Ty) :
    Glances tokens tokens' (grouped one suggested) (grouped other suggested) := by
  refine glances_bind glances_advance fun opening =>
    glances_bind glances_isTypeName fun typed => ?_
  split
  · exact glances_cast inner _
  · exact glances_bind (inner _ _) fun _ => glances_bind (glances_expect _ _) fun _ => keeps_pure _

theorem glances_primary (suggested : Option Ty) :
    Glances tokens tokens' (primary one suggested) (primary other suggested) := by
  refine glances_bind glances_peek fun token => ?_
  split
  · exact glances_literal _ _
  · exact glances_reference _
  · exact glances_grouped inner _
  · exact keeps_fail _

/-! ## Calls -/

theorem glances_argumentsFrom (expected index : Nat) (parameters : List (Parameter Ty)) :
    Glances tokens tokens' (argumentsFrom one expected index parameters)
      (argumentsFrom other expected index parameters) := by
  induction parameters generalizing index with
  | nil => exact keeps_pure _
  | cons parameter rest ih =>
    refine glances_bind (glances_check _) fun closed => ?_
    split
    · exact keeps_fail _
    · refine glances_bind (glances_separator _) fun _ => glances_bind (inner _ _) fun argument => ?_
      split
      · exact glances_bind (ih _) fun _ => keeps_pure _
      · exact keeps_failAt _ _

theorem glances_arguments (parameters : List (Parameter Ty)) :
    Glances tokens tokens' (arguments one parameters) (arguments other parameters) := by
  refine glances_bind (glances_argumentsFrom inner _ _ _) fun read =>
    glances_bind (glances_check _) fun closed => glances_bind (glances_check _) fun comma => ?_
  split
  · exact keeps_fail _
  · exact glances_bind (glances_expect _ _) fun _ => keeps_pure _

theorem glances_call (callee : Expression) :
    Glances tokens tokens' (call one callee) (call other callee) := by
  refine glances_bind (glances_check _) fun opening => ?_
  split
  · split
    · exact glances_bind glances_advance fun _ => glances_bind (glances_arguments inner _) fun _ =>
        keeps_pure _
    · exact keeps_fail _
  · exact keeps_pure _

theorem glances_called (suggested : Option Ty) :
    Glances tokens tokens' (called one suggested) (called other suggested) :=
  glances_bind (glances_primary inner _) fun _ => glances_iterate (glances_call inner) _

/-! ## Operators -/

theorem glances_signed (operator : UnaryOperator) (suggested : Option Ty) :
    Glances tokens tokens' (signed one operator suggested) (signed other operator suggested) := by
  refine glances_bind glances_advance fun token => glances_bind (inner _ _) fun operand => ?_
  split
  · exact keeps_pure _
  · exact keeps_failAt _ _

theorem glances_unary (suggested : Option Ty) :
    Glances tokens tokens' (unary one suggested) (unary other suggested) := by
  refine glances_bind glances_peek fun token => ?_
  split
  · exact glances_signed inner _ _
  · exact glances_called inner _

theorem glances_extended (minimum : Nat) (left : Expression) :
    Glances tokens tokens' (extended one minimum left) (extended other minimum left) := by
  refine glances_bind glances_peek fun token => ?_
  split
  · split
    · exact keeps_pure _
    · refine glances_bind glances_advance fun _ => glances_bind (inner _ _) fun right => ?_
      split
      · exact keeps_pure _
      · exact keeps_failAt _ _
  · exact keeps_pure _

theorem glances_climb (minimum : Nat) (suggested : Option Ty) :
    Glances tokens tokens' (climb one minimum suggested) (climb other minimum suggested) :=
  glances_bind (glances_unary inner _) fun _ => glances_iterate (glances_extended inner _) _

end Inside

/-! ## Expressions -/

theorem glances_expression (suggested : Option Ty) :
    Glances tokens tokens' (expression suggested) (expression suggested) := by
  have inside : ∀ one other : Nat × Option Ty → Parser Expression,
      (∀ input, Glances tokens tokens' (one input) (other input)) →
      ∀ input : Nat × Option Ty, Glances tokens tokens'
        (climb (fun minimum suggested => one (minimum, suggested)) input.1 input.2)
        (climb (fun minimum suggested => other (minimum, suggested)) input.1 input.2) :=
    fun _ _ inner input => glances_climb (fun minimum suggested => inner (minimum, suggested)) _ _
  exact keeps_recurse (fun _ agree => agree.size_le) inside (0, suggested)

end MiniC.Parser
