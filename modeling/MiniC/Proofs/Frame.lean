/-
# MiniC.Proofs.Frame — parsers that move the cursor only

Declarators and expressions look names up but bind none, and they do not leave the function that
they stand in. Whatever becomes of such a parser, with or without an error, the scopes and the
return type are those that it began with.

* `OnlyMoves` — the state that a parser leaves differs from the one it began in by the cursor.
* `onlyMoves_bind`, `onlyMoves_iterate`, `onlyMoves_recurse` — composition.
* `onlyMoves_declarator`, `onlyMoves_expressionAbove` — the two grammars.
-/
import MiniC.Parser.Expression
import MiniC.Proofs.Success

namespace MiniC.Parser

set_option autoImplicit false

variable {ι σ α β : Type}

/-- However the parser ends, only the cursor has moved. -/
def OnlyMoves (parser : Parser α) : Prop :=
  ∀ (tokens : Array Token) (state : State),
    ∃ cursor, stateAfter (parser tokens state) = { state with cursor }

/-- Where a parser that only moves the cursor succeeds, the state has changed in the cursor only. -/
theorem OnlyMoves.of_runs {parser : Parser α} (moves : OnlyMoves parser) {tokens : Array Token}
    {state after : State} {value : α} (run : Runs tokens parser state value after) :
    after = { state with cursor := after.cursor } := by
  obtain ⟨cursor, same⟩ := moves tokens state
  rw [run] at same
  simp only [stateAfter] at same
  rw [same]

/-! ## Composition -/

theorem onlyMoves_pure (value : α) : OnlyMoves (pure value : Parser α) :=
  fun _ state => ⟨state.cursor, rfl⟩

theorem onlyMoves_failAt (fault : Fault) (position : Position) :
    OnlyMoves (failAt fault position : Parser α) :=
  fun _ state => ⟨state.cursor, rfl⟩

theorem onlyMoves_bind {first : Parser α} {second : α → Parser β} (before : OnlyMoves first)
    (behind : ∀ value, OnlyMoves (second value)) : OnlyMoves (first >>= second) := by
  intro tokens state
  rw [bind_apply]
  obtain ⟨cursor, same⟩ := before tokens state
  rcases result : first tokens state with ⟨value, between⟩ | ⟨error, between⟩
  · rw [result] at same
    simp only [stateAfter] at same
    obtain ⟨last, same'⟩ := behind value tokens between
    exact ⟨last, same'.trans (by rw [same])⟩
  · rw [result] at same
    exact ⟨cursor, same⟩

/-- What a parser reads may be handed on in another form. -/
theorem onlyMoves_bind_pure {first : Parser α} (before : OnlyMoves first) {form : α → β} :
    OnlyMoves (first >>= fun value => pure (form value)) := by
  apply onlyMoves_bind before
  intro value
  exact onlyMoves_pure _

theorem onlyMoves_repeated {step : σ → Parser (Option σ)}
    (each : ∀ current, OnlyMoves (step current)) (bound : Nat) (current : σ) :
    OnlyMoves (repeated step bound current) := by
  induction bound generalizing current with
  | zero => exact onlyMoves_failAt _ _
  | succ bound ih =>
    apply onlyMoves_bind (each current)
    intro next
    cases next with
    | some next => exact ih next
    | none => exact onlyMoves_pure _

theorem onlyMoves_iterate {step : σ → Parser (Option σ)}
    (each : ∀ current, OnlyMoves (step current)) (current : σ) :
    OnlyMoves (iterate step current) := by
  intro tokens state
  exact onlyMoves_repeated each (tokens.size - state.cursor + 1) current tokens state

theorem onlyMoves_nested {body : (ι → Parser α) → ι → Parser α}
    (each : ∀ inner : ι → Parser α, (∀ input, OnlyMoves (inner input)) →
      ∀ input, OnlyMoves (body inner input)) (bound : Nat) (input : ι) :
    OnlyMoves (nested body bound input) := by
  induction bound generalizing input with
  | zero => exact onlyMoves_failAt _ _
  | succ bound ih => exact each _ ih input

theorem onlyMoves_recurse {body : (ι → Parser α) → ι → Parser α}
    (each : ∀ inner : ι → Parser α, (∀ input, OnlyMoves (inner input)) →
      ∀ input, OnlyMoves (body inner input)) (input : ι) : OnlyMoves (recurse body input) := by
  intro tokens state
  exact onlyMoves_nested each (tokens.size - state.cursor + 1) input tokens state

theorem onlyMoves_foldlM {step : β → ι → Parser β}
    (each : ∀ current input, OnlyMoves (step current input)) (inputs : List ι) (current : β) :
    OnlyMoves (inputs.foldlM step current) := by
  induction inputs generalizing current with
  | nil => exact onlyMoves_pure _
  | cons input rest ih =>
    rw [List.foldlM_cons]
    apply onlyMoves_bind (each current input)
    intro next
    exact ih next

/-! ## Primitives -/

theorem onlyMoves_peek : OnlyMoves peek := by
  intro tokens state
  refine ⟨state.cursor, ?_⟩
  unfold peek
  split <;> rfl

theorem onlyMoves_cursor : OnlyMoves cursor :=
  fun _ state => ⟨state.cursor, rfl⟩

theorem onlyMoves_seek (index : Nat) : OnlyMoves (seek index) :=
  fun _ _ => ⟨index, rfl⟩

theorem onlyMoves_findType? (name : String) : OnlyMoves (findType? name) :=
  fun _ state => ⟨state.cursor, rfl⟩

theorem onlyMoves_findValue? (name : String) : OnlyMoves (findValue? name) :=
  fun _ state => ⟨state.cursor, rfl⟩

theorem onlyMoves_ofExcept (outcome : Except CompileError α) : OnlyMoves (ofExcept outcome) := by
  cases outcome with
  | error error => exact onlyMoves_failAt _ _
  | ok value => exact onlyMoves_pure value

theorem onlyMoves_fail (fault : Fault) : OnlyMoves (fail fault : Parser α) := by
  apply onlyMoves_bind onlyMoves_peek
  intro token
  exact onlyMoves_failAt _ _

theorem onlyMoves_advance : OnlyMoves advance := by
  apply onlyMoves_bind onlyMoves_peek
  intro token
  split
  · exact onlyMoves_pure _
  · apply onlyMoves_bind onlyMoves_cursor
    intro _
    exact onlyMoves_bind_pure (onlyMoves_seek _)

theorem onlyMoves_check (mark : Symbol) : OnlyMoves (check mark) :=
  onlyMoves_bind_pure onlyMoves_peek

theorem onlyMoves_accept (mark : Symbol) : OnlyMoves (accept mark) := by
  apply onlyMoves_bind (onlyMoves_check mark)
  intro found
  split
  · exact onlyMoves_bind_pure onlyMoves_advance
  · exact onlyMoves_pure _

theorem onlyMoves_expect (mark : Symbol) (place : Place) : OnlyMoves (expect mark place) := by
  apply onlyMoves_bind (onlyMoves_accept mark)
  intro found
  split
  · exact onlyMoves_pure _
  · apply onlyMoves_bind onlyMoves_peek
    intro _
    exact onlyMoves_fail _

/-! ## Declarators -/

theorem onlyMoves_isTypeName : OnlyMoves isTypeName := by
  apply onlyMoves_bind onlyMoves_peek
  intro token
  split
  · exact onlyMoves_bind_pure (onlyMoves_findType? _)
  · exact onlyMoves_pure _

theorem onlyMoves_baseType (base : Option Ty) : OnlyMoves (baseType base) := by
  cases base with
  | some ty => exact onlyMoves_pure ty
  | none =>
    apply onlyMoves_bind onlyMoves_peek
    intro token
    split
    · apply onlyMoves_bind (onlyMoves_findType? _)
      intro found
      split
      · exact onlyMoves_bind_pure onlyMoves_advance
      · exact onlyMoves_fail _
    · exact onlyMoves_fail _

theorem onlyMoves_pointer (ty : Ty) : OnlyMoves (pointer ty) := by
  apply onlyMoves_bind onlyMoves_peek
  intro token
  apply onlyMoves_bind (onlyMoves_accept _)
  intro found
  split <;> exact onlyMoves_pure _

theorem onlyMoves_scanComponents : OnlyMoves scanComponents := by
  apply onlyMoves_bind_pure
  apply onlyMoves_iterate
  intro scan
  apply onlyMoves_bind onlyMoves_peek
  intro token
  apply onlyMoves_bind onlyMoves_cursor
  intro index
  split
  · exact onlyMoves_pure _
  · exact onlyMoves_fail _
  · exact onlyMoves_bind_pure onlyMoves_advance

theorem onlyMoves_arraySuffix (element : Ty) : OnlyMoves (arraySuffix element) := by
  apply onlyMoves_bind onlyMoves_peek
  intro opening
  apply onlyMoves_bind (onlyMoves_expect _ _)
  intro _
  apply onlyMoves_bind onlyMoves_peek
  intro token
  split
  · split
    · apply onlyMoves_bind onlyMoves_advance
      intro _
      exact onlyMoves_bind_pure (onlyMoves_expect _ _)
    · exact onlyMoves_fail _
  · exact onlyMoves_fail _

theorem onlyMoves_parameterList {inner : Option Ty → Parser Declarator}
    (moves : ∀ base, OnlyMoves (inner base)) : OnlyMoves (parameterList inner) := by
  have one : OnlyMoves (parameter inner) := by
    apply onlyMoves_bind onlyMoves_peek
    intro token
    exact onlyMoves_bind_pure (moves none)
  have further : ∀ read, OnlyMoves (nextParameter inner read) := by
    intro read
    apply onlyMoves_bind (onlyMoves_accept _)
    intro found
    split
    · exact onlyMoves_bind_pure one
    · exact onlyMoves_pure _
  have all : OnlyMoves (parameters inner) := by
    apply onlyMoves_bind (onlyMoves_check _)
    intro found
    split
    · exact onlyMoves_pure _
    · apply onlyMoves_bind one
      intro _
      exact onlyMoves_iterate further _
  apply onlyMoves_bind all
  intro _
  exact onlyMoves_bind_pure (onlyMoves_expect _ _)

theorem onlyMoves_parenthesized {inner : Option Ty → Parser Declarator}
    (moves : ∀ base, OnlyMoves (inner base)) (built : Declarator) :
    OnlyMoves (parenthesized inner built) := by
  apply onlyMoves_bind onlyMoves_advance
  intro _
  apply onlyMoves_bind (onlyMoves_check _)
  intro closed
  apply onlyMoves_bind onlyMoves_isTypeName
  intro typed
  split
  · exact onlyMoves_bind_pure (onlyMoves_parameterList moves)
  · apply onlyMoves_bind (moves _)
    intro group
    apply onlyMoves_bind (onlyMoves_expect _ _)
    intro _
    split
    · exact onlyMoves_ofExcept _
    · exact onlyMoves_pure _

theorem onlyMoves_component {inner : Option Ty → Parser Declarator}
    (moves : ∀ base, OnlyMoves (inner base)) (built : Declarator) (index : Nat) :
    OnlyMoves (component inner built index) := by
  apply onlyMoves_bind (onlyMoves_seek _)
  intro _
  apply onlyMoves_bind onlyMoves_peek
  intro token
  split
  · exact onlyMoves_bind_pure (onlyMoves_arraySuffix _)
  · exact onlyMoves_parenthesized moves built
  · exact onlyMoves_ofExcept _
  · exact onlyMoves_fail _

theorem onlyMoves_declaratorStep (inner : Option Ty → Parser Declarator)
    (moves : ∀ base, OnlyMoves (inner base)) (base : Option Ty) :
    OnlyMoves (declaratorStep inner base) := by
  apply onlyMoves_bind (onlyMoves_baseType base)
  intro ty
  apply onlyMoves_bind (onlyMoves_iterate onlyMoves_pointer ty)
  intro ty
  apply onlyMoves_bind onlyMoves_scanComponents
  intro components
  apply onlyMoves_bind onlyMoves_cursor
  intro stop
  apply onlyMoves_bind (onlyMoves_foldlM (onlyMoves_component moves) components _)
  intro built
  exact onlyMoves_bind_pure (onlyMoves_seek _)

theorem onlyMoves_declaratorAround (base : Option Ty) : OnlyMoves (declaratorAround base) :=
  onlyMoves_recurse onlyMoves_declaratorStep base

/-- A declarator binds no name. -/
theorem onlyMoves_declarator : OnlyMoves declarator :=
  onlyMoves_declaratorAround none

/-! ## Expressions -/

theorem onlyMoves_literal (value : Nat) (suggested : Option Ty) :
    OnlyMoves (literal value suggested) := by
  unfold literal
  split
  · exact onlyMoves_bind_pure onlyMoves_advance
  · exact onlyMoves_fail _

theorem onlyMoves_reference (spelling : String) : OnlyMoves (reference spelling) := by
  apply onlyMoves_bind (onlyMoves_findValue? _)
  intro found
  split
  · exact onlyMoves_bind_pure onlyMoves_advance
  · exact onlyMoves_fail _

theorem onlyMoves_separator (index : Nat) : OnlyMoves (separator index) := by
  unfold separator
  split
  · exact onlyMoves_expect _ _
  · exact onlyMoves_pure _

section Around

variable {inner : ExpressionParser}
  (moves : ∀ minimum suggested, OnlyMoves (inner minimum suggested))

include moves

theorem onlyMoves_cast (opening : Position) : OnlyMoves (cast inner opening) := by
  apply onlyMoves_bind onlyMoves_declarator
  intro declared
  split
  · exact onlyMoves_failAt _ _
  · apply onlyMoves_bind (onlyMoves_expect _ _)
    intro _
    apply onlyMoves_bind (moves _ _)
    intro operand
    split
    · exact onlyMoves_pure _
    · exact onlyMoves_failAt _ _

theorem onlyMoves_grouped (suggested : Option Ty) : OnlyMoves (grouped inner suggested) := by
  apply onlyMoves_bind onlyMoves_advance
  intro opening
  apply onlyMoves_bind onlyMoves_isTypeName
  intro typed
  split
  · exact onlyMoves_cast moves _
  · apply onlyMoves_bind (moves _ _)
    intro content
    exact onlyMoves_bind_pure (onlyMoves_expect _ _)

theorem onlyMoves_primary (suggested : Option Ty) : OnlyMoves (primary inner suggested) := by
  apply onlyMoves_bind onlyMoves_peek
  intro token
  split
  · exact onlyMoves_literal _ _
  · exact onlyMoves_reference _
  · exact onlyMoves_grouped moves _
  · exact onlyMoves_fail _

theorem onlyMoves_argumentsFrom (expected index : Nat) (parameters : List (Parameter Ty)) :
    OnlyMoves (argumentsFrom inner expected index parameters) := by
  induction parameters generalizing index with
  | nil => exact onlyMoves_pure _
  | cons parameter rest ih =>
    apply onlyMoves_bind (onlyMoves_check _)
    intro closed
    split
    · exact onlyMoves_fail _
    · apply onlyMoves_bind (onlyMoves_separator _)
      intro _
      apply onlyMoves_bind (moves _ _)
      intro _
      split
      · exact onlyMoves_bind_pure (ih _)
      · exact onlyMoves_failAt _ _

theorem onlyMoves_arguments (parameters : List (Parameter Ty)) :
    OnlyMoves (arguments inner parameters) := by
  apply onlyMoves_bind (onlyMoves_argumentsFrom moves _ _ _)
  intro read
  apply onlyMoves_bind (onlyMoves_check _)
  intro closed
  apply onlyMoves_bind (onlyMoves_check _)
  intro comma
  split
  · exact onlyMoves_fail _
  · exact onlyMoves_bind_pure (onlyMoves_expect _ _)

theorem onlyMoves_call (callee : Expression) : OnlyMoves (call inner callee) := by
  apply onlyMoves_bind (onlyMoves_check _)
  intro opening
  split
  · split
    · apply onlyMoves_bind onlyMoves_advance
      intro _
      exact onlyMoves_bind_pure (onlyMoves_arguments moves _)
    · exact onlyMoves_fail _
  · exact onlyMoves_pure _

theorem onlyMoves_called (suggested : Option Ty) : OnlyMoves (called inner suggested) := by
  apply onlyMoves_bind (onlyMoves_primary moves suggested)
  intro callee
  exact onlyMoves_iterate (onlyMoves_call moves) callee

theorem onlyMoves_signed (operator : UnaryOperator) (suggested : Option Ty) :
    OnlyMoves (signed inner operator suggested) := by
  apply onlyMoves_bind onlyMoves_advance
  intro token
  apply onlyMoves_bind (moves _ _)
  intro operand
  split
  · exact onlyMoves_pure _
  · exact onlyMoves_failAt _ _

theorem onlyMoves_unary (suggested : Option Ty) : OnlyMoves (unary inner suggested) := by
  apply onlyMoves_bind onlyMoves_peek
  intro token
  split
  · exact onlyMoves_signed moves _ _
  · exact onlyMoves_called moves suggested

theorem onlyMoves_extended (minimum : Nat) (left : Expression) :
    OnlyMoves (extended inner minimum left) := by
  apply onlyMoves_bind onlyMoves_peek
  intro token
  split
  · split
    · exact onlyMoves_pure _
    · apply onlyMoves_bind onlyMoves_advance
      intro _
      apply onlyMoves_bind (moves _ _)
      intro right
      split
      · exact onlyMoves_pure _
      · exact onlyMoves_failAt _ _
  · exact onlyMoves_pure _

theorem onlyMoves_climb (minimum : Nat) (suggested : Option Ty) :
    OnlyMoves (climb inner minimum suggested) := by
  apply onlyMoves_bind (onlyMoves_unary moves suggested)
  intro left
  exact onlyMoves_iterate (onlyMoves_extended moves minimum) left

end Around

/-- Climbing, with what it uses of expressions in one piece. -/
def climbing (again : Nat × Option Ty → Parser Expression) (input : Nat × Option Ty) :
    Parser Expression :=
  climb (fun minimum suggested => again (minimum, suggested)) input.1 input.2

theorem onlyMoves_climbing (again : Nat × Option Ty → Parser Expression)
    (moves : ∀ input, OnlyMoves (again input)) (input : Nat × Option Ty) :
    OnlyMoves (climbing again input) :=
  onlyMoves_climb (fun minimum suggested => moves (minimum, suggested)) input.1 input.2

/-- An expression binds no name. -/
theorem onlyMoves_expressionAbove (minimum : Nat) (suggested : Option Ty) :
    OnlyMoves (expressionAbove minimum suggested) :=
  onlyMoves_recurse onlyMoves_climbing (minimum, suggested)

theorem onlyMoves_expression (suggested : Option Ty) : OnlyMoves (expression suggested) :=
  onlyMoves_expressionAbove 0 suggested

end MiniC.Parser
