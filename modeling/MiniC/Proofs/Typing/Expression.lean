/-
# MiniC.Proofs.Typing.Expression — expressions are read well typed

Whatever is read as an expression under a suggested type has the type that it carries, by the rules
of `HasType`. One lemma for each function of the grammar takes this for the expressions inside it,
and `hasType_expressionAbove` closes the circle.
-/
import MiniC.Proofs.Frame
import MiniC.Proofs.Typing

namespace MiniC

set_option autoImplicit false

/-- The values in scope are those of the levels. -/
def State.Knows (state : State) (levels : Levels) : Prop :=
  state.scopes.values = levels.toNamespace

namespace Parser

variable {tokens : Array Token} {levels : Levels} {inner : ExpressionParser} {state after : State}

/-- A parser that only moves the cursor leaves what is in scope. -/
theorem OnlyMoves.knows {α : Type} {parser : Parser α} {value : α} (moves : OnlyMoves parser)
    (run : Runs tokens parser state value after) (known : state.Knows levels) :
    after.Knows levels := by
  rw [moves.of_runs run]
  exact known

/-- Every expression that the parser reads has the type that it carries. -/
def ReadsTyped (tokens : Array Token) (levels : Levels) (inner : ExpressionParser) : Prop :=
  ∀ (minimum : Nat) (suggested : Option Ty) (state after : State) (value : Expression),
    state.Knows levels → Runs tokens (inner minimum suggested) state value after →
    HasType levels suggested value value.ty

/-! ## Operands -/

theorem hasType_literal {number : Nat} {suggested : Option Ty} {value : Expression}
    (run : Runs tokens (literal number suggested) state value after) :
    HasType levels suggested value value.ty := by
  unfold literal at run
  split at run
  · next ty fits =>
    obtain ⟨rfl, integral⟩ := Option.filter_eq_some_iff.mp fits
    obtain ⟨token, _, _, done⟩ := runs_bind.mp run
    obtain ⟨rfl, _⟩ := runs_pure.mp done
    exact .integer integral
  · exact absurd run not_runs_fail

theorem hasType_reference {spelling : String} {suggested : Option Ty} {value : Expression}
    (known : state.Knows levels) (run : Runs tokens (reference spelling) state value after) :
    HasType levels suggested value value.ty := by
  obtain ⟨found, _, sought, run⟩ := runs_bind.mp run
  obtain ⟨rfl, rfl⟩ := runs_findValue?.mp sought
  split at run
  · next declaration here =>
    obtain ⟨token, _, _, done⟩ := runs_bind.mp run
    obtain ⟨rfl, _⟩ := runs_pure.mp done
    refine .name ?_
    rw [← levels.find?_toNamespace, ← known]
    exact here
  · exact absurd run not_runs_fail

theorem hasType_cast (typed : ReadsTyped tokens levels inner) {opening : Position}
    {suggested : Option Ty} {value : Expression} (known : state.Knows levels)
    (run : Runs tokens (cast inner opening) state value after) :
    HasType levels suggested value value.ty := by
  obtain ⟨declared, behind, read, run⟩ := runs_bind.mp run
  have knownBehind := onlyMoves_declarator.knows read known
  split at run
  · exact absurd run not_runs_failAt
  · obtain ⟨_, closed, closing, run⟩ := runs_bind.mp run
    have knownClosed := (onlyMoves_expect _ _).knows closing knownBehind
    obtain ⟨operand, _, operandRead, run⟩ := runs_bind.mp run
    have operandTyped := typed _ _ _ _ _ knownClosed operandRead
    split at run
    · next fits =>
      obtain ⟨rfl, _⟩ := runs_pure.mp run
      exact .cast operandTyped (by simpa [Ty.sameShape] using fits)
    · exact absurd run not_runs_failAt

theorem hasType_grouped (typed : ReadsTyped tokens levels inner) {suggested : Option Ty}
    {value : Expression} (known : state.Knows levels)
    (run : Runs tokens (grouped inner suggested) state value after) :
    HasType levels suggested value value.ty := by
  obtain ⟨opening, opened, passed, run⟩ := runs_bind.mp run
  have knownOpened := onlyMoves_advance.knows passed known
  obtain ⟨isType, looked, look, run⟩ := runs_bind.mp run
  have knownLooked := onlyMoves_isTypeName.knows look knownOpened
  split at run
  · exact hasType_cast typed knownLooked run
  · obtain ⟨content, _, read, run⟩ := runs_bind.mp run
    obtain ⟨_, _, _, done⟩ := runs_bind.mp run
    obtain ⟨rfl, _⟩ := runs_pure.mp done
    exact typed _ _ _ _ _ knownLooked read

theorem hasType_primary (typed : ReadsTyped tokens levels inner) {suggested : Option Ty}
    {value : Expression} (known : state.Knows levels)
    (run : Runs tokens (primary inner suggested) state value after) :
    HasType levels suggested value value.ty := by
  obtain ⟨token, _, looked, run⟩ := runs_bind.mp run
  obtain ⟨_, rfl⟩ := runs_peek.mp looked
  split at run
  · exact hasType_literal run
  · exact hasType_reference known run
  · exact hasType_grouped typed known run
  · exact absurd run not_runs_fail

/-! ## Calls -/

/-- One argument is read for each parameter, under the type of the parameter. -/
theorem hasType_argumentsFrom (moves : ∀ minimum suggested, OnlyMoves (inner minimum suggested))
    (typed : ReadsTyped tokens levels inner) {expected index : Nat}
    {parameters : List (Parameter Ty)} {values : List Expression} (known : state.Knows levels)
    (run : Runs tokens (argumentsFrom inner expected index parameters) state values after) :
    values.length = parameters.length ∧
      (∀ pair ∈ values.zip parameters, HasType levels (some pair.2.ty) pair.1 pair.1.ty) ∧
      ∀ pair ∈ values.zip parameters, pair.1.ty.compatible pair.2.ty := by
  induction parameters generalizing index values state after with
  | nil =>
    obtain ⟨rfl, _⟩ := runs_pure.mp run
    simp
  | cons parameter rest ih =>
    obtain ⟨closed, looked, look, run⟩ := runs_bind.mp run
    have knownLooked := (onlyMoves_check _).knows look known
    split at run
    · exact absurd run not_runs_fail
    · obtain ⟨_, separated, separation, run⟩ := runs_bind.mp run
      have knownSeparated := (onlyMoves_separator _).knows separation knownLooked
      obtain ⟨argument, behind, read, run⟩ := runs_bind.mp run
      have argumentTyped := typed _ _ _ _ _ knownSeparated read
      have knownBehind := (moves _ _).knows read knownSeparated
      split at run
      · next fits =>
        obtain ⟨others, _, othersRead, done⟩ := runs_bind.mp run
        obtain ⟨rfl, _⟩ := runs_pure.mp done
        obtain ⟨length, othersTyped, othersFit⟩ := ih knownBehind othersRead
        refine ⟨by simp [length], ?_, ?_⟩
        · intro pair member
          rcases List.mem_cons.mp member with rfl | member
          · exact argumentTyped
          · exact othersTyped pair member
        · intro pair member
          rcases List.mem_cons.mp member with rfl | member
          · exact fits
          · exact othersFit pair member
      · exact absurd run not_runs_failAt

theorem hasType_arguments (moves : ∀ minimum suggested, OnlyMoves (inner minimum suggested))
    (typed : ReadsTyped tokens levels inner) {parameters : List (Parameter Ty)}
    {values : List Expression} (known : state.Knows levels)
    (run : Runs tokens (arguments inner parameters) state values after) :
    values.length = parameters.length ∧
      (∀ pair ∈ values.zip parameters, HasType levels (some pair.2.ty) pair.1 pair.1.ty) ∧
      ∀ pair ∈ values.zip parameters, pair.1.ty.compatible pair.2.ty := by
  obtain ⟨read, _, reading, run⟩ := runs_bind.mp run
  have all := hasType_argumentsFrom moves typed known reading
  obtain ⟨_, _, _, run⟩ := runs_bind.mp run
  obtain ⟨_, _, _, run⟩ := runs_bind.mp run
  split at run
  · exact absurd run not_runs_fail
  · obtain ⟨_, _, _, done⟩ := runs_bind.mp run
    obtain ⟨rfl, _⟩ := runs_pure.mp done
    exact all

theorem eq_function_of_signature? {ty result : Ty} {parameters : List (Parameter Ty)}
    (signature : ty.signature? = some (result, parameters)) :
    ∃ tag, ty = .function tag result parameters := by
  cases ty <;>
    simp only [Ty.signature?, reduceCtorEq, Option.some.injEq, Prod.mk.injEq] at signature
  obtain ⟨rfl, rfl⟩ := signature
  exact ⟨_, rfl⟩

theorem hasType_call (moves : ∀ minimum suggested, OnlyMoves (inner minimum suggested))
    (typed : ReadsTyped tokens levels inner) {suggested : Option Ty} {callee value : Expression}
    (known : state.Knows levels) (calleeTyped : HasType levels suggested callee callee.ty)
    (run : Runs tokens (call inner callee) state (some value) after) :
    HasType levels suggested value value.ty := by
  obtain ⟨opening, looked, look, run⟩ := runs_bind.mp run
  have knownLooked := (onlyMoves_check _).knows look known
  split at run
  · split at run
    · next result parameters signature =>
      obtain ⟨_, opened, passed, run⟩ := runs_bind.mp run
      have knownOpened := onlyMoves_advance.knows passed knownLooked
      obtain ⟨read, _, reading, done⟩ := runs_bind.mp run
      obtain ⟨arity, each, fits⟩ := hasType_arguments moves typed knownOpened reading
      obtain ⟨same, _⟩ := runs_pure.mp done
      obtain ⟨tag, shape⟩ := eq_function_of_signature? signature
      cases same
      rw [shape] at calleeTyped
      exact .call calleeTyped arity each fits
    · exact absurd run not_runs_fail
  · obtain ⟨impossible, _⟩ := runs_pure.mp run
    cases impossible

theorem hasType_called (moves : ∀ minimum suggested, OnlyMoves (inner minimum suggested))
    (typed : ReadsTyped tokens levels inner) {suggested : Option Ty} {value : Expression}
    (known : state.Knows levels) (run : Runs tokens (called inner suggested) state value after) :
    HasType levels suggested value value.ty := by
  obtain ⟨callee, between, read, run⟩ := runs_bind.mp run
  have calleeTyped := hasType_primary typed known read
  have knownBetween := (onlyMoves_primary moves suggested).knows read known
  obtain ⟨last, ⟨_, valueTyped⟩, _⟩ := run.iterate_induct
    (Q := fun callee state => state.Knows levels ∧ HasType levels suggested callee callee.ty)
    ⟨knownBetween, calleeTyped⟩ (by
      rintro callee next state after ⟨known, calleeTyped⟩ turn
      have knownAfter := (onlyMoves_call moves callee).knows turn known
      exact ⟨knownAfter, hasType_call moves typed known calleeTyped turn⟩)
  exact valueTyped

/-! ## Operators -/

/-- The rules for unary operators are those that give the result. -/
theorem hasType_unaryResult {operator : UnaryOperator} {suggested : Option Ty}
    {operand : Expression} {position : Position} {ty : Ty}
    (operandTyped : HasType levels (if operator.isSign then suggested else none) operand operand.ty)
    (result : operator.result? position operand.ty = some ty) :
    HasType levels suggested (.unary ty operator operand position) ty := by
  cases operator with
  | plus | minus =>
    simp only [UnaryOperator.result?, Option.ite_none_right_eq_some, Option.some.injEq] at result
    obtain ⟨integral, rfl⟩ := result
    exact .sign rfl operandTyped integral
  | addressOf =>
    simp only [UnaryOperator.result?, Option.some.injEq] at result
    subst result
    exact .addressOf operandTyped
  | dereference =>
    have points : ∃ tag, operand.ty = .pointer tag ty := by
      cases shape : operand.ty <;>
        simp only [UnaryOperator.result?, Ty.pointee?, shape, reduceCtorEq,
          Option.some.injEq] at result
      exact ⟨_, by rw [result]⟩
    obtain ⟨tag, points⟩ := points
    rw [points] at operandTyped
    exact .dereference operandTyped

/-- The rules for binary operators are those that give the result. -/
theorem hasType_binaryResult {operator : BinaryOperator} {suggested : Option Ty}
    {left right : Expression} {position : Position} {ty : Ty}
    (leftTyped : HasType levels suggested left left.ty)
    (rightTyped : HasType levels (some left.ty) right right.ty)
    (result : operator.result? left.ty right.ty = some ty) :
    HasType levels suggested (.binary ty operator left right position) ty := by
  by_cases arithmetic : operator.isArithmetic
  · simp only [BinaryOperator.result?, arithmetic, if_true, Option.ite_none_right_eq_some,
      Bool.and_eq_true, Option.some.injEq] at result
    obtain ⟨⟨⟨integral, otherIntegral⟩, fits⟩, rfl⟩ := result
    exact .arithmetic arithmetic leftTyped rightTyped integral otherIntegral fits
  · by_cases relational : operator.isRelational
    · simp only [BinaryOperator.result?, arithmetic, relational, Bool.false_eq_true, if_false,
        if_true, Option.ite_none_right_eq_some, Bool.and_eq_true, Option.some.injEq] at result
      obtain ⟨⟨⟨integral, otherIntegral⟩, fits⟩, rfl⟩ := result
      exact .ordering relational leftTyped rightTyped integral otherIntegral fits
    · have equality : operator = .equal := by
        cases operator <;> simp_all [BinaryOperator.isArithmetic, BinaryOperator.isRelational]
      simp only [BinaryOperator.result?, arithmetic, relational, Bool.false_eq_true, if_false,
        Option.ite_none_right_eq_some, Option.some.injEq] at result
      obtain ⟨fits, rfl⟩ := result
      subst equality
      exact .equality leftTyped rightTyped fits

theorem hasType_signed (typed : ReadsTyped tokens levels inner) {operator : UnaryOperator}
    {suggested : Option Ty} {value : Expression} (known : state.Knows levels)
    (run : Runs tokens (signed inner operator suggested) state value after) :
    HasType levels suggested value value.ty := by
  obtain ⟨token, passed, passing, run⟩ := runs_bind.mp run
  have knownPassed := onlyMoves_advance.knows passing known
  obtain ⟨operand, _, read, run⟩ := runs_bind.mp run
  have operandTyped := typed _ _ _ _ _ knownPassed read
  split at run
  · next result =>
    obtain ⟨rfl, _⟩ := runs_pure.mp run
    exact hasType_unaryResult operandTyped result
  · exact absurd run not_runs_failAt

theorem hasType_unary (moves : ∀ minimum suggested, OnlyMoves (inner minimum suggested))
    (typed : ReadsTyped tokens levels inner) {suggested : Option Ty} {value : Expression}
    (known : state.Knows levels) (run : Runs tokens (unary inner suggested) state value after) :
    HasType levels suggested value value.ty := by
  obtain ⟨token, _, looked, run⟩ := runs_bind.mp run
  obtain ⟨_, rfl⟩ := runs_peek.mp looked
  split at run
  · exact hasType_signed typed known run
  · exact hasType_called moves typed known run

theorem hasType_extended (typed : ReadsTyped tokens levels inner) {minimum : Nat}
    {suggested : Option Ty} {left value : Expression} (known : state.Knows levels)
    (leftTyped : HasType levels suggested left left.ty)
    (run : Runs tokens (extended inner minimum left) state (some value) after) :
    HasType levels suggested value value.ty := by
  obtain ⟨token, _, looked, run⟩ := runs_bind.mp run
  obtain ⟨_, rfl⟩ := runs_peek.mp looked
  split at run
  · split at run
    · obtain ⟨impossible, _⟩ := runs_pure.mp run
      cases impossible
    · obtain ⟨token, passed, passing, run⟩ := runs_bind.mp run
      have knownPassed := onlyMoves_advance.knows passing known
      obtain ⟨right, _, read, run⟩ := runs_bind.mp run
      have rightTyped := typed _ _ _ _ _ knownPassed read
      split at run
      · next result =>
        obtain ⟨same, _⟩ := runs_pure.mp run
        cases same
        exact hasType_binaryResult leftTyped rightTyped result
      · exact absurd run not_runs_failAt
  · obtain ⟨impossible, _⟩ := runs_pure.mp run
    cases impossible

theorem hasType_climb (moves : ∀ minimum suggested, OnlyMoves (inner minimum suggested))
    (typed : ReadsTyped tokens levels inner) {minimum : Nat} {suggested : Option Ty}
    {value : Expression} (known : state.Knows levels)
    (run : Runs tokens (climb inner minimum suggested) state value after) :
    HasType levels suggested value value.ty := by
  obtain ⟨left, between, read, run⟩ := runs_bind.mp run
  have leftTyped := hasType_unary moves typed known read
  have knownBetween := (onlyMoves_unary moves suggested).knows read known
  obtain ⟨last, ⟨_, valueTyped⟩, _⟩ := run.iterate_induct
    (Q := fun left state => state.Knows levels ∧ HasType levels suggested left left.ty)
    ⟨knownBetween, leftTyped⟩ (by
      rintro left next state after ⟨known, leftTyped⟩ turn
      have knownAfter := (onlyMoves_extended moves minimum left).knows turn known
      exact ⟨knownAfter, hasType_extended typed known leftTyped turn⟩)
  exact valueTyped

/-! ## Expressions -/

theorem hasType_climbing {again : Nat × Option Ty → Parser Expression}
    (moves : ∀ input, OnlyMoves (again input))
    (typed : ∀ input state value after, Runs tokens (again input) state value after →
      state.Knows levels → HasType levels input.2 value value.ty)
    {input : Nat × Option Ty} {value : Expression} (known : state.Knows levels)
    (run : Runs tokens (climbing again input) state value after) :
    HasType levels input.2 value value.ty := by
  have inside : ReadsTyped tokens levels fun minimum suggested => again (minimum, suggested) := by
    intro minimum suggested state after value known run
    exact typed (minimum, suggested) state value after run known
  exact hasType_climb (fun minimum suggested => moves (minimum, suggested)) inside known run

/-- An expression has the type that it carries, whatever stands around it. -/
theorem hasType_expressionAbove {minimum : Nat} {suggested : Option Ty} {value : Expression}
    (known : state.Knows levels)
    (run : Runs tokens (expressionAbove minimum suggested) state value after) :
    HasType levels suggested value value.ty := by
  have read : Runs tokens (recurse climbing (minimum, suggested)) state value after := run
  have typed := read.recurse_induct
    (P := fun input state value _ => state.Knows levels → HasType levels input.2 value value.ty)
    (by
      intro bound typed input state value after run known
      exact hasType_climbing (onlyMoves_nested onlyMoves_climbing bound) typed known run)
  exact typed known

end Parser

end MiniC
