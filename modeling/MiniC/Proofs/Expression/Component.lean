/-
# MiniC.Proofs.Expression.Component — what reading one part of an expression takes

For each function that reads a part of an expression, what stands at the cursor where it succeeds,
what it makes of that and where it leaves the cursor. Both directions are used: from the tokens to
the run and from the run to the tokens.
-/
import MiniC.Proofs.Expression.Grammar
import MiniC.Proofs.Precedence

namespace MiniC

set_option autoImplicit false

/-! ## Operators -/

theorem Kind.binaryOperator?_eq_some {kind : Kind} {operator : BinaryOperator} :
    kind.binaryOperator? = some operator ↔ kind = .symbol operator.symbol := by
  constructor
  · intro found
    cases kind with
    | symbol mark => rw [BinaryOperator.symbol_of_ofSymbol? found]
    | _ => cases found
  · rintro rfl
    exact operator.ofSymbol?_symbol

theorem Kind.unaryOperator?_eq_some {kind : Kind} {operator : UnaryOperator} :
    kind.unaryOperator? = some operator ↔ kind = .symbol operator.symbol := by
  constructor
  · intro found
    cases kind with
    | symbol mark => rw [UnaryOperator.symbol_of_ofSymbol? found]
    | _ => cases found
  · rintro rfl
    exact operator.ofSymbol?_symbol

namespace Parser

variable {tokens : Array Token} {inner : ExpressionParser} {state after : State}
  {suggested : Option Ty} {result : Expression}

/-! ## Operands -/

theorem runs_literal {number : Nat}
    (here : kindAt tokens state.cursor = some (.integer number)) :
    Runs tokens (literal number suggested) state result after ↔
      ∃ ty, suggested.filter Ty.isInteger = some ty ∧
        result = .integer ty number (placeAt tokens state.cursor) ∧
        after = { state with cursor := state.cursor + 1 } := by
  obtain ⟨token, there, _, place⟩ := kindAt_eq_some here
  have more : kindAt tokens state.cursor ≠ some .endOfFile := by simp [here]
  unfold literal
  split
  · next ty typed =>
    simp only [runs_bind, runs_advance more, runs_pure, there, Option.some.injEq, typed]
    constructor
    · rintro ⟨_, _, ⟨rfl, rfl⟩, rfl, rfl⟩
      exact ⟨ty, rfl, by rw [place], rfl⟩
    · rintro ⟨_, rfl, rfl, rfl⟩
      exact ⟨token, _, ⟨rfl, rfl⟩, by rw [place], rfl⟩
  · next untyped =>
    rw [untyped]
    exact iff_of_false not_runs_fail nofun

theorem runs_reference {spelling : String}
    (here : kindAt tokens state.cursor = some (.name spelling)) :
    Runs tokens (reference spelling) state result after ↔
      ∃ declaration, state.scopes.findValue? spelling = some declaration ∧
        result = .name declaration spelling (placeAt tokens state.cursor) ∧
        after = { state with cursor := state.cursor + 1 } := by
  obtain ⟨token, there, _, place⟩ := kindAt_eq_some here
  have more : kindAt tokens state.cursor ≠ some .endOfFile := by simp [here]
  simp only [reference, runs_bind, runs_findValue?]
  constructor
  · rintro ⟨_, _, ⟨rfl, rfl⟩, run⟩
    split at run
    · next declaration known =>
      obtain ⟨_, _, passing, done⟩ := runs_bind.mp run
      obtain ⟨again, rfl⟩ := (runs_advance more).mp passing
      obtain ⟨rfl, rfl⟩ := runs_pure.mp done
      rw [there, Option.some.injEq] at again
      exact ⟨declaration, known, by rw [← place, again], rfl⟩
    · exact absurd run not_runs_fail
  · rintro ⟨declaration, known, rfl, rfl⟩
    refine ⟨some declaration, state, ⟨known, rfl⟩, ?_⟩
    exact runs_bind.mpr ⟨token, _, (runs_advance more).mpr ⟨there, rfl⟩,
      runs_pure.mpr ⟨by rw [place], rfl⟩⟩

/-- A cast is a declarator without a name, a parenthesis and a single unary expression. -/
theorem runs_cast {opening : Position} :
    Runs tokens (cast inner opening) state result after ↔
      ∃ ty named, Runs tokens declarator state ⟨ty, none⟩ named ∧
        kindAt tokens named.cursor = some (.symbol .closeParen) ∧
        ∃ operand, Runs tokens (inner castPrecedence (some ty))
            { named with cursor := named.cursor + 1 } operand after ∧
          (ty.sameShape operand.ty || ty.size == operand.ty.size) ∧
          result = .cast ty operand opening := by
  simp only [cast, runs_bind]
  constructor
  · rintro ⟨⟨ty, name⟩, named, reading, run⟩
    split at run
    · exact absurd run not_runs_failAt
    · next unnamed =>
      obtain rfl : name = none := unnamed
      obtain ⟨_, _, shut, run⟩ := runs_bind.mp run
      obtain ⟨closing, rfl⟩ := runs_expect.mp shut
      obtain ⟨operand, _, read, run⟩ := runs_bind.mp run
      split at run
      · next fits =>
        obtain ⟨rfl, rfl⟩ := runs_pure.mp run
        exact ⟨ty, named, reading, closing, operand, read, fits, rfl⟩
      · exact absurd run not_runs_failAt
  · rintro ⟨ty, named, reading, closing, operand, read, fits, rfl⟩
    refine ⟨⟨ty, none⟩, named, reading, ?_⟩
    refine runs_bind.mpr ⟨(), _, runs_expect.mpr ⟨closing, rfl⟩, ?_⟩
    refine runs_bind.mpr ⟨operand, after, read, ?_⟩
    rw [if_pos fits]
    rfl

/-- A parenthesis opens a cast or a group, which the token behind it tells. -/
theorem runs_grouped (opening : kindAt tokens state.cursor = some (.symbol .openParen)) :
    Runs tokens (grouped inner suggested) state result after ↔
      ((∃ ty, NamesType tokens state.scopes.findType? (state.cursor + 1) ty) ∧
          Runs tokens (cast inner (placeAt tokens state.cursor))
            { state with cursor := state.cursor + 1 } result after) ∨
        (kindAt tokens (state.cursor + 1)).isSome ∧
          (¬∃ ty, NamesType tokens state.scopes.findType? (state.cursor + 1) ty) ∧
          ∃ between, Runs tokens (inner 0 suggested) { state with cursor := state.cursor + 1 }
              result between ∧
            kindAt tokens between.cursor = some (.symbol .closeParen) ∧
            after = { between with cursor := between.cursor + 1 } := by
  obtain ⟨token, here, _, place⟩ := kindAt_eq_some opening
  have more : kindAt tokens state.cursor ≠ some .endOfFile := by simp [opening]
  simp only [grouped, runs_bind, runs_advance more, runs_isTypeName]
  constructor
  · rintro ⟨_, _, ⟨again, rfl⟩, typed, _, ⟨present, types, rfl⟩, run⟩
    rw [here, Option.some.injEq] at again
    subst again
    split at run
    · next found => exact .inl ⟨types.mp found, place ▸ run⟩
    · next other =>
      obtain ⟨value, between, read, run⟩ := runs_bind.mp run
      obtain ⟨_, _, shut, done⟩ := runs_bind.mp run
      obtain ⟨closing, rfl⟩ := runs_expect.mp shut
      obtain ⟨rfl, rfl⟩ := runs_pure.mp done
      exact .inr ⟨present, mt types.mpr other, between, read, closing, rfl⟩
  · rintro (⟨typed, run⟩ | ⟨present, untyped, between, read, closing, rfl⟩)
    · have present : (kindAt tokens (state.cursor + 1)).isSome := by
        obtain ⟨_, _, named, _⟩ := typed
        simp [named]
      refine ⟨token, _, ⟨here, rfl⟩, true, _, ⟨present, iff_of_true rfl typed, rfl⟩, ?_⟩
      rw [if_pos rfl, place]
      exact run
    · refine ⟨token, _, ⟨here, rfl⟩, false, _,
        ⟨present, iff_of_false Bool.false_ne_true untyped, rfl⟩, ?_⟩
      rw [if_neg Bool.false_ne_true]
      refine runs_bind.mpr ⟨result, between, read, ?_⟩
      exact runs_bind.mpr ⟨(), _, runs_expect.mpr ⟨closing, rfl⟩, rfl⟩

/-- The first token tells what an operand without an operator is. -/
theorem runs_primary :
    Runs tokens (primary inner suggested) state result after ↔
      (∃ number, kindAt tokens state.cursor = some (.integer number) ∧
          Runs tokens (literal number suggested) state result after) ∨
        (∃ spelling, kindAt tokens state.cursor = some (.name spelling) ∧
          Runs tokens (reference spelling) state result after) ∨
        kindAt tokens state.cursor = some (.symbol .openParen) ∧
          Runs tokens (grouped inner suggested) state result after := by
  simp only [primary, runs_bind, runs_peek]
  constructor
  · rintro ⟨token, _, ⟨here, rfl⟩, run⟩
    have kind := kindAt_of_getElem? here
    split at run
    · next number same => exact .inl ⟨number, by rw [kind, same], run⟩
    · next spelling same => exact .inr (.inl ⟨spelling, by rw [kind, same], run⟩)
    · next same => exact .inr (.inr ⟨by rw [kind, same], run⟩)
    · exact absurd run not_runs_fail
  · rintro (⟨number, found, run⟩ | ⟨spelling, found, run⟩ | ⟨found, run⟩) <;>
      obtain ⟨token, here, same, _⟩ := kindAt_eq_some found <;>
      refine ⟨token, state, ⟨here, rfl⟩, ?_⟩ <;>
      rw [same] <;>
      exact run

/-! ## Calls -/

theorem runs_separator {index : Nat} {done : Unit} :
    Runs tokens (separator index) state done after ↔
      index = 0 ∧ after = state ∨
        0 < index ∧ kindAt tokens state.cursor = some (.symbol .comma) ∧
          after = { state with cursor := state.cursor + 1 } := by
  unfold separator
  split
  · next later =>
    rw [runs_expect]
    constructor
    · exact fun run => .inr ⟨later, run⟩
    · rintro (⟨rfl, _⟩ | ⟨_, run⟩)
      · exact absurd later (Nat.lt_irrefl 0)
      · exact run
  · next first =>
    rw [runs_pure]
    constructor
    · rintro ⟨_, rfl⟩
      exact .inl ⟨Nat.eq_zero_of_not_pos first, rfl⟩
    · rintro (⟨_, rfl⟩ | ⟨later, _⟩)
      · exact ⟨rfl, rfl⟩
      · exact absurd later first

/-- An argument stands where its parameter asks for one, and the arguments behind it follow. -/
theorem runs_argumentsFrom_cons {expected index : Nat} {parameter : Parameter Ty}
    {rest : List (Parameter Ty)} {values : List Expression} :
    Runs tokens (argumentsFrom inner expected index (parameter :: rest)) state values after ↔
      (∃ kind, kindAt tokens state.cursor = some kind ∧ kind ≠ .symbol .closeParen) ∧
        ∃ separated, Runs tokens (separator index) state () separated ∧
        ∃ value between, Runs tokens (inner 0 (some parameter.ty)) separated value between ∧
        value.ty.compatible parameter.ty ∧
        ∃ others, Runs tokens (argumentsFrom inner expected (index + 1) rest) between others after ∧
          values = value :: others := by
  simp only [argumentsFrom, runs_bind, runs_check]
  constructor
  · rintro ⟨closed, _, ⟨present, same, rfl⟩, run⟩
    obtain ⟨kind, here⟩ := Option.isSome_iff_exists.mp present
    split at run
    · exact absurd run not_runs_fail
    · next opened =>
      obtain ⟨_, separated, separating, run⟩ := runs_bind.mp run
      obtain ⟨value, between, read, run⟩ := runs_bind.mp run
      split at run
      · next fits =>
        obtain ⟨others, _, further, done⟩ := runs_bind.mp run
        obtain ⟨rfl, rfl⟩ := runs_pure.mp done
        refine ⟨⟨kind, here, ?_⟩, separated, separating, value, between, read, fits, others,
          further, rfl⟩
        rintro rfl
        exact opened (same.mpr here)
      · exact absurd run not_runs_failAt
  · rintro ⟨⟨kind, here, other⟩, separated, separating, value, between, read, fits, others, further,
      rfl⟩
    refine ⟨false, state, ⟨by simp [here], by simp [here, other], rfl⟩, ?_⟩
    rw [if_neg Bool.false_ne_true]
    refine runs_bind.mpr ⟨(), separated, separating, ?_⟩
    refine runs_bind.mpr ⟨value, between, read, ?_⟩
    rw [if_pos fits]
    exact runs_bind.mpr ⟨others, after, further, rfl⟩

/-- Behind the arguments stands the closing parenthesis. -/
theorem runs_arguments {parameters : List (Parameter Ty)} {values : List Expression} :
    Runs tokens (arguments inner parameters) state values after ↔
      ∃ between, Runs tokens (argumentsFrom inner parameters.length 0 parameters) state values
          between ∧
        kindAt tokens between.cursor = some (.symbol .closeParen) ∧
        after = { between with cursor := between.cursor + 1 } := by
  simp only [arguments, runs_bind, runs_check]
  constructor
  · rintro ⟨read, between, reading, closed, _, ⟨_, _, rfl⟩, comma, _, ⟨_, _, rfl⟩, run⟩
    split at run
    · exact absurd run not_runs_fail
    · obtain ⟨_, _, shut, done⟩ := runs_bind.mp run
      obtain ⟨closing, rfl⟩ := runs_expect.mp shut
      obtain ⟨rfl, rfl⟩ := runs_pure.mp done
      exact ⟨between, reading, closing, rfl⟩
  · rintro ⟨between, reading, closing, rfl⟩
    have present : (kindAt tokens between.cursor).isSome := by simp [closing]
    refine ⟨values, between, reading, true, between, ⟨present, by simp [closing], rfl⟩,
      false, between, ⟨present, by simp [closing], rfl⟩, ?_⟩
    exact runs_bind.mpr ⟨(), _, runs_expect.mpr ⟨closing, rfl⟩, rfl⟩

/-- A call is made at an opening parenthesis only. -/
theorem runs_call {callee : Expression} {next : Option Expression} :
    Runs tokens (call inner callee) state next after ↔
      (kindAt tokens state.cursor = some (.symbol .openParen) ∧
          ∃ ty parameters values, callee.ty.signature? = some (ty, parameters) ∧
            Runs tokens (arguments inner parameters) { state with cursor := state.cursor + 1 }
              values after ∧
            next = some (.call ty callee values callee.position)) ∨
        (∃ kind, kindAt tokens state.cursor = some kind ∧ kind ≠ .symbol .openParen) ∧
          next = none ∧ after = state := by
  simp only [call, runs_bind, runs_check]
  constructor
  · rintro ⟨opened, _, ⟨present, same, rfl⟩, run⟩
    obtain ⟨kind, here⟩ := Option.isSome_iff_exists.mp present
    split at run
    · next found =>
      have opening := same.mp found
      split at run
      · next ty parameters callable =>
        obtain ⟨_, _, passing, run⟩ := runs_bind.mp run
        obtain ⟨_, rfl⟩ := (runs_advance (by simp [opening])).mp passing
        obtain ⟨values, _, reading, done⟩ := runs_bind.mp run
        obtain ⟨rfl, rfl⟩ := runs_pure.mp done
        exact .inl ⟨opening, ty, parameters, values, callable, reading, rfl⟩
      · exact absurd run not_runs_fail
    · next other =>
      obtain ⟨rfl, rfl⟩ := runs_pure.mp run
      refine .inr ⟨⟨kind, here, ?_⟩, rfl, rfl⟩
      rintro rfl
      exact other (same.mpr here)
  · rintro (⟨opening, ty, parameters, values, callable, reading, rfl⟩ |
      ⟨⟨kind, here, other⟩, rfl, rfl⟩)
    · obtain ⟨token, there, _⟩ := kindAt_eq_some opening
      refine ⟨true, state, ⟨by simp [opening], by simp [opening], rfl⟩, ?_⟩
      rw [if_pos rfl, callable]
      refine runs_bind.mpr ⟨token, _, (runs_advance (by simp [opening])).mpr ⟨there, rfl⟩, ?_⟩
      exact runs_bind.mpr ⟨values, after, reading, rfl⟩
    · exact ⟨false, after, ⟨by simp [here], by simp [here, other], rfl⟩, rfl⟩

/-! ## Operators -/

theorem runs_signed {operator : UnaryOperator}
    (mark : kindAt tokens state.cursor = some (.symbol operator.symbol)) :
    Runs tokens (signed inner operator suggested) state result after ↔
      ∃ operand ty,
        Runs tokens (inner unaryPrecedence (if operator.isSign then suggested else none))
          { state with cursor := state.cursor + 1 } operand after ∧
        operator.result? (placeAt tokens state.cursor) operand.ty = some ty ∧
        result = .unary ty operator operand (placeAt tokens state.cursor) := by
  obtain ⟨token, here, _, place⟩ := kindAt_eq_some mark
  have more : kindAt tokens state.cursor ≠ some .endOfFile := by simp [mark]
  simp only [signed, runs_bind, runs_advance more, here, Option.some.injEq]
  constructor
  · rintro ⟨_, _, ⟨rfl, rfl⟩, operand, _, reading, run⟩
    rw [place] at run
    split at run
    · next ty typed =>
      obtain ⟨rfl, rfl⟩ := runs_pure.mp run
      exact ⟨operand, ty, reading, typed, rfl⟩
    · exact absurd run not_runs_failAt
  · rintro ⟨operand, ty, reading, typed, rfl⟩
    refine ⟨token, _, ⟨rfl, rfl⟩, operand, after, reading, ?_⟩
    rw [place, typed]
    rfl

theorem runs_unary :
    Runs tokens (unary inner suggested) state result after ↔
      (∃ operator : UnaryOperator, kindAt tokens state.cursor = some (.symbol operator.symbol) ∧
          Runs tokens (signed inner operator suggested) state result after) ∨
        (∃ kind, kindAt tokens state.cursor = some kind ∧ kind.unaryOperator? = none) ∧
          Runs tokens (called inner suggested) state result after := by
  simp only [unary, runs_bind, runs_peek]
  constructor
  · rintro ⟨token, _, ⟨here, rfl⟩, run⟩
    have kind := kindAt_of_getElem? here
    split at run
    · next operator found =>
      exact .inl ⟨operator, by rw [kind, Kind.unaryOperator?_eq_some.mp found], run⟩
    · next other => exact .inr ⟨⟨token.kind, kind, other⟩, run⟩
  · rintro (⟨operator, found, run⟩ | ⟨⟨kind, found, other⟩, run⟩)
    · obtain ⟨token, here, same, _⟩ := kindAt_eq_some found
      refine ⟨token, state, ⟨here, rfl⟩, ?_⟩
      rw [Kind.unaryOperator?_eq_some.mpr same]
      exact run
    · obtain ⟨token, here, rfl, _⟩ := kindAt_eq_some found
      refine ⟨token, state, ⟨here, rfl⟩, ?_⟩
      rw [other]
      exact run

/-- A tighter operator extends an operand by what is read above the operator's precedence. -/
theorem runs_extended_some {minimum : Nat} {left next : Expression} :
    Runs tokens (extended inner minimum left) state (some next) after ↔
      ∃ operator : BinaryOperator, kindAt tokens state.cursor = some (.symbol operator.symbol) ∧
        minimum < operator.precedence ∧
        ∃ right ty, Runs tokens (inner operator.precedence (some left.ty))
            { state with cursor := state.cursor + 1 } right after ∧
          operator.result? left.ty right.ty = some ty ∧
          next = .binary ty operator left right left.position := by
  simp only [extended, runs_bind, runs_peek]
  constructor
  · rintro ⟨token, _, ⟨here, rfl⟩, run⟩
    split at run
    · next operator found =>
      have mark : kindAt tokens state.cursor = some (.symbol operator.symbol) := by
        rw [kindAt_of_getElem? here, Kind.binaryOperator?_eq_some.mp found]
      split at run
      · cases (runs_pure.mp run).1
      · next tight =>
        obtain ⟨_, _, passing, run⟩ := runs_bind.mp run
        obtain ⟨_, rfl⟩ := (runs_advance (by simp [mark])).mp passing
        obtain ⟨right, _, reading, run⟩ := runs_bind.mp run
        split at run
        · next ty typed =>
          obtain ⟨same, rfl⟩ := runs_pure.mp run
          cases same
          exact ⟨operator, mark, Nat.lt_of_not_le tight, right, ty, reading, typed, rfl⟩
        · exact absurd run not_runs_failAt
    · cases (runs_pure.mp run).1
  · rintro ⟨operator, mark, tight, right, ty, reading, typed, rfl⟩
    obtain ⟨token, here, same, _⟩ := kindAt_eq_some mark
    refine ⟨token, state, ⟨here, rfl⟩, ?_⟩
    rw [Kind.binaryOperator?_eq_some.mpr same]
    dsimp only
    rw [if_neg (Nat.not_le_of_lt tight)]
    refine runs_bind.mpr ⟨token, _, (runs_advance (by simp [mark])).mpr ⟨here, rfl⟩, ?_⟩
    refine runs_bind.mpr ⟨right, after, reading, ?_⟩
    rw [typed]
    rfl

end Parser

end MiniC
