/-
# MiniC.Proofs.Expression.Soundness — what is read is an expression

Where an expression is read without an error, the tokens that were passed are one of the grammar
with the tree that came of it, and it ends in front of a token where one ends: `derived_of_runs`.

Climbing is a loop that knows only its minimum. What it has read so far is nevertheless the left
side of whatever operator comes next: behind an operand anything may come, and behind the right side
of an operator, which was read above that operator's precedence, only one that is not tighter.
-/
import MiniC.Proofs.Declarator.Soundness
import MiniC.Proofs.Expression.Component

namespace MiniC.Parser

set_option autoImplicit false

variable {tokens : Array Token} {state after : State}

/-- No tighter operator and no parenthesis: there an expression ends. -/
theorem endsExpressionAt_iff {minimum : Nat} :
    EndsExpressionAt tokens minimum state.cursor ↔
      LooseAt tokens minimum state ∧ kindAt tokens state.cursor ≠ some (.symbol .openParen) := by
  simp only [EndsExpressionAt, LooseAt, Kind.endsExpression]
  constructor
  · rintro ⟨kind, here, ends⟩
    obtain ⟨token, there, rfl, _⟩ := kindAt_eq_some here
    simp only [Bool.and_eq_true, bne_iff_ne, Option.all_eq_true, decide_eq_true_eq] at ends
    exact ⟨⟨token, there, ends.2⟩, by simpa [here] using ends.1⟩
  · rintro ⟨⟨token, there, loose⟩, other⟩
    have here := kindAt_of_getElem? there
    refine ⟨token.kind, here, ?_⟩
    simp only [Bool.and_eq_true, bne_iff_ne, Option.all_eq_true, decide_eq_true_eq]
    exact ⟨by simpa [here] using other, loose⟩

/-- What is read above a minimum is an expression above it, up to where one ends. -/
structure Derived (tokens : Array Token) (minimum : Nat) (suggested : Option Ty) (state : State)
    (value : Expression) (after : State) : Prop where
  derives : Derives tokens state.scopes (.above minimum suggested value) state.cursor after.cursor
  ends : EndsExpressionAt tokens minimum after.cursor

/-- Every expression that the parser reads is one of the grammar. -/
structure ReadsExpressions (tokens : Array Token) (inner : ExpressionParser) : Prop where
  moves : ∀ minimum suggested, OnlyMoves (inner minimum suggested)
  derived : ∀ {minimum suggested state value after},
    Runs tokens (inner minimum suggested) state value after →
    Derived tokens minimum suggested state value after

namespace ReadsExpressions

variable {inner : ExpressionParser} (reads : ReadsExpressions tokens inner)
  {suggested : Option Ty} {value : Expression} {start : Nat}

include reads

/-! ## Operands -/

/-- What a parenthesis opens is a group, which a call may follow, or a cast, behind whose operand
none does. -/
theorem derives_grouped (opening : kindAt tokens state.cursor = some (.symbol .openParen))
    (run : Runs tokens (grouped inner suggested) state value after) :
    Derives tokens state.scopes (.called suggested value) state.cursor after.cursor ∨
      Derives tokens state.scopes (.single suggested value) state.cursor after.cursor ∧
        kindAt tokens after.cursor ≠ some (.symbol .openParen) := by
  obtain ⟨_, casting⟩ | ⟨_, untyped, between, read, closing, rfl⟩ := (runs_grouped opening).mp run
  · obtain ⟨ty, named, declaring, closing, operand, read, fits, rfl⟩ := runs_cast.mp casting
    obtain ⟨⟨base, typed, declares⟩, _, moved⟩ := runs_declarator_iff.mp declaring
    obtain ⟨derives, ends⟩ := reads.derived read
    rw [moved] at derives
    exact .inr ⟨.cast opening typed declares closing derives fits, (endsExpressionAt_iff.mp ends).2⟩
  · exact .inl (.group opening untyped (reads.derived read).derives closing)

theorem derives_primary (run : Runs tokens (primary inner suggested) state value after) :
    Derives tokens state.scopes (.called suggested value) state.cursor after.cursor ∨
      Derives tokens state.scopes (.single suggested value) state.cursor after.cursor ∧
        kindAt tokens after.cursor ≠ some (.symbol .openParen) := by
  obtain ⟨number, here, read⟩ | ⟨spelling, here, read⟩ | ⟨opening, read⟩ := runs_primary.mp run
  · obtain ⟨ty, typed, rfl, rfl⟩ := (runs_literal here).mp read
    exact .inl (.literal here typed)
  · obtain ⟨declaration, known, rfl, rfl⟩ := (runs_reference here).mp read
    exact .inl (.name here known)
  · exact reads.derives_grouped opening read

/-! ## Calls -/

theorem derives_further {expected index : Nat} {parameters : List (Parameter Ty)}
    {values : List Expression} (later : 0 < index)
    (run : Runs tokens (argumentsFrom inner expected index parameters) state values after) :
    Derives tokens state.scopes (.further parameters values) state.cursor after.cursor := by
  induction parameters generalizing index values state with
  | nil =>
    obtain ⟨rfl, rfl⟩ := runs_pure.mp run
    exact .noFurther
  | cons parameter rest ih =>
    obtain ⟨_, separated, separating, argument, between, read, fits, others, further, rfl⟩ :=
      runs_argumentsFrom_cons.mp run
    obtain ⟨rfl, _⟩ | ⟨_, comma, rfl⟩ := runs_separator.mp separating
    · exact absurd later (Nat.lt_irrefl 0)
    · have behind := ih (Nat.succ_pos index) further
      rw [(reads.moves _ _).of_runs read] at behind
      exact .nextArgument comma (reads.derived read).derives fits behind

theorem derives_argumentsFrom {expected : Nat} {parameters : List (Parameter Ty)}
    {values : List Expression}
    (run : Runs tokens (argumentsFrom inner expected 0 parameters) state values after) :
    Derives tokens state.scopes (.arguments parameters values) state.cursor after.cursor := by
  cases parameters with
  | nil =>
    obtain ⟨rfl, rfl⟩ := runs_pure.mp run
    exact .noArgument
  | cons parameter rest =>
    obtain ⟨_, separated, separating, argument, between, read, fits, others, further, rfl⟩ :=
      runs_argumentsFrom_cons.mp run
    obtain ⟨_, rfl⟩ | ⟨later, _⟩ := runs_separator.mp separating
    · have behind := reads.derives_further (Nat.succ_pos 0) further
      rw [(reads.moves _ _).of_runs read] at behind
      exact .firstArgument (reads.derived read).derives fits behind
    · exact absurd later (Nat.lt_irrefl 0)

theorem derives_call {callee next : Expression}
    (before : Derives tokens state.scopes (.called suggested callee) start state.cursor)
    (run : Runs tokens (call inner callee) state (some next) after) :
    Derives tokens state.scopes (.called suggested next) start after.cursor := by
  obtain ⟨opening, ty, parameters, values, callable, reading, same⟩ | ⟨_, impossible, _⟩ :=
    runs_call.mp run
  · cases same
    obtain ⟨between, read, closing, rfl⟩ := runs_arguments.mp reading
    exact .call before opening callable (reads.derives_argumentsFrom read) closing
  · cases impossible

/-- Calls stand behind what a call may follow, and where they end none follows. -/
theorem derives_called (run : Runs tokens (called inner suggested) state value after) :
    Derives tokens state.scopes (.single suggested value) state.cursor after.cursor ∧
      ∃ kind, kindAt tokens after.cursor = some kind ∧ kind ≠ .symbol .openParen := by
  obtain ⟨first, between, read, calls⟩ := runs_bind.mp run
  obtain ⟨last, ⟨derives, _⟩, turn⟩ := calls.iterate_induct
    (Q := fun value between =>
      (Derives tokens state.scopes (.called suggested value) state.cursor between.cursor ∨
        Derives tokens state.scopes (.single suggested value) state.cursor between.cursor ∧
          kindAt tokens between.cursor ≠ some (.symbol .openParen)) ∧
      between = { state with cursor := between.cursor })
    ⟨reads.derives_primary read, (onlyMoves_primary reads.moves _).of_runs read⟩
    fun callee next between after ⟨derives, moved⟩ turn => by
      have movedOn := (onlyMoves_call reads.moves callee).of_runs turn
      refine ⟨?_, by rw [movedOn, moved]⟩
      rcases derives with derives | ⟨_, uncalled⟩
      · have same : between.scopes = state.scopes := by rw [moved]
        rw [← same] at derives ⊢
        exact .inl (reads.derives_call derives turn)
      · obtain ⟨opening, _⟩ | ⟨_, impossible, _⟩ := runs_call.mp turn
        · exact absurd opening uncalled
        · cases impossible
  obtain ⟨_, _, _, _, _, _, impossible⟩ | ⟨other, _, rfl⟩ := runs_call.mp turn
  · cases impossible
  · refine ⟨?_, other⟩
    rcases derives with derives | ⟨derives, _⟩
    · exact .called derives
    · exact derives

/-! ## Operators -/

theorem derives_unary (run : Runs tokens (unary inner suggested) state value after) :
    Derives tokens state.scopes (.single suggested value) state.cursor after.cursor ∧
      ∃ kind, kindAt tokens after.cursor = some kind ∧ kind ≠ .symbol .openParen := by
  obtain ⟨operator, mark, signing⟩ | ⟨_, calling⟩ := runs_unary.mp run
  · obtain ⟨operand, ty, read, typed, rfl⟩ := (runs_signed mark).mp signing
    obtain ⟨derives, kind, here, ends⟩ := reads.derived read
    refine ⟨.unary mark derives typed, kind, here, ?_⟩
    rintro rfl
    cases ends
  · exact reads.derives_called calling

/-- What climbing has come to: an expression above the minimum, and a left side of any operator that
follows. -/
def Climbed (tokens : Array Token) (minimum : Nat) (suggested : Option Ty) (state : State)
    (left : Expression) (between : State) : Prop :=
  Derives tokens state.scopes (.above minimum suggested left) state.cursor between.cursor ∧
    (∀ operator : BinaryOperator,
      kindAt tokens between.cursor = some (.symbol operator.symbol) →
      Derives tokens state.scopes (.above (operator.precedence - 1) suggested left) state.cursor
        between.cursor) ∧
    kindAt tokens between.cursor ≠ some (.symbol .openParen) ∧
    between = { state with cursor := between.cursor }

theorem climbed_extended {minimum : Nat} {left next : Expression} {between : State}
    (climbed : Climbed tokens minimum suggested state left between)
    (run : Runs tokens (extended inner minimum left) between (some next) after) :
    Climbed tokens minimum suggested state next after := by
  have movedOn := (onlyMoves_extended reads.moves minimum left).of_runs run
  obtain ⟨operator, mark, tight, right, ty, read, typed, rfl⟩ := runs_extended_some.mp run
  obtain ⟨_, leftOf, _, moved⟩ := climbed
  obtain ⟨derives, kind, here, ends⟩ := reads.derived read
  rw [moved] at derives
  have extends' : ∀ lower, lower < operator.precedence → Derives tokens state.scopes
      (.above lower suggested (.binary ty operator left right left.position)) state.cursor
      after.cursor := by
    intro lower less
    exact .binary less (leftOf operator mark) mark derives typed
  refine ⟨extends' minimum tight, ?_, ?_, by rw [movedOn, moved]⟩
  · -- The operator that follows is not tighter than the one whose right side ends here.
    intro further follows
    rw [here, Option.some.injEq] at follows
    subst follows
    have pos := further.precedence_pos
    have loose : further.precedence ≤ operator.precedence := by
      simpa [Kind.endsExpression, Kind.binaryOperator?] using (Bool.and_eq_true_iff.mp ends).2
    exact extends' _ (by omega)
  · rw [here]
    rintro same
    cases Option.some.inj same
    cases ends

theorem derived_climb {minimum : Nat}
    (run : Runs tokens (climb inner minimum suggested) state value after) :
    Derived tokens minimum suggested state value after := by
  obtain ⟨first, between, read, turns⟩ := runs_bind.mp run
  obtain ⟨single, kind, here, uncalled⟩ := reads.derives_unary read
  have operand : Climbed tokens minimum suggested state first between := by
    refine ⟨.operand single, fun _ _ => .operand single, ?_,
      (onlyMoves_unary reads.moves _).of_runs read⟩
    simpa [here] using uncalled
  obtain ⟨last, ⟨derives, _, closed, _⟩, turn⟩ :=
    turns.iterate_induct (Q := Climbed tokens minimum suggested state) operand
      fun _ _ _ _ climbed turn => reads.climbed_extended climbed turn
  obtain ⟨loose, rfl⟩ := runs_extended_none.mp turn
  exact ⟨derives, endsExpressionAt_iff.mpr ⟨loose, closed⟩⟩

end ReadsExpressions

/-- What is read above a minimum is an expression above it. -/
theorem derived_of_runs {minimum : Nat} {suggested : Option Ty} {value : Expression}
    (run : Runs tokens (expressionAbove minimum suggested) state value after) :
    Derived tokens minimum suggested state value after :=
  run.recurse_induct
    (P := fun (input : Nat × Option Ty) => Derived tokens input.1 input.2)
    fun bound derived _ _ _ _ run =>
      ReadsExpressions.derived_climb
        ⟨fun minimum suggested => onlyMoves_nested onlyMoves_climbing bound (minimum, suggested),
          fun run => derived _ _ _ _ run⟩ run

end MiniC.Parser
