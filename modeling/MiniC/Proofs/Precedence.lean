/-
# MiniC.Proofs.Precedence — climbing reads the grammar with one level for each tier

The textbook grammar of binary operators has a level for each precedence:

* equality ::= relational {`==` relational}
* relational ::= additive {(`<` | `<=` | `>` | `>=`) additive}
* additive ::= multiplicative {(`+` | `-`) multiplicative}
* multiplicative ::= single {(`*` | `/`) single}

Every level associates to the left; its first operand gets the suggestion, and each later one the
type of what has been read so far at that level.

Climbing above a precedence is a loop that takes every tighter operator. It splits into the loop
above the next precedence and a loop for the operators of the next precedence alone, since behind an
operand read above a precedence no tighter operator is left: `climb_split`. So the climbing above
every precedence is a level around the climbing above the next one, and above the last one only
single expressions are left. That makes it a solution of the equation of the grammar, which has
only one: `lands_recurse_of_eq`.
-/
import MiniC.Proofs.Safety.Expression

namespace MiniC.Parser

set_option autoImplicit false

/-! ## The grammar -/

namespace Stratified

/-- `left` extended by one of the operators and an operand, if such an operator follows. -/
def link (operators : List BinaryOperator) (operand : Option Ty → Parser Expression)
    (left : Expression) : Parser (Option Expression) := do
  match (← peek).kind.binaryOperator? with
  | some operator =>
    if operator ∈ operators then
      let token ← advance
      let right ← operand (some left.ty)
      match operator.result? left.ty right.ty with
      | some ty => return some (.binary ty operator left right left.position)
      | none => failAt (.noBinaryOperator operator left.ty right.ty) token.position
    else return none
  | none => return none

/-- Operands with the operators of a level between them. -/
def level (operators : List BinaryOperator) (operand : Option Ty → Parser Expression)
    (suggested : Option Ty) : Parser Expression := do
  iterate (link operators operand) (← operand suggested)

section Levels

variable (single : Option Ty → Parser Expression)

def multiplicative : Option Ty → Parser Expression :=
  level [.multiply, .divide] single

def additive : Option Ty → Parser Expression :=
  level [.add, .subtract] (multiplicative single)

def relational : Option Ty → Parser Expression :=
  level [.less, .lessEqual, .greater, .greaterEqual] (additive single)

def equality : Option Ty → Parser Expression :=
  level [.equal] (relational single)

/-- The level above a precedence. Groups and arguments are read above `0`, the operands of casts and
unary operators above all precedences. -/
def above : ExpressionParser
  | 0 => equality single
  | 1 => relational single
  | 2 => additive single
  | 3 => multiplicative single
  | _ => single

end Levels

/-- A single unary expression. -/
def single (suggested : Option Ty) : Parser Expression :=
  recurse (fun again => unary (above again)) suggested

/-- An expression of the grammar. -/
def expression : Option Ty → Parser Expression :=
  equality single

end Stratified

/-! ## Recursion has one solution -/

section Solution

variable {ι α : Type} {tokens : Array Token} {start : Nat}

theorem Lands.of_eq {one other : Parser α}
    (same : ∀ state : State, state.cursor ≤ tokens.size → one tokens state = other tokens state)
    (lands : Lands tokens start one one) : Lands tokens start one other := by
  intro state low high
  obtain ⟨_, low', high'⟩ := lands state low high
  exact ⟨same state high, low', high'⟩

/-- A parser that is what a guarded body makes of it is the recursion of that body. -/
theorem lands_recurse_of_eq {body : (ι → Parser α) → ι → Parser α} (guarded : Guarded body)
    {parser : ι → Parser α}
    (fixed : ∀ input (state : State), state.cursor ≤ tokens.size →
      parser input tokens state = body parser input tokens state)
    (start : Nat) (input : ι) : Lands tokens start (parser input) (recurse body input) := by
  -- The later the start, the fewer tokens there are; past the last one there is nothing to show.
  induction left : tokens.size + 1 - start generalizing start input with
  | zero =>
    intro state low high
    omega
  | succ left ih =>
    intro state low high
    obtain ⟨same, low', high'⟩ := guarded parser (recurse body) tokens start
      (fun input => ih (start + 1) input (by omega)) input state low high
    rw [← fixed input state high] at same low' high'
    rw [← recurse_eq guarded input high] at same
    exact ⟨same, low', high'⟩

end Solution

variable {tokens : Array Token} {start : Nat} {state after : State}

/-! ## Levels do not go back -/

namespace Stratified

variable {one other : Option Ty → Parser Expression}
  (inner : ∀ suggested, Lands tokens start (one suggested) (other suggested))

include inner

theorem lands_link (operators : List BinaryOperator) (left : Expression) :
    Lands tokens start (link operators one left) (link operators other left) := by
  refine lands_bind lands_peek fun token => ?_
  split
  · split
    · refine lands_bind lands_advance fun passed => lands_bind (inner _) fun right => ?_
      split
      · exact lands_pure _
      · exact lands_failAt _ _
    · exact lands_pure _
  · exact lands_pure _

theorem lands_level (operators : List BinaryOperator) (suggested : Option Ty) :
    Lands tokens start (level operators one suggested) (level operators other suggested) :=
  lands_bind (inner suggested) fun _ => lands_iterate (lands_link inner operators) _

theorem lands_above (minimum : Nat) (suggested : Option Ty) :
    Lands tokens start (above one minimum suggested) (above other minimum suggested) := by
  have products := lands_level inner [.multiply, .divide]
  have sums := lands_level products [.add, .subtract]
  have comparisons := lands_level sums [.less, .lessEqual, .greater, .greaterEqual]
  match minimum with
  | 0 => exact lands_level comparisons [.equal] suggested
  | 1 => exact comparisons suggested
  | 2 => exact sums suggested
  | 3 => exact products suggested
  | _ + 4 => exact inner suggested

omit inner in
theorem guarded_unary :
    Guarded fun (again : Option Ty → Parser Expression) => unary (above again) :=
  fun _ _ _ _ inner suggested => lands_unary (lands_above inner) suggested

omit inner in
/-- A single expression is what the levels around single expressions make it. -/
theorem single_eq (suggested : Option Ty) (within : state.cursor ≤ tokens.size) :
    single suggested tokens state = unary (above single) suggested tokens state :=
  recurse_eq guarded_unary suggested within

end Stratified

/-! ## Operators that follow -/

/-- No operator that binds tighter than the minimum stands there. -/
def LooseAt (tokens : Array Token) (minimum : Nat) (state : State) : Prop :=
  ∃ token, tokens[state.cursor]? = some token ∧
    ∀ operator, token.kind.binaryOperator? = some operator → operator.precedence ≤ minimum

/-- What stands there is a tighter operator or is not. -/
theorem looseAt_or_tight {token : Token} (here : tokens[state.cursor]? = some token)
    (minimum : Nat) :
    LooseAt tokens minimum state ∨
      ∃ operator, token.kind.binaryOperator? = some operator ∧ minimum < operator.precedence := by
  rcases found : token.kind.binaryOperator? with _ | operator
  · exact .inl ⟨token, here, fun _ same => by rw [found] at same; cases same⟩
  · rcases Nat.lt_or_ge minimum operator.precedence with tight | loose
    · exact .inr ⟨operator, rfl, tight⟩
    · refine .inl ⟨token, here, fun other same => ?_⟩
      rw [found, Option.some.injEq] at same
      exact same ▸ loose

/-- An operand is left as it is where no tighter operator follows. -/
theorem runs_extended_none {inner : ExpressionParser} {minimum : Nat} {left : Expression} :
    Runs tokens (extended inner minimum left) state none after ↔
      LooseAt tokens minimum state ∧ state = after := by
  constructor
  · intro run
    obtain ⟨token, _, looked, run⟩ := runs_bind.mp run
    obtain ⟨here, rfl⟩ := runs_peek.mp looked
    split at run
    · next operator found =>
      split at run
      · next loose =>
        refine ⟨⟨token, here, fun other same => ?_⟩, (runs_pure.mp run).2⟩
        rw [found, Option.some.injEq] at same
        exact same ▸ loose
      · obtain ⟨_, _, _, run⟩ := runs_bind.mp run
        obtain ⟨right, _, _, run⟩ := runs_bind.mp run
        split at run
        · cases (runs_pure.mp run).1
        · exact absurd run not_runs_failAt
    · next found =>
      refine ⟨⟨token, here, fun other same => ?_⟩, (runs_pure.mp run).2⟩
      rw [found] at same
      cases same
  · rintro ⟨⟨token, here, loose⟩, rfl⟩
    refine runs_bind.mpr ⟨token, state, runs_peek.mpr ⟨here, rfl⟩, ?_⟩
    split
    · next operator found =>
      rw [if_pos (loose operator found)]
      rfl
    · rfl

/-- Behind an expression above a minimum stands no operator that binds tighter. -/
theorem looseAt_of_runs {minimum : Nat} {suggested : Option Ty} {value : Expression}
    (run : Runs tokens (expressionAbove minimum suggested) state value after)
    (within : state.cursor ≤ tokens.size) : LooseAt tokens minimum after := by
  rw [Runs, expressionAbove_eq minimum suggested within] at run
  obtain ⟨operand, _, _, repeated⟩ := runs_bind.mp run
  obtain ⟨last, _, stopping⟩ := repeated.iterate_induct (Q := fun _ _ => True) trivial
    fun _ _ _ _ _ _ => trivial
  obtain ⟨loose, rfl⟩ := runs_extended_none.mp stopping
  exact loose

/-- No operator binds tighter than four. -/
theorem looseAt_of_four_le {minimum : Nat} (tight : 4 ≤ minimum)
    (within : state.cursor < tokens.size) : LooseAt tokens minimum state := by
  refine ⟨_, Array.getElem?_eq_getElem within, fun operator _ => ?_⟩
  exact Nat.le_trans (Nat.le_of_lt_succ operator.precedence_lt_unaryPrecedence) tight

/-! ## Turns of the loops -/

section Turns

variable {inner : ExpressionParser} {operators : List BinaryOperator}
  {operand : Option Ty → Parser Expression} {minimum : Nat} {token : Token}
  {operator : BinaryOperator}

/-- Whether an operator binds tighter than one minimum or another does not matter once it does. -/
theorem extended_eq_extended (here : tokens[state.cursor]? = some token)
    (found : token.kind.binaryOperator? = some operator) {other : Nat}
    (tight : minimum < operator.precedence) (otherTight : other < operator.precedence)
    (left : Expression) :
    extended inner minimum left tokens state = extended inner other left tokens state := by
  simp only [extended, bind_apply, peek_apply here, found, if_neg (Nat.not_le_of_lt tight),
    if_neg (Nat.not_le_of_lt otherTight)]

/-- An operator of the level is taken as climbing takes it. -/
theorem link_eq_extended (here : tokens[state.cursor]? = some token)
    (found : token.kind.binaryOperator? = some operator) (member : operator ∈ operators)
    (tight : minimum < operator.precedence) (left : Expression) :
    Stratified.link operators (inner operator.precedence) left tokens state =
      extended inner minimum left tokens state := by
  have tighter : ¬operator.precedence ≤ minimum := Nat.not_le_of_lt tight
  simp only [extended, Stratified.link, bind_apply, peek_apply here, found]
  exact (congrFun (congrFun (if_pos member) tokens) state).trans
    (congrFun (congrFun (if_neg tighter) tokens) state).symm

/-- An operator of another level is left, as anything else is. -/
theorem runs_link_none (here : tokens[state.cursor]? = some token)
    (others : ∀ operator, token.kind.binaryOperator? = some operator → operator ∉ operators)
    (left : Expression) :
    Runs tokens (Stratified.link operators operand left) state none state := by
  refine runs_bind.mpr ⟨token, state, runs_peek.mpr ⟨here, rfl⟩, ?_⟩
  split
  · next operator found =>
    rw [if_neg (others operator found)]
    rfl
  · rfl

/-- A level goes on behind an operand of its own. -/
theorem runs_link_some {left next : Expression}
    (run : Runs tokens (Stratified.link operators operand left) state (some next) after) :
    ∃ token operator, tokens[state.cursor]? = some token ∧
      token.kind.binaryOperator? = some operator ∧ ∃ right,
        Runs tokens (operand (some left.ty)) { state with cursor := state.cursor + 1 } right
          after := by
  obtain ⟨token, _, looked, run⟩ := runs_bind.mp run
  obtain ⟨here, rfl⟩ := runs_peek.mp looked
  split at run
  · next operator found =>
    split at run
    · have more := Kind.ne_endOfFile_of_binaryOperator? found
      obtain ⟨_, _, passing, run⟩ := runs_bind.mp run
      obtain ⟨_, rfl⟩ := (runs_advance (by simpa [kindAt_of_getElem? here] using more)).mp passing
      obtain ⟨right, _, reading, run⟩ := runs_bind.mp run
      split at run
      · obtain ⟨_, rfl⟩ := runs_pure.mp run
        exact ⟨token, operator, here, found, right, reading⟩
      · exact absurd run not_runs_failAt
    · cases (runs_pure.mp run).1
  · cases (runs_pure.mp run).1

end Turns

/-- An operator that a level takes is passed. -/
theorem advancing_link (operators : List BinaryOperator) (minimum : Nat) :
    Advancing (Stratified.link operators (expressionAbove minimum)) := by
  intro left next tokens state after within run
  obtain ⟨_, _, here, _, right, reading⟩ := runs_link_some run
  have inside : state.cursor < tokens.size := (Array.getElem?_eq_some_iff.mp here).1
  obtain ⟨less, high⟩ := consumes_expressionAbove minimum _
    { state with cursor := state.cursor + 1 } inside right after reading
  exact ⟨Nat.lt_of_succ_lt less, high⟩

/-! ## Splitting the loop -/

theorem iterate_extended_of_loose {minimum : Nat} (loose : LooseAt tokens minimum state)
    (left : Expression) :
    iterate (extended expressionAbove minimum) left tokens state = .ok left state := by
  have within : state.cursor ≤ tokens.size := by
    obtain ⟨token, here, _⟩ := loose
    exact Nat.le_of_lt (Array.getElem?_eq_some_iff.mp here).1
  have turn : extended expressionAbove minimum left tokens state = .ok none state :=
    runs_extended_none.mpr ⟨loose, rfl⟩
  rw [iterate_eq (advancing_extended minimum) left within, turn]

/-- Behind a turn of a level no tighter operator is left. -/
theorem looseAt_of_link {operators : List BinaryOperator} {minimum : Nat} {left next : Expression}
    (run : Runs tokens (Stratified.link operators (expressionAbove minimum) left) state (some next)
      after) : LooseAt tokens minimum after := by
  obtain ⟨_, _, here, _, right, reading⟩ := runs_link_some run
  have inside : state.cursor < tokens.size := (Array.getElem?_eq_some_iff.mp here).1
  exact looseAt_of_runs reading inside

/-- The climbing above a precedence, and the operators of a looser level behind it. -/
def twoLoops (operators : List BinaryOperator) (minimum : Nat) (left : Expression) :
    Parser Expression := do
  iterate (Stratified.link operators (expressionAbove minimum))
    (← iterate (extended expressionAbove minimum) left)

/-- Where no tighter operator follows, only the level is left. -/
theorem twoLoops_of_loose {operators : List BinaryOperator} {minimum : Nat}
    (loose : LooseAt tokens minimum state) (left : Expression) :
    twoLoops operators minimum left tokens state =
      iterate (Stratified.link operators (expressionAbove minimum)) left tokens state := by
  rw [twoLoops, bind_apply, iterate_extended_of_loose loose]

section Split

variable {minimum : Nat} {operators : List BinaryOperator} {token : Token}
  {operator : BinaryOperator} {left : Expression}

/-- Neither loop takes what does not bind tighter than the level above. -/
theorem climb_split_of_loose
    (tier : ∀ operator, operator ∈ operators ↔ operator.precedence = minimum + 1)
    (within : state.cursor ≤ tokens.size) (loose : LooseAt tokens minimum state) :
    iterate (extended expressionAbove minimum) left tokens state =
      twoLoops operators (minimum + 1) left tokens state := by
  obtain ⟨token, here, binds⟩ := id loose
  have untaken : ∀ operator, token.kind.binaryOperator? = some operator →
      operator ∉ operators := by
    intro operator found member
    have := binds operator found
    have := (tier operator).mp member
    omega
  have looser : LooseAt tokens (minimum + 1) state :=
    ⟨token, here, fun operator found => Nat.le_succ_of_le (binds operator found)⟩
  rw [iterate_extended_of_loose loose, twoLoops_of_loose looser,
    iterate_eq (advancing_link operators (minimum + 1)) left within,
    runs_link_none here untaken left]

/-- An operator of the level leaves no tighter one behind its operand. -/
theorem climb_split_of_member (member : operator ∈ operators)
    (same : minimum + 1 = operator.precedence) (within : state.cursor ≤ tokens.size)
    (here : tokens[state.cursor]? = some token)
    (found : token.kind.binaryOperator? = some operator)
    (further : ∀ next after,
      Runs tokens (extended expressionAbove minimum left) state (some next) after →
      iterate (extended expressionAbove minimum) next tokens after =
        twoLoops operators (minimum + 1) next tokens after) :
    iterate (extended expressionAbove minimum) left tokens state =
      twoLoops operators (minimum + 1) left tokens state := by
  have looser : LooseAt tokens (minimum + 1) state := by
    refine ⟨token, here, fun other again => ?_⟩
    rw [found, Option.some.injEq] at again
    exact again ▸ Nat.le_of_eq same.symm
  have turn : Stratified.link operators (expressionAbove (minimum + 1)) left tokens state =
      extended expressionAbove minimum left tokens state := by
    rw [same]
    exact link_eq_extended here found member (Nat.lt_of_succ_le (Nat.le_of_eq same)) left
  rw [iterate_eq (advancing_extended minimum) left within, twoLoops_of_loose looser,
    iterate_eq (advancing_link operators (minimum + 1)) left within, turn]
  rcases result : extended expressionAbove minimum left tokens state with
    ⟨_ | next, after⟩ | ⟨error, after⟩
  · rfl
  · rw [result] at turn
    simp only [further next after result, twoLoops_of_loose (looseAt_of_link turn)]
  · rfl

/-- A tighter operator is taken by the loop above the level. -/
theorem climb_split_of_tighter (above : minimum + 1 < operator.precedence)
    (within : state.cursor ≤ tokens.size) (here : tokens[state.cursor]? = some token)
    (found : token.kind.binaryOperator? = some operator)
    (further : ∀ next after,
      Runs tokens (extended expressionAbove minimum left) state (some next) after →
      iterate (extended expressionAbove minimum) next tokens after =
        twoLoops operators (minimum + 1) next tokens after) :
    iterate (extended expressionAbove minimum) left tokens state =
      twoLoops operators (minimum + 1) left tokens state := by
  have turn : extended expressionAbove minimum left tokens state =
      extended expressionAbove (minimum + 1) left tokens state :=
    extended_eq_extended here found (Nat.lt_of_succ_lt above) above left
  rw [iterate_eq (advancing_extended minimum) left within, twoLoops, bind_apply,
    iterate_eq (advancing_extended (minimum + 1)) left within, turn]
  rcases result : extended expressionAbove (minimum + 1) left tokens state with
    ⟨_ | next, after⟩ | ⟨error, after⟩
  · obtain ⟨⟨_, there, binds⟩, _⟩ := runs_extended_none.mp result
    obtain rfl := Option.some.inj (here.symm.trans there)
    exact absurd above (Nat.not_lt_of_le (binds operator found))
  · simp only [further next after (turn.trans result), twoLoops, bind_apply]
  · rfl

/-- Taking every operator above a precedence is taking those above the next one, and then taking
those of the next one with the tighter ones behind each. -/
theorem climb_split
    (tier : ∀ operator, operator ∈ operators ↔ operator.precedence = minimum + 1)
    (left : Expression) (within : state.cursor ≤ tokens.size) :
    iterate (extended expressionAbove minimum) left tokens state =
      twoLoops operators (minimum + 1) left tokens state := by
  -- The induction is on the tokens that are left; each case is a turn of one of the loops.
  induction rest : tokens.size - state.cursor using Nat.strongRecOn generalizing left state with
  | ind rest ih =>
    have further : ∀ next after,
        Runs tokens (extended expressionAbove minimum left) state (some next) after →
        iterate (extended expressionAbove minimum) next tokens after =
          twoLoops operators (minimum + 1) next tokens after := by
      intro next after run
      obtain ⟨more, high⟩ := advancing_extended minimum left next tokens state after within run
      exact ih _ (by omega) next high rfl
    rcases here : tokens[state.cursor]? with _ | token
    · rw [iterate_eq (advancing_extended minimum) left within, twoLoops, bind_apply,
        iterate_eq (advancing_extended (minimum + 1)) left within]
      simp [extended, bind_apply, peek, here]
    · rcases looseAt_or_tight here minimum with loose | ⟨operator, found, tight⟩
      · exact climb_split_of_loose tier within loose
      · rcases Nat.eq_or_lt_of_le (Nat.succ_le_of_lt tight) with same | above
        · exact climb_split_of_member ((tier operator).mpr same.symm) same within here found
            further
        · exact climb_split_of_tighter above within here found further

end Split

/-! ## Climbing is the grammar -/

/-- Climbing above a precedence is a level around the climbing above the next one. -/
theorem expressionAbove_eq_level {minimum : Nat} {operators : List BinaryOperator}
    (tier : ∀ operator, operator ∈ operators ↔ operator.precedence = minimum + 1)
    (suggested : Option Ty) (within : state.cursor ≤ tokens.size) :
    expressionAbove minimum suggested tokens state =
      Stratified.level operators (expressionAbove (minimum + 1)) suggested tokens state := by
  rw [Stratified.level, bind_apply, expressionAbove_eq minimum suggested within,
    expressionAbove_eq (minimum + 1) suggested within, climb, climb, bind_apply, bind_apply]
  rcases read : unary expressionAbove suggested tokens state with
    ⟨operand, between⟩ | ⟨error, between⟩
  · obtain ⟨_, high⟩ := (lands_unary (fun _ _ => lands_expressionAbove _ _) suggested).le_cursor
      within read
    simp only [climb_split tier operand high, twoLoops, bind_apply]
  · rfl

/-- Above all precedences only a single expression is read. -/
theorem expressionAbove_eq_unary (lexed : Lexed tokens) {minimum : Nat} (tight : 4 ≤ minimum)
    (suggested : Option Ty) (within : state.cursor ≤ tokens.size) :
    expressionAbove minimum suggested tokens state =
      unary expressionAbove suggested tokens state := by
  rw [expressionAbove_eq minimum suggested within, climb, bind_apply]
  rcases read : unary expressionAbove suggested tokens state with
    ⟨operand, between⟩ | ⟨error, between⟩
  · have inside : state.cursor < tokens.size := by
      obtain ⟨_, _, looked, _⟩ := runs_bind.mp read
      exact (Array.getElem?_eq_some_iff.mp (runs_peek.mp looked).1).1
    -- Behind the operand there is a token, be it the end of the file.
    obtain ⟨⟨_, _, high⟩, _⟩ := (safe_unary (fun _ _ => safe_expressionAbove _ _) suggested state
      ⟨lexed, Nat.le_refl _, inside⟩).of_runs read
    exact iterate_extended_of_loose (looseAt_of_four_le tight high) operand
  · rfl

namespace Stratified

theorem lands_expressionAbove_level {minimum : Nat} {operators : List BinaryOperator}
    (tier : ∀ operator, operator ∈ operators ↔ operator.precedence = minimum + 1)
    {operand : Option Ty → Parser Expression}
    (tighter : ∀ suggested,
      Lands tokens start (expressionAbove (minimum + 1) suggested) (operand suggested))
    (suggested : Option Ty) :
    Lands tokens start (expressionAbove minimum suggested) (level operators operand suggested) := by
  intro state low high
  obtain ⟨same, low', high'⟩ := lands_level tighter operators suggested state low high
  rw [← expressionAbove_eq_level tier suggested high] at same low' high'
  exact ⟨same, low', high'⟩

/-- Climbing is the grammar around the climbing above all precedences. -/
theorem lands_expressionAbove_above (lexed : Lexed tokens) (minimum : Nat)
    (suggested : Option Ty) :
    Lands tokens start (expressionAbove minimum suggested)
      (above (expressionAbove unaryPrecedence) minimum suggested) := by
  have single : ∀ minimum suggested, 4 ≤ minimum → Lands tokens start
      (expressionAbove minimum suggested) (expressionAbove unaryPrecedence suggested) := by
    intro minimum suggested tight
    refine (lands_expressionAbove _ _).of_eq fun state within => ?_
    rw [expressionAbove_eq_unary lexed tight suggested within,
      expressionAbove_eq_unary lexed (by decide) suggested within]
  have products : ∀ suggested, Lands tokens start (expressionAbove 3 suggested)
      (multiplicative (expressionAbove unaryPrecedence) suggested) :=
    lands_expressionAbove_level (by intro operator; cases operator <;> decide)
      fun suggested => single 4 suggested (Nat.le_refl 4)
  have sums : ∀ suggested, Lands tokens start (expressionAbove 2 suggested)
      (additive (expressionAbove unaryPrecedence) suggested) :=
    lands_expressionAbove_level (by intro operator; cases operator <;> decide) products
  have comparisons : ∀ suggested, Lands tokens start (expressionAbove 1 suggested)
      (relational (expressionAbove unaryPrecedence) suggested) :=
    lands_expressionAbove_level (by intro operator; cases operator <;> decide) sums
  match minimum with
  | 0 =>
    exact lands_expressionAbove_level (by intro operator; cases operator <;> decide) comparisons
      suggested
  | 1 => exact comparisons suggested
  | 2 => exact sums suggested
  | 3 => exact products suggested
  | minimum + 4 => exact single (minimum + 4) suggested (Nat.le_add_left 4 minimum)

/-- The climbing above all precedences solves the equation of single expressions. -/
theorem lands_single (lexed : Lexed tokens) (suggested : Option Ty) :
    Lands tokens start (expressionAbove unaryPrecedence suggested) (single suggested) := by
  refine lands_recurse_of_eq guarded_unary (fun suggested state within => ?_) start suggested
  rw [expressionAbove_eq_unary lexed (by decide) suggested within]
  exact (lands_unary (fun minimum suggested => lands_expressionAbove_above lexed minimum suggested)
    suggested state (Nat.le_refl _) within).same

end Stratified

/-- Wherever it begins, climbing reads what the grammar reads, with the same types, errors and
cursor. -/
theorem expression_eq_stratified (lexed : Lexed tokens) (within : state.cursor ≤ tokens.size)
    (suggested : Option Ty) :
    expression suggested tokens state = Stratified.expression suggested tokens state := by
  have climbing := Stratified.lands_expressionAbove_above lexed 0 suggested state (Nat.le_refl _)
    within
  have single := Stratified.lands_above (Stratified.lands_single lexed) 0 suggested state
    (Nat.le_refl _) within
  exact climbing.same.trans single.same

theorem expression_eq_stratified_mixed :
    ∃ tokens value after,
      tokensOf "2 * -(3 + 4) - 5 < 6 / (int32) 7 * 8" = .ok tokens ∧ Lexed tokens.toArray ∧
      State.initial.cursor ≤ tokens.toArray.size ∧ value.ty.describe = "bool" ∧
      Stratified.expression (some (Ty.builtin (.integer 32 true))) tokens.toArray State.initial =
        .ok value after := by
  have outcome : ((tokensOf "2 * -(3 + 4) - 5 < 6 / (int32) 7 * 8").toOption.map fun tokens =>
      match expression (some (Ty.builtin (.integer 32 true))) tokens.toArray State.initial with
      | .ok value _ => some value.ty.describe
      | .error .. => none) = some (some "bool") := by
    decide +kernel
  obtain ⟨tokens, found, described⟩ := exists_ok_of_map_eq_some outcome
  have lexed := lexed_of_tokensOf found
  have same : expression (some (Ty.builtin (.integer 32 true))) tokens.toArray State.initial =
      Stratified.expression (some (Ty.builtin (.integer 32 true))) tokens.toArray State.initial :=
    expression_eq_stratified lexed (Nat.zero_le _) _
  rcases read : expression (some (Ty.builtin (.integer 32 true))) tokens.toArray State.initial
    with ⟨value, after⟩ | ⟨error, after⟩
  · rw [read] at described same
    exact ⟨tokens, value, after, found, lexed, Nat.zero_le _, Option.some.inj described, same.symm⟩
  · rw [read] at described
    cases described

end MiniC.Parser
