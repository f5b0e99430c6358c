/-
# MiniC.Parser.Recursion — recursion and repetition bounded by the tokens

Grammars are recursive, and what makes their parsers end is that every use of the grammar inside
itself comes after at least one more token. `recurse` and `iterate` allow for one use, or one turn,
more than there are tokens from the cursor on, which a parser that passes a token before each never
exceeds.

* `recurse body` — the parser that meets itself inside `body`.
* `iterate step` — repeats a step until it yields nothing.
* `Guarded body` — `body` uses itself only behind a token. `MiniC.Parser.Progress` and the modules
  under it show this of the three grammars.
* `recurse_eq` — where every use comes after a token, the bound does not show: `recurse body` is
  what `body` makes of `recurse body`.
* `iterate_eq` — where every turn passes a token, `iterate step` is a turn and `iterate step`
  again.
-/
import MiniC.Parser.Basic

namespace MiniC.Parser

set_option autoImplicit false

variable {ι σ α : Type}

/-- The parser that `body` makes of itself, to at most `bound` levels. -/
@[specialize] def nested (body : (ι → Parser α) → ι → Parser α) : (bound : Nat) → ι → Parser α
  | 0, _ => failAt .exhausted Position.start
  | bound + 1, input => body (nested body bound) input

/-- The parser that `body` makes of itself. -/
@[inline] def recurse (body : (ι → Parser α) → ι → Parser α) (input : ι) : Parser α := do
  nested body ((← remaining) + 1) input

/-- Repeats `step` until it yields nothing, at most `bound` times. -/
@[specialize] def repeated (step : σ → Parser (Option σ)) : (bound : Nat) → σ → Parser σ
  | 0, _ => failAt .exhausted Position.start
  | bound + 1, current => do
    match ← step current with
    | some next => repeated step bound next
    | none => return current

/-- Repeats `step` until it yields nothing. -/
@[inline] def iterate (step : σ → Parser (Option σ)) (current : σ) : Parser σ := do
  repeated step ((← remaining) + 1) current

/-! ## Where a parser leaves the cursor -/

/-- The state that a parser leaves, whether it succeeds or fails. -/
def stateAfter : EStateM.Result CompileError State α → State
  | .ok _ after => after
  | .error _ after => after

/-- In a state, both parsers do the same, and leave the cursor among the tokens and not before
`start`. -/
structure LandsAt (tokens : Array Token) (start : Nat) (state : State) (one other : Parser α) :
    Prop where
  same : one tokens state = other tokens state
  low : start ≤ (stateAfter (one tokens state)).cursor
  high : (stateAfter (one tokens state)).cursor ≤ tokens.size

/-- From `start` on, both parsers do the same, and leave the cursor among the tokens and not before
`start`. -/
def Lands (tokens : Array Token) (start : Nat) (one other : Parser α) : Prop :=
  ∀ state : State, start ≤ state.cursor → state.cursor ≤ tokens.size →
    LandsAt tokens start state one other

/-- Parsers land as others do that they come down to. -/
theorem LandsAt.of_eq {tokens : Array Token} {start : Nat} {state later : State}
    {one other one' other' : Parser α} (landsAt : LandsAt tokens start later one' other')
    (run : one tokens state = one' tokens later) (run' : other tokens state = other' tokens later) :
    LandsAt tokens start state one other := by
  obtain ⟨same, low, high⟩ := landsAt
  constructor <;> rw [run]
  · rw [run', same]
  · exact low
  · exact high

theorem lands_failAt {tokens : Array Token} {start : Nat} (fault : Fault) (position : Position) :
    Lands tokens start (failAt fault position : Parser α) (failAt fault position) :=
  fun _ low high => ⟨rfl, low, high⟩

/-! ## Recursion -/

/-- `body` uses what it is given only behind the current token. -/
def Guarded (body : (ι → Parser α) → ι → Parser α) : Prop :=
  ∀ (one other : ι → Parser α) (tokens : Array Token) (start : Nat),
    (∀ input, Lands tokens (start + 1) (one input) (other input)) →
    ∀ input, Lands tokens start (body one input) (body other input)

theorem recurse_apply (body : (ι → Parser α) → ι → Parser α) (input : ι) (tokens : Array Token)
    (state : State) :
    recurse body input tokens state =
      nested body (tokens.size - state.cursor + 1) input tokens state := rfl

/-- A bound past the number of tokens that are left is no bound. -/
theorem lands_nested {body : (ι → Parser α) → ι → Parser α} (guarded : Guarded body)
    {tokens : Array Token} {start bound other : Nat} (enough : tokens.size - start < bound)
    (otherEnough : tokens.size - start < other) (input : ι) :
    Lands tokens start (nested body bound input) (nested body other input) := by
  induction bound generalizing start other input with
  | zero => exact absurd enough (Nat.not_lt_zero _)
  | succ bound ih =>
    cases other with
    | zero => exact absurd otherEnough (Nat.not_lt_zero _)
    | succ other =>
      exact guarded _ _ tokens start
        (fun again state low high => ih (by omega) (by omega) again state low high) input

/-- What a guarded recursion does from a place on is what any sufficient bound allows. -/
theorem lands_nested_recurse {body : (ι → Parser α) → ι → Parser α} (guarded : Guarded body)
    {tokens : Array Token} {start bound : Nat} (enough : tokens.size - start < bound)
    (input : ι) : Lands tokens start (nested body bound input) (recurse body input) := by
  intro state low high
  have here : Lands tokens state.cursor (nested body bound input)
      (nested body (tokens.size - state.cursor + 1) input) :=
    lands_nested guarded (by omega) (by omega) input
  obtain ⟨same, low', high'⟩ := here state (Nat.le_refl _) high
  exact ⟨same, Nat.le_trans low low', high'⟩

theorem lands_recurse {body : (ι → Parser α) → ι → Parser α} (guarded : Guarded body)
    {tokens : Array Token} {start : Nat} (input : ι) :
    Lands tokens start (recurse body input) (recurse body input) := by
  intro state low high
  have bounded := lands_nested_recurse guarded (Nat.lt_succ_self (tokens.size - start)) input
  obtain ⟨same, low', high'⟩ := bounded state low high
  rw [same] at low' high'
  exact ⟨rfl, low', high'⟩

/-- Where every use comes after a token, `recurse body` is what `body` makes of it. -/
theorem recurse_eq {body : (ι → Parser α) → ι → Parser α} (guarded : Guarded body) (input : ι)
    {tokens : Array Token} {state : State} (within : state.cursor ≤ tokens.size) :
    recurse body input tokens state = body (recurse body) input tokens state := by
  rw [recurse_apply]
  exact (guarded _ _ tokens state.cursor
    (fun again later low high => lands_nested_recurse guarded (by omega) again later low high)
    input state (Nat.le_refl _) within).same

/-! ## Repetition -/

/-- A turn that goes on stands behind the token where it began. -/
def Advancing (step : σ → Parser (Option σ)) : Prop :=
  ∀ (current next : σ) (tokens : Array Token) (state after : State),
    state.cursor ≤ tokens.size → step current tokens state = .ok (some next) after →
    state.cursor < after.cursor ∧ after.cursor ≤ tokens.size

theorem iterate_apply (step : σ → Parser (Option σ)) (current : σ) (tokens : Array Token)
    (state : State) :
    iterate step current tokens state =
      repeated step (tokens.size - state.cursor + 1) current tokens state := rfl

/-- One turn of a bounded repetition. -/
theorem repeated_succ (step : σ → Parser (Option σ)) (bound : Nat) (current : σ)
    (tokens : Array Token) (state : State) :
    repeated step (bound + 1) current tokens state =
      match step current tokens state with
      | .ok (some next) after => repeated step bound next tokens after
      | .ok none after => .ok current after
      | .error error after => .error error after := by
  simp only [repeated, bind_apply]
  rcases step current tokens state with ⟨_ | next, after⟩ | ⟨error, after⟩ <;> rfl

/-- A bound past the number of tokens that are left is no bound. -/
theorem repeated_eq_repeated {step : σ → Parser (Option σ)} (advancing : Advancing step)
    {bound other : Nat} {current : σ} {tokens : Array Token} {state : State}
    (within : state.cursor ≤ tokens.size) (enough : tokens.size - state.cursor < bound)
    (otherEnough : tokens.size - state.cursor < other) :
    repeated step bound current tokens state = repeated step other current tokens state := by
  induction bound generalizing other current state with
  | zero => exact absurd enough (Nat.not_lt_zero _)
  | succ bound ih =>
    cases other with
    | zero => exact absurd otherEnough (Nat.not_lt_zero _)
    | succ other =>
      rw [repeated_succ, repeated_succ]
      rcases turn : step current tokens state with ⟨_ | next, after⟩ | ⟨error, after⟩
      · rfl
      · have := advancing current next tokens state after within turn
        exact ih (by omega) (by omega) (by omega)
      · rfl

/-- Where every turn passes a token, `iterate step` is a turn and `iterate step` again. -/
theorem iterate_eq {step : σ → Parser (Option σ)} (advancing : Advancing step) (current : σ)
    {tokens : Array Token} {state : State} (within : state.cursor ≤ tokens.size) :
    iterate step current tokens state =
      match step current tokens state with
      | .ok (some next) after => iterate step next tokens after
      | .ok none after => .ok current after
      | .error error after => .error error after := by
  rw [iterate_apply, repeated_succ]
  rcases turn : step current tokens state with ⟨_ | next, after⟩ | ⟨error, after⟩
  · rfl
  · have := advancing current next tokens state after within turn
    simp only [iterate_apply]
    exact repeated_eq_repeated advancing (by omega) (by omega) (by omega)
  · rfl

end MiniC.Parser
