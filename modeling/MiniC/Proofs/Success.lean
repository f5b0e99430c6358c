/-
# MiniC.Proofs.Success — what a parser that succeeds went through

`Runs tokens parser state value after` says that the parser succeeds from the one state and leaves
the other. A parser that succeeds went through each of its parts with success, one state after the
other: for every way of putting parsers together and for every primitive, a lemma `runs_…` says
what held before and what holds after.

* `runs_bind` — a sequence passes through a state between its parts.
* `runs_expect`, `runs_accept`, `runs_inScope`, … — the primitives.
* `Runs.iterate_induct` — what the first value has and each turn keeps, the outcome of a repetition
  has.
* `stateAfter_iterate` — what each turn keeps in any case, a repetition keeps in any case.
* `Runs.recurse_induct` — what `body` hands on from the parser inside it holds of `recurse body`.
-/
import MiniC.Parser.Recursion
import MiniC.Proofs.Tokens

namespace MiniC

set_option autoImplicit false

/-- What is told of a result is told of a success. -/
theorem exists_ok_of_map_eq_some {ε α β : Type} {outcome : Except ε α} {form : α → β} {result : β}
    (found : outcome.toOption.map form = some result) :
    ∃ value, outcome = .ok value ∧ form value = result := by
  cases outcome with
  | error error => cases found
  | ok value => exact ⟨value, rfl, Option.some.inj found⟩

namespace Parser

variable {ι σ α β : Type} {tokens : Array Token} {state after : State}

/-- From `state` the parser succeeds with a value and leaves `after`. -/
def Runs (tokens : Array Token) (parser : Parser α) (state : State) (value : α) (after : State) :
    Prop :=
  parser tokens state = .ok value after

/-! ## Putting parsers together -/

theorem runs_pure {value result : α} :
    Runs tokens (pure value) state result after ↔ value = result ∧ state = after := by
  rw [Runs, pure_apply, EStateM.Result.ok.injEq]

/-- A sequence succeeds through a state between its parts. -/
theorem runs_bind {first : Parser α} {second : α → Parser β} {result : β} :
    Runs tokens (first >>= second) state result after ↔
      ∃ value between, Runs tokens first state value between ∧
        Runs tokens (second value) between result after := by
  simp only [Runs, bind_apply]
  rcases first tokens state with ⟨value, between⟩ | ⟨error, between⟩
  · constructor
    · intro run
      exact ⟨value, between, rfl, run⟩
    · rintro ⟨_, _, same, run⟩
      cases same
      exact run
  · constructor
    · intro run
      cases run
    · rintro ⟨_, _, same, _⟩
      cases same

theorem not_runs_failAt {fault : Fault} {position : Position} {result : α} :
    ¬Runs tokens (failAt fault position) state result after := by
  intro run
  cases run

theorem runs_ofExcept {outcome : Except CompileError α} {result : α} :
    Runs tokens (ofExcept outcome) state result after ↔
      outcome = .ok result ∧ state = after := by
  cases outcome with
  | error error =>
    constructor
    · intro run
      cases run
    · rintro ⟨same, _⟩
      cases same
  | ok value =>
    rw [Except.ok.injEq]
    exact runs_pure

/-! ## The cursor -/

theorem runs_peek {token : Token} :
    Runs tokens peek state token after ↔ tokens[state.cursor]? = some token ∧ state = after := by
  unfold Runs peek
  split
  · next found =>
    rw [found, EStateM.Result.ok.injEq, Option.some.injEq]
  · next found => simp [found]

theorem runs_cursor {index : Nat} :
    Runs tokens cursor state index after ↔ state.cursor = index ∧ state = after := by
  rw [Runs, cursor, EStateM.Result.ok.injEq]

theorem runs_seek {index : Nat} {result : Unit} :
    Runs tokens (seek index) state result after ↔ after = { state with cursor := index } := by
  rw [Runs, seek, EStateM.Result.ok.injEq]
  constructor
  · rintro ⟨_, rfl⟩
    rfl
  · rintro rfl
    exact ⟨rfl, rfl⟩

theorem not_runs_fail {fault : Fault} {result : α} :
    ¬Runs tokens (fail fault) state result after := by
  intro run
  obtain ⟨token, between, _, failed⟩ := runs_bind.mp run
  exact not_runs_failAt failed

/-- A token other than the end of the file is passed. -/
theorem runs_advance {token : Token} (more : kindAt tokens state.cursor ≠ some .endOfFile) :
    Runs tokens advance state token after ↔
      tokens[state.cursor]? = some token ∧ after = { state with cursor := state.cursor + 1 } := by
  rcases current : tokens[state.cursor]? with _ | found
  · simp [Runs, advance, bind_apply, peek, current]
  · have passed : found.kind ≠ .endOfFile := by
      intro ended
      rw [kindAt_of_getElem? current, ended] at more
      exact more rfl
    rw [Runs, advance_apply current passed, EStateM.Result.ok.injEq, Option.some.injEq]
    exact and_congr_right fun _ => eq_comm

/-! ## Expecting a symbol -/

/-- Looking at the current token tells whether it is the symbol. -/
theorem runs_check {mark : Symbol} {found : Bool} :
    Runs tokens (check mark) state found after ↔
      (kindAt tokens state.cursor).isSome ∧
        (found = true ↔ kindAt tokens state.cursor = some (.symbol mark)) ∧ state = after := by
  simp only [check, runs_bind, runs_peek, runs_pure]
  constructor
  · rintro ⟨token, _, ⟨here, rfl⟩, rfl, rfl⟩
    have kind := kindAt_of_getElem? here
    simp [kind]
  · rintro ⟨present, same, rfl⟩
    obtain ⟨kind, found'⟩ := Option.isSome_iff_exists.mp present
    obtain ⟨token, here, rfl, _⟩ := kindAt_eq_some found'
    refine ⟨token, state, ⟨here, rfl⟩, ?_, rfl⟩
    rw [found', Option.some.injEq] at same
    rw [Bool.eq_iff_iff, same, beq_iff_eq]

/-- The symbol is passed if it stands there, and nothing happens otherwise. -/
theorem runs_accept {mark : Symbol} {found : Bool} :
    Runs tokens (accept mark) state found after ↔
      found = true ∧ kindAt tokens state.cursor = some (.symbol mark) ∧
          after = { state with cursor := state.cursor + 1 } ∨
        found = false ∧ (∃ kind, kindAt tokens state.cursor = some kind ∧ kind ≠ .symbol mark) ∧
          after = state := by
  simp only [accept, runs_bind, runs_check]
  constructor
  · rintro ⟨_, _, ⟨present, same, rfl⟩, run⟩
    obtain ⟨kind, here⟩ := Option.isSome_iff_exists.mp present
    split at run
    · next accepted =>
      have mark := same.mp accepted
      obtain ⟨_, _, passing, done⟩ := runs_bind.mp run
      obtain ⟨_, rfl⟩ := (runs_advance (by simp [mark])).mp passing
      obtain ⟨rfl, rfl⟩ := runs_pure.mp done
      exact .inl ⟨rfl, mark, rfl⟩
    · next refused =>
      obtain ⟨rfl, rfl⟩ := runs_pure.mp run
      refine .inr ⟨rfl, ⟨kind, here, ?_⟩, rfl⟩
      rintro rfl
      exact refused (same.mpr here)
  · rintro (⟨rfl, mark, rfl⟩ | ⟨rfl, ⟨kind, here, other⟩, rfl⟩)
    · obtain ⟨token, here, _⟩ := kindAt_eq_some mark
      have passing := (runs_advance (by simp [mark])).mpr ⟨here, rfl⟩
      exact ⟨true, _, ⟨by simp [mark], by simp [mark], rfl⟩,
        runs_bind.mpr ⟨token, _, passing, rfl⟩⟩
    · exact ⟨false, _, ⟨by simp [here], by simp [here, other], rfl⟩, rfl⟩

theorem runs_expect {mark : Symbol} {place : Place} {result : Unit} :
    Runs tokens (expect mark place) state result after ↔
      kindAt tokens state.cursor = some (.symbol mark) ∧
        after = { state with cursor := state.cursor + 1 } := by
  simp only [expect, runs_bind, runs_accept]
  constructor
  · rintro ⟨_, _, ⟨rfl, mark, rfl⟩ | ⟨rfl, _, rfl⟩, run⟩
    · obtain ⟨_, rfl⟩ := runs_pure.mp run
      exact ⟨mark, rfl⟩
    · obtain ⟨_, _, _, failed⟩ := runs_bind.mp run
      exact absurd failed not_runs_fail
  · rintro ⟨mark, rfl⟩
    exact ⟨true, _, .inl ⟨rfl, mark, rfl⟩, rfl⟩

/-! ## Scopes and the enclosing function -/

theorem runs_findType? {name : String} {found : Option Ty} :
    Runs tokens (findType? name) state found after ↔
      state.scopes.findType? name = found ∧ state = after := by
  rw [Runs, findType?, EStateM.Result.ok.injEq]

theorem runs_findValue? {name : String} {found : Option Declaration} :
    Runs tokens (findValue? name) state found after ↔
      state.scopes.findValue? name = found ∧ state = after := by
  rw [Runs, findValue?, EStateM.Result.ok.injEq]

theorem runs_depth {found : Nat} :
    Runs tokens depth state found after ↔ state.scopes.depth = found ∧ state = after := by
  rw [Runs, depth, EStateM.Result.ok.injEq]

theorem runs_returnType {found : Option Ty} :
    Runs tokens returnType state found after ↔ state.returnType = found ∧ state = after := by
  rw [Runs, returnType, EStateM.Result.ok.injEq]

/-- Where the scopes are changed unless the change is refused. -/
theorem scopes_eq_ok {outcome : Except CompileError Scopes} {result : Unit} :
    (match outcome with
      | .ok scopes => EStateM.Result.ok () { state with scopes }
      | .error error => EStateM.Result.error error state) = .ok result after ↔
      ∃ scopes, outcome = .ok scopes ∧ after = { state with scopes } := by
  cases outcome with
  | error error => simp
  | ok scopes =>
    constructor
    · intro run
      cases run
      exact ⟨scopes, rfl, rfl⟩
    · rintro ⟨_, same, rfl⟩
      cases same
      rfl

theorem runs_declare {declaration : Declaration} {result : Unit} :
    Runs tokens (declare declaration) state result after ↔
      ∃ scopes, state.scopes.declare declaration = .ok scopes ∧
        after = { state with scopes } :=
  scopes_eq_ok

theorem runs_define {name : String} {ty : Ty} {position : Position} {result : Unit} :
    Runs tokens (define name ty position) state result after ↔
      ∃ scopes, state.scopes.define name ty position = .ok scopes ∧
        after = { state with scopes } :=
  scopes_eq_ok

/-- Where something is done to the state in the end, with or without an error. -/
theorem closing_eq_ok (close : State → State) {outcome : EStateM.Result CompileError State α}
    {result : α} :
    (match outcome with
      | .ok value closing => EStateM.Result.ok value (close closing)
      | .error error closing => EStateM.Result.error error (close closing)) = .ok result after ↔
      ∃ closing, outcome = .ok result closing ∧ after = close closing := by
  cases outcome with
  | error error closing => simp
  | ok value closing =>
    constructor
    · intro run
      cases run
      exact ⟨closing, rfl, rfl⟩
    · rintro ⟨_, same, rfl⟩
      cases same
      rfl

/-- What is read in a level of its own is read with that level open, which is closed after. -/
theorem runs_inScope {inner : Parser α} {result : α} :
    Runs tokens (inScope inner) state result after ↔
      ∃ closing, Runs tokens inner { state with scopes := state.scopes.push } result closing ∧
        after = { closing with scopes := closing.scopes.pop } :=
  closing_eq_ok fun closing => { closing with scopes := closing.scopes.pop }

theorem runs_returning {ty : Ty} {inner : Parser α} {result : α} :
    Runs tokens (returning ty inner) state result after ↔
      ∃ closing, Runs tokens inner { state with returnType := some ty } result closing ∧
        after = { closing with returnType := state.returnType } :=
  closing_eq_ok fun closing => { closing with returnType := state.returnType }

/-! ## Repetition and recursion -/

/-- What holds where a repetition begins and is kept by every turn that goes on holds where a turn
ends it. -/
theorem Runs.iterate_induct {step : σ → Parser (Option σ)} {Q : σ → State → Prop}
    {current result : σ} (run : Runs tokens (iterate step current) state result after)
    (holds : Q current state)
    (keeps : ∀ current next state after, Q current state →
      Runs tokens (step current) state (some next) after → Q next after) :
    ∃ last, Q result last ∧ Runs tokens (step result) last none after := by
  rw [Runs, iterate_apply] at run
  generalize tokens.size - state.cursor + 1 = bound at run
  induction bound generalizing current state with
  | zero => exact absurd run not_runs_failAt
  | succ bound ih =>
    rw [repeated_succ] at run
    rcases turn : step current tokens state with ⟨_ | next, between⟩ | ⟨error, between⟩
    · rw [turn, EStateM.Result.ok.injEq] at run
      obtain ⟨rfl, rfl⟩ := run
      exact ⟨state, holds, turn⟩
    · rw [turn] at run
      exact ih (keeps _ _ _ _ holds turn) run
    · rw [turn] at run
      cases run

/-- What every turn keeps, whether it fails, ends the repetition or goes on, a repetition keeps. -/
theorem stateAfter_iterate {step : σ → Parser (Option σ)} {Q : σ → State → Prop} {current : σ}
    (holds : Q current state)
    (keeps : ∀ current state, Q current state →
      (∀ next after, Runs tokens (step current) state next after → Q (next.getD current) after) ∧
      ∀ error after, step current tokens state = .error error after → Q current after) :
    ∃ last, Q last (stateAfter (iterate step current tokens state)) := by
  rw [iterate_apply]
  generalize tokens.size - state.cursor + 1 = bound
  induction bound generalizing current state with
  | zero => exact ⟨current, holds⟩
  | succ bound ih =>
    obtain ⟨read, failed⟩ := keeps current state holds
    rw [repeated_succ]
    rcases turn : step current tokens state with ⟨_ | next, after⟩ | ⟨error, after⟩
    · exact ⟨current, read none after turn⟩
    · exact ih (read (some next) after turn)
    · exact ⟨current, failed error after turn⟩

/-- What `body` hands on from the parser inside it holds of the parser that meets itself. -/
theorem Runs.recurse_induct {body : (ι → Parser α) → ι → Parser α}
    {P : ι → State → α → State → Prop} {input : ι} {result : α}
    (run : Runs tokens (recurse body input) state result after)
    (keeps : ∀ bound : Nat,
      (∀ input state result after, Runs tokens (nested body bound input) state result after →
        P input state result after) →
      ∀ input state result after, Runs tokens (body (nested body bound) input) state result after →
        P input state result after) :
    P input state result after := by
  rw [Runs, recurse_apply] at run
  generalize tokens.size - state.cursor + 1 = bound at run
  induction bound generalizing input state result after with
  | zero => exact absurd run not_runs_failAt
  | succ bound ih => exact keeps bound (fun _ _ _ _ inner => ih inner) _ _ _ _ run

end Parser

end MiniC
