/-
# MiniC.Proofs.Safety — reading stays inside the tokens

Some faults guard what the rest of the parser promises: a look-up outside the tokens, a recursion
that passes its bound, a declaration without an open level, a component of a declarator that the
first pass would not have noted. No combinator recovers from a fault, so that a run which does not
end with one of them has met none on its way.

`Safe tokens start parser` says this of a parser that begins at any of the tokens from `start` on:
whether it succeeds or fails, it ends at one of the tokens from `start` on; and where it begins with
a level open, it ends with one open and without such a fault. A sequence or repetition of safe
parsers is safe, and so is a recursion whose inner uses are safe from the next token on:
`safe_bind`, `safe_iterate`, `safe_of_later`.
-/
import MiniC.Parser.Progress
import MiniC.Proofs.Lexed
import MiniC.Proofs.Scopes
import MiniC.Proofs.Success

namespace MiniC

set_option autoImplicit false

/-- The faults that guard what the rest of the parser promises. -/
def Fault.isDefensive : Fault → Bool
  | .outsideTokens | .exhausted | .noOpenScope | .notFunctionType _ | .invalidArrayLength _
  | .unreadableComponent _ | .missing _ .openingArrayLength _ => true
  | _ => false

/-- A state that reading may be in, at one of the tokens from `start` on. -/
structure State.Sound (tokens : Array Token) (start : Nat) (state : State) : Prop where
  lexed : Lexed tokens
  low : start ≤ state.cursor
  high : state.cursor < tokens.size

namespace State.Sound

variable {tokens : Array Token} {start : Nat} {state : State}

theorem here (sound : state.Sound tokens start) :
    ∃ token, tokens[state.cursor]? = some token :=
  ⟨_, Array.getElem?_eq_getElem sound.high⟩

/-- A place before is a place to count from as well. -/
theorem mono {earlier : Nat} (le : earlier ≤ start) (sound : state.Sound tokens start) :
    state.Sound tokens earlier :=
  ⟨sound.lexed, Nat.le_trans le sound.low, sound.high⟩

/-- The cursor may stand at any other of the tokens. -/
theorem seek {place index : Nat} (sound : state.Sound tokens start) (low : place ≤ index)
    (high : index < tokens.size) : State.Sound tokens place { state with cursor := index } :=
  ⟨sound.lexed, low, high⟩

/-- Behind a token other than the end of the file stands another. -/
theorem pass {token : Token} (sound : state.Sound tokens start)
    (here : tokens[state.cursor]? = some token) (more : token.kind ≠ .endOfFile) :
    State.Sound tokens (start + 1) { state with cursor := state.cursor + 1 } := by
  refine sound.seek (Nat.succ_le_succ sound.low) (sound.lexed.succ_lt_size sound.high ?_)
  rw [kindAt_of_getElem? here]
  simpa using more

/-- What is in scope and which function is open does not matter. -/
theorem inside (sound : state.Sound tokens start) (scopes : Scopes) (returnType : Option Ty) :
    State.Sound tokens start { state with scopes, returnType } :=
  ⟨sound.lexed, sound.low, sound.high⟩

end State.Sound

namespace Parser

variable {ι σ α β : Type} {tokens : Array Token} {start : Nat} {state : State}

/-- In the state the parser ends soundly, and with a level open and no defensive fault if a level is
open there. -/
structure SafeAt (tokens : Array Token) (start : Nat) (state : State) (parser : Parser α) :
    Prop where
  sound : (stateAfter (parser tokens state)).Sound tokens start
  paired : state.scopes.Paired → (stateAfter (parser tokens state)).scopes.Paired
  fault : state.scopes.Paired → ∀ error after, parser tokens state = .error error after →
    error.fault.isDefensive = false

/-- Wherever it begins soundly from `start` on, the parser is safe. -/
def Safe (tokens : Array Token) (start : Nat) (parser : Parser α) : Prop :=
  ∀ state : State, state.Sound tokens start → SafeAt tokens start state parser

/-- A parser that is safe from any place on is safe wherever it begins. -/
theorem SafeAt.mono {earlier : Nat} {parser : Parser α} (le : earlier ≤ start)
    (safe : SafeAt tokens start state parser) : SafeAt tokens earlier state parser :=
  ⟨safe.sound.mono le, safe.paired, safe.fault⟩

/-- A parser is safe if it comes down to one that is. -/
theorem SafeAt.of_eq {later : State} {parser other : Parser α}
    (safe : SafeAt tokens start later other) (opens : state.scopes.Paired → later.scopes.Paired)
    (run : parser tokens state = other tokens later) : SafeAt tokens start state parser := by
  obtain ⟨sound, paired, fault⟩ := safe
  exact ⟨by rwa [run], by rw [run]; exact paired ∘ opens, by rw [run]; exact fault ∘ opens⟩

/-- Where a safe parser succeeds, what follows begins soundly. -/
theorem SafeAt.of_runs {parser : Parser α} {value : α} {after : State}
    (safe : SafeAt tokens start state parser) (run : Runs tokens parser state value after) :
    after.Sound tokens start ∧ (state.scopes.Paired → after.scopes.Paired) := by
  obtain ⟨sound, paired, _⟩ := safe
  rw [run] at sound paired
  exact ⟨sound, paired⟩

/-! ## Composition -/

theorem safeAt_pure (sound : state.Sound tokens start) (value : α) :
    SafeAt tokens start state (pure value) := by
  refine ⟨sound, id, fun _ error after failed => ?_⟩
  cases failed

theorem safe_pure (value : α) : Safe tokens start (pure value) :=
  fun _ sound => safeAt_pure sound value

theorem safeAt_failAt (sound : state.Sound tokens start) {fault : Fault}
    (ordinary : fault.isDefensive = false) (position : Position) :
    SafeAt tokens start state (failAt fault position : Parser α) := by
  refine ⟨sound, id, fun _ error after failed => ?_⟩
  cases failed
  exact ordinary

theorem safe_failAt {fault : Fault} (ordinary : fault.isDefensive = false) (position : Position) :
    Safe tokens start (failAt fault position : Parser α) :=
  fun _ sound => safeAt_failAt sound ordinary position

/-- What follows may count on the run that led to it. -/
theorem safeAt_bind {first : Parser α} {second : α → Parser β}
    (before : SafeAt tokens start state first)
    (behind : ∀ value after, Runs tokens first state value after → after.Sound tokens start →
      SafeAt tokens start after (second value)) :
    SafeAt tokens start state (first >>= second) := by
  rcases result : first tokens state with ⟨value, after⟩ | ⟨error, after⟩
  · obtain ⟨sound, paired⟩ := before.of_runs result
    refine (behind value after result sound).of_eq paired ?_
    rw [bind_apply, result]
  · obtain ⟨sound, paired, fault⟩ := before
    have run : (first >>= second) tokens state = .error error after := by rw [bind_apply, result]
    rw [result] at sound paired
    refine ⟨by rwa [run], by rwa [run], fun opened _ _ failed => ?_⟩
    rw [run] at failed
    cases failed
    exact fault opened error after result

theorem safe_bind {first : Parser α} {second : α → Parser β} (before : Safe tokens start first)
    (behind : ∀ value, Safe tokens start (second value)) :
    Safe tokens start (first >>= second) :=
  fun state sound => safeAt_bind (before state sound) fun value after _ sound =>
    behind value after sound

/-- Where every turn passes a token, the bound of a repetition is not met. -/
theorem safe_iterate {step : σ → Parser (Option σ)} (advancing : Advancing step)
    (each : ∀ current, Safe tokens start (step current)) (current : σ) :
    Safe tokens start (iterate step current) := by
  intro state sound
  -- The induction is on the tokens that are left, which every turn that goes on makes fewer.
  induction left : tokens.size - state.cursor using Nat.strongRecOn generalizing current state with
  | ind left ih =>
    have within := Nat.le_of_lt sound.high
    have safe := each current state sound
    have turn := iterate_eq advancing current within
    rcases result : step current tokens state with ⟨_ | next, after⟩ | ⟨error, after⟩
    · obtain ⟨ended, paired⟩ := safe.of_runs result
      rw [result] at turn
      exact (safeAt_pure ended current).of_eq paired turn
    · obtain ⟨ended, paired⟩ := safe.of_runs result
      rw [result] at turn
      obtain ⟨more, _⟩ := advancing current next tokens state after within result
      have := sound.high
      exact (ih _ (by omega) next after ended rfl).of_eq paired turn
    · obtain ⟨ended, paired, fault⟩ := safe
      rw [result] at turn ended paired
      refine ⟨by rwa [turn], by rwa [turn], fun opened _ _ failed => ?_⟩
      rw [turn] at failed
      cases failed
      exact fault opened error after result

/-- What is safe from a place on if it is safe from the next one on is safe from everywhere. -/
theorem safe_of_later (parser : ι → Parser α)
    (each : ∀ start, (∀ input, Safe tokens (start + 1) (parser input)) →
      ∀ input, Safe tokens start (parser input)) (start : Nat) (input : ι) :
    Safe tokens start (parser input) := by
  induction left : tokens.size - start generalizing start input with
  | zero =>
    intro state sound
    have := sound.low
    have := sound.high
    omega
  | succ left ih => exact each start (fun input => ih (start + 1) input (by omega)) input

theorem safe_foldlM {step : β → ι → Parser β} (inputs : List ι)
    (each : ∀ current, ∀ input ∈ inputs, Safe tokens start (step current input)) (current : β) :
    Safe tokens start (inputs.foldlM step current) := by
  induction inputs generalizing current with
  | nil => exact safe_pure _
  | cons input rest ih =>
    rw [List.foldlM_cons]
    exact safe_bind (each current input List.mem_cons_self) fun next =>
      ih (fun current input member => each current input (List.mem_cons_of_mem _ member)) next

theorem safe_mapM {step : ι → Parser β} (inputs : List ι)
    (each : ∀ input, Safe tokens start (step input)) : Safe tokens start (inputs.mapM step) := by
  induction inputs with
  | nil => exact safe_pure _
  | cons input rest ih =>
    rw [List.mapM_cons]
    exact safe_bind (each input) fun _ => safe_bind ih fun _ => safe_pure _

theorem safe_forM {step : ι → Parser PUnit} (inputs : List ι)
    (each : ∀ input, Safe tokens start (step input)) : Safe tokens start (inputs.forM step) := by
  induction inputs with
  | nil => exact safe_pure _
  | cons input rest ih => exact safe_bind (each input) fun _ => ih

/-! ## The cursor -/

/-- What is read after a look at the current token may depend on it. -/
theorem safe_peek_bind {next : Token → Parser α}
    (each : ∀ token state, tokens[state.cursor]? = some token → state.Sound tokens start →
      SafeAt tokens start state (next token)) : Safe tokens start (peek >>= next) := by
  intro state sound
  obtain ⟨token, here⟩ := sound.here
  exact (each token state here sound).of_eq id (by rw [bind_apply, peek_apply here])

theorem safe_peek : Safe tokens start peek := by
  intro state sound
  obtain ⟨token, here⟩ := sound.here
  exact (safeAt_pure sound token).of_eq id (peek_apply here)

/-- What is read behind a token other than the end of the file is read from the next place on. -/
theorem safeAt_advance_bind {next : Token → Parser α} {token : Token}
    (here : tokens[state.cursor]? = some token) (more : token.kind ≠ .endOfFile)
    (sound : state.Sound tokens start) (behind : Safe tokens (start + 1) (next token)) :
    SafeAt tokens start state (advance >>= next) :=
  ((behind _ (sound.pass here more)).mono (Nat.le_succ start)).of_eq id
    (by rw [bind_apply, advance_apply here more])

theorem safe_advance : Safe tokens start advance := by
  intro state sound
  obtain ⟨token, here⟩ := sound.here
  by_cases ended : token.kind = .endOfFile
  · exact (safeAt_pure sound token).of_eq id (advance_apply_of_end here ended)
  · have passed := (sound.pass here ended).mono (Nat.le_succ start)
    exact (safeAt_pure passed token).of_eq id (advance_apply here ended)

/-- What is read behind a jump is read where it leads. -/
theorem safeAt_seek_bind {next : Unit → Parser α} {index : Nat}
    (behind : SafeAt tokens start { state with cursor := index } (next ())) :
    SafeAt tokens start state (seek index >>= next) :=
  behind.of_eq id rfl

theorem safe_fail {fault : Fault} (ordinary : fault.isDefensive = false) :
    Safe tokens start (fail fault : Parser α) :=
  safe_bind safe_peek fun _ => safe_failAt ordinary _

theorem safe_ofExcept {outcome : Except CompileError α}
    (ordinary : ∀ error, outcome = .error error → error.fault.isDefensive = false) :
    Safe tokens start (ofExcept outcome) := by
  cases outcome with
  | error error => exact safe_failAt (ordinary error rfl) _
  | ok value => exact safe_pure value

/-! ## Expecting a symbol -/

theorem safe_check (mark : Symbol) : Safe tokens start (check mark) :=
  safe_bind safe_peek fun _ => safe_pure _

theorem safe_accept (mark : Symbol) : Safe tokens start (accept mark) := by
  refine safe_bind (safe_check mark) fun found => ?_
  split
  · exact safe_bind safe_advance fun _ => safe_pure _
  · exact safe_pure _

theorem safe_expect (mark : Symbol) {place : Place} (ordinary : place ≠ .openingArrayLength) :
    Safe tokens start (expect mark place) := by
  refine safe_bind (safe_accept mark) fun found => ?_
  split
  · exact safe_pure _
  · refine safe_bind safe_peek fun token => safe_fail ?_
    cases place <;> first | rfl | exact absurd rfl ordinary

/-- What is read behind a symbol that stands there is read from the next place on. -/
theorem safeAt_expect_bind {next : Unit → Parser α} {mark : Symbol} {place : Place}
    (here : kindAt tokens state.cursor = some (.symbol mark)) (sound : state.Sound tokens start)
    (behind : Safe tokens (start + 1) (next ())) :
    SafeAt tokens start state (expect mark place >>= next) := by
  obtain ⟨token, there, kind, _⟩ := kindAt_eq_some here
  have passed : Runs tokens (expect mark place) state ()
      { state with cursor := state.cursor + 1 } := runs_expect.mpr ⟨here, rfl⟩
  refine ((behind _ (sound.pass there (by simp [kind]))).mono (Nat.le_succ start)).of_eq id ?_
  rw [bind_apply, passed]

/-- What is read behind an expected symbol is read from the next place on. -/
theorem safe_expect_bind {next : Unit → Parser α} (mark : Symbol) {place : Place}
    (ordinary : place ≠ .openingArrayLength) (behind : Safe tokens (start + 1) (next ())) :
    Safe tokens start (expect mark place >>= next) := by
  intro state sound
  by_cases here : kindAt tokens state.cursor = some (.symbol mark)
  · exact safeAt_expect_bind here sound behind
  · refine safeAt_bind (safe_expect mark ordinary state sound) fun _ _ run _ => ?_
    exact absurd (runs_expect.mp run).1 here

/-! ## Scopes and the enclosing function -/

theorem safe_findType? (name : String) : Safe tokens start (findType? name) :=
  fun _ sound => (safeAt_pure sound _).of_eq id rfl

theorem safe_findValue? (name : String) : Safe tokens start (findValue? name) :=
  fun _ sound => (safeAt_pure sound _).of_eq id rfl

theorem safe_returnType : Safe tokens start returnType :=
  fun _ sound => (safeAt_pure sound _).of_eq id rfl

/-- The scopes may be changed unless the change is refused, which is no defensive fault where a
level is open. -/
theorem safeAt_change {change : Parser Unit} {outcome : Except CompileError Scopes}
    (run : change tokens state = match outcome with
      | .ok scopes => .ok () { state with scopes }
      | .error error => .error error state)
    (paired : state.scopes.Paired → ∀ scopes, outcome = .ok scopes → scopes.Paired)
    (ordinary : state.scopes.Paired → ∀ error, outcome = .error error →
      error.fault.isDefensive = false)
    (sound : state.Sound tokens start) : SafeAt tokens start state change := by
  cases outcome with
  | error error =>
    refine ⟨by rwa [run], by rw [run]; exact id, fun opened _ _ failed => ?_⟩
    rw [run] at failed
    cases failed
    exact ordinary opened error rfl
  | ok scopes =>
    exact (safeAt_pure (sound.inside scopes state.returnType) ()).of_eq
      (fun opened => paired opened scopes rfl) run

theorem safe_declare (declaration : Declaration) : Safe tokens start (declare declaration) := by
  intro state sound
  refine safeAt_change rfl (fun paired scopes => paired.declare) (fun paired error refused => ?_)
    sound
  rw [paired.declare_fault refused]
  rfl

theorem safe_define (name : String) (ty : Ty) (position : Position) :
    Safe tokens start (define name ty position) := by
  intro state sound
  refine safeAt_change rfl (fun paired scopes => paired.define) (fun paired error refused => ?_)
    sound
  rw [paired.define_fault refused]
  rfl

theorem safe_inScope {inner : Parser α} (safe : Safe tokens start inner) :
    Safe tokens start (inScope inner) := by
  intro state sound
  obtain ⟨ended, paired, fault⟩ := safe _ (sound.inside state.scopes.push state.returnType)
  rcases result : inner tokens { state with scopes := state.scopes.push } with
      ⟨value, after⟩ | ⟨error, after⟩ <;>
    rw [result] at ended paired
  · refine (safeAt_pure (ended.inside after.scopes.pop after.returnType) value).of_eq
      (fun opened => (paired opened.push).pop) ?_
    rw [inScope, result]
    rfl
  · have run : inScope inner tokens state =
        .error error { after with scopes := after.scopes.pop } := by rw [inScope, result]
    refine ⟨by rw [run]; exact ended.inside _ _, by rw [run]; exact fun opened =>
      (paired opened.push).pop, fun opened _ _ failed => ?_⟩
    rw [run] at failed
    cases failed
    exact fault opened.push error after result

theorem safe_returning {inner : Parser α} (ty : Ty) (safe : Safe tokens start inner) :
    Safe tokens start (returning ty inner) := by
  intro state sound
  obtain ⟨ended, paired, fault⟩ := safe _ (sound.inside state.scopes (some ty))
  rcases result : inner tokens { state with returnType := some ty } with
      ⟨value, after⟩ | ⟨error, after⟩ <;>
    rw [result] at ended paired
  · refine (safeAt_pure (ended.inside after.scopes state.returnType) value).of_eq paired ?_
    rw [returning, result]
    rfl
  · have run : returning ty inner tokens state =
        .error error { after with returnType := state.returnType } := by rw [returning, result]
    refine ⟨by rw [run]; exact ended.inside _ _, by rw [run]; exact paired,
      fun opened _ _ failed => ?_⟩
    rw [run] at failed
    cases failed
    exact fault opened error after result

end Parser

end MiniC
