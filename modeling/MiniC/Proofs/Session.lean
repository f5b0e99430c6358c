/-
# MiniC.Proofs.Session — reading a source in calls

A session may be called any number of times, and a call that fails leaves it where the error was
found. `Session.after_induct`: what holds at the beginning and is kept by every reading of the
tokens, whether it succeeds or fails, holds after any number of calls.

* `Lexed.readsInside` — from any token on, reading stays inside the tokens, never runs out of its
  bounds and takes a token for every statement. The scan of a declarator closes only what it opened.
* `Session.advances_after` — so every call of every session ends, at one of the tokens from where
  it began on; one without an error ends at the end of the file, behind which nothing is read.
-/
import MiniC.Proofs.Safety.Statement
import MiniC.Proofs.Typing.Statement

namespace MiniC

set_option autoImplicit false

/-! ## Calls -/

namespace Session

/-- The session after a number of calls, failed ones included. -/
def after (session : Session) : (calls : Nat) → Session
  | 0 => session
  | calls + 1 => (session.after calls).parseFile.2

variable {session : Session}

theorem start_eq_ok {path source : String} (started : start path source = .ok session) :
    ∃ tokens, tokensOf source = .ok tokens ∧
      session = ⟨path, tokens.toArray, State.initial⟩ := by
  rcases found : tokensOf source with error | tokens
  · simp [start, found, Except.map] at started
  · simp only [start, found, Except.map, Except.ok.injEq] at started
    exact ⟨tokens, rfl, started.symm⟩

/-- A call changes the state only. -/
theorem parseFile_snd (session : Session) :
    session.parseFile.2 = { session with
      state := Parser.stateAfter (Parser.fileStatements session.tokens session.state) } := by
  unfold parseFile
  split <;> next result => rw [result]; rfl

theorem parseFile_of_runs {statements : List Statement} {state : State}
    (run : Parser.Runs session.tokens Parser.fileStatements session.state statements state) :
    session.parseFile = (.ok ⟨session.path, statements⟩, { session with state }) := by
  rw [parseFile, run]

theorem runs_of_parseFile {file : File} (read : session.parseFile.1 = .ok file) :
    ∃ state, Parser.Runs session.tokens Parser.fileStatements session.state file.statements state ∧
      file.path = session.path := by
  rcases result : Parser.fileStatements session.tokens session.state with
    ⟨statements, state⟩ | ⟨error, state⟩
  · rw [parseFile_of_runs result] at read
    cases read
    exact ⟨state, result, rfl⟩
  · simp [parseFile, result] at read

theorem error_of_parseFile {error : CompileError} (refused : session.parseFile.1 = .error error) :
    ∃ state, Parser.fileStatements session.tokens session.state = .error error state := by
  rcases result : Parser.fileStatements session.tokens session.state with
    ⟨statements, state⟩ | ⟨found, state⟩
  · simp [parseFile, result] at refused
  · simp only [parseFile, result, Except.error.injEq] at refused
    exact ⟨state, by rw [refused]⟩

theorem tokens_after (session : Session) (calls : Nat) :
    (session.after calls).tokens = session.tokens := by
  induction calls with
  | zero => rfl
  | succ calls ih => rw [after, parseFile_snd, ih]

/-- What every reading keeps holds after any number of calls. -/
theorem after_induct {motive : State → Prop} (first : motive session.state)
    (keeps : ∀ state, motive state →
      motive (Parser.stateAfter (Parser.fileStatements session.tokens state)))
    (calls : Nat) : motive (session.after calls).state := by
  induction calls with
  | zero => exact first
  | succ calls ih =>
    rw [after, parseFile_snd, tokens_after]
    exact keeps _ ih

end Session

/-! ## Inside the tokens -/

/-- Reading from any of the tokens on, in any scopes, stays inside them. -/
structure ReadsInside (tokens : Array Token) : Prop where
  /-- There is a current token, and no other place is reached by passing it. -/
  current : ∀ state : State, state.cursor < tokens.size →
    (∃ token, Parser.peek tokens state = .ok token state) ∧
      (Parser.stateAfter (Parser.advance tokens state)).cursor < tokens.size
  /-- What the first pass over a declarator notes lies between where it begins and where it ends. -/
  noted : ∀ (state : State) (components : List Nat) (after : State),
    state.cursor < tokens.size →
    Parser.Runs tokens Parser.scanComponents state components after →
    after.cursor < tokens.size ∧
      ∀ index ∈ components, state.cursor ≤ index ∧ index < after.cursor
  /-- On its way it has opened what it has closed. -/
  depth : ∀ (start stop : Nat) (scan : Scan), Passes tokens start ⟨[], 0⟩ stop scan →
    scan.depth + occurrences tokens .closeParen start stop =
      occurrences tokens .openParen start stop
  declarator : ∀ start base, Parser.Safe tokens start (Parser.declaratorAround base)
  expression : ∀ start minimum suggested,
    Parser.Safe tokens start (Parser.expressionAbove minimum suggested)
  statement : ∀ start, Parser.Safe tokens start Parser.statement
  /-- A statement takes at least one token. -/
  onward : ∀ (state : State) (statement : Statement) (after : State),
    state.cursor < tokens.size → Parser.Runs tokens Parser.statement state statement after →
    state.cursor < after.cursor

theorem Lexed.advance_lt_size {tokens : Array Token} (lexed : Lexed tokens) {state : State}
    (within : state.cursor < tokens.size) :
    (Parser.stateAfter (Parser.advance tokens state)).cursor < tokens.size := by
  have here : tokens[state.cursor]? = some tokens[state.cursor] :=
    Array.getElem?_eq_getElem within
  by_cases ended : tokens[state.cursor].kind = .endOfFile
  · rw [Parser.advance_apply_of_end here ended]
    exact within
  · rw [Parser.advance_apply here ended]
    refine lexed.succ_lt_size within ?_
    rw [kindAt_of_getElem? here]
    simpa using ended

/-- Tokens as the lexer yields them are read inside. -/
theorem Lexed.readsInside {tokens : Array Token} (lexed : Lexed tokens) : ReadsInside tokens where
  current state within :=
    ⟨⟨_, Parser.peek_apply (Array.getElem?_eq_getElem within)⟩, lexed.advance_lt_size within⟩
  noted state components after within run := by
    refine ⟨?_, fun index member => ?_⟩
    · obtain ⟨_, _, ⟨kind, here, _⟩, _⟩ := Parser.passes_of_runs run
      exact lt_size_of_kindAt here
    · obtain ⟨low, high, _⟩ := Parser.noted_of_runs run index member
      exact ⟨low, high⟩
  depth start stop scan passes := by simpa using passes.depth
  declarator _ base := Parser.safe_declaratorAround base
  expression _ minimum suggested := Parser.safe_expressionAbove minimum suggested
  statement _ := Parser.safe_statement
  onward state statement after within run :=
    (Parser.consumes_statement state (Nat.le_of_lt within) statement after run).1

/-! ## Calls inside the tokens -/

namespace Parser

variable {tokens : Array Token} {state after : State}

/-- A file is read up to its end. -/
theorem ended_of_runs {statements : List Statement}
    (run : Runs tokens fileStatements state statements after) :
    kindAt tokens after.cursor = some .endOfFile := by
  obtain ⟨read, _, repeated, done⟩ := runs_bind.mp run
  obtain ⟨_, rfl⟩ := runs_pure.mp done
  obtain ⟨last, _, stopping⟩ := repeated.iterate_induct (Q := fun _ _ => True) trivial
    fun _ _ _ _ _ _ => trivial
  obtain rfl := runs_nextInFile_none stopping
  obtain ⟨token, _, looked, turn⟩ := runs_bind.mp stopping
  obtain ⟨here, rfl⟩ := runs_peek.mp looked
  rw [kindAt_of_getElem? here]
  split at turn
  · next ended => rw [ended]
  · obtain ⟨_, _, _, passed⟩ := runs_bind.mp turn
    cases (runs_pure.mp passed).1

/-- At the end of the file there is nothing to read. -/
theorem runs_fileStatements_of_end (ended : kindAt tokens state.cursor = some .endOfFile) :
    Runs tokens fileStatements state [] state := by
  obtain ⟨token, here, kind, _⟩ := kindAt_eq_some ended
  have turn : nextInFile #[] tokens state = .ok none state := by
    refine runs_bind.mpr ⟨token, state, runs_peek.mpr ⟨here, rfl⟩, ?_⟩
    simp only [kind]
    rfl
  refine runs_bind.mpr ⟨#[], state, ?_, rfl⟩
  rw [Runs, iterate_eq advancing_nextInFile _ (Nat.le_of_lt (lt_size_of_kindAt ended)), turn]

end Parser

namespace Session

/-- A session that is at the end of the file stays there and reads nothing. -/
theorem after_of_ended {session : Session}
    (ended : kindAt session.tokens session.state.cursor = some .endOfFile) (calls : Nat) :
    session.after calls = session ∧
      (session.after calls).parseFile.1 = .ok ⟨session.path, []⟩ := by
  have call := parseFile_of_runs (Parser.runs_fileStatements_of_end ended)
  have stays : session.after calls = session := by
    induction calls with
    | zero => rfl
    | succ calls ih => rw [after, ih, call]
  rw [stays, call]
  exact ⟨rfl, rfl⟩

/-- What a call of the session does to its cursor. -/
structure Advances (session : Session) : Prop where
  inside : session.state.cursor < session.tokens.size
  low : session.state.cursor ≤ session.parseFile.2.state.cursor
  high : session.parseFile.2.state.cursor < session.tokens.size
  /-- No token is sought where there is none, and no recursion or repetition ends at its bound. -/
  fault : ∀ error, session.parseFile.1 = .error error →
    error.fault ≠ .outsideTokens ∧ error.fault ≠ .exhausted
  ended : ∀ file, session.parseFile.1 = .ok file →
    kindAt session.tokens session.parseFile.2.state.cursor = some .endOfFile
  nothingLeft : ∀ file, session.parseFile.1 = .ok file → ∀ calls,
    (session.parseFile.2.after calls).parseFile.1 = .ok ⟨session.path, []⟩

theorem advances_of_sound {session : Session}
    (sound : session.state.Sound session.tokens session.state.cursor)
    (paired : session.state.scopes.Paired) : session.Advances := by
  obtain ⟨soundAfter, _, ordinary⟩ := Parser.safe_fileStatements session.state sound
  have ended : ∀ file, session.parseFile.1 = .ok file →
      kindAt session.tokens session.parseFile.2.state.cursor = some .endOfFile := by
    intro file read
    obtain ⟨state, run, _⟩ := runs_of_parseFile read
    rw [parseFile_of_runs run]
    exact Parser.ended_of_runs run
  refine ⟨sound.high, ?_, ?_, fun error refused => ?_, ended, fun file read calls => ?_⟩
  · rw [parseFile_snd]
    exact soundAfter.low
  · rw [parseFile_snd]
    exact soundAfter.high
  · obtain ⟨state, failed⟩ := error_of_parseFile refused
    have defended := ordinary paired error state failed
    constructor <;> intro same <;> rw [same] at defended <;> cases defended
  · have reached := ended file read
    rw [parseFile_snd] at reached ⊢
    exact (after_of_ended reached calls).2

/-- A session stays where reading is sound, with a level open. -/
theorem sound_after {path source : String} {session : Session}
    (started : start path source = .ok session) (calls : Nat) :
    (session.after calls).state.Sound session.tokens 0 ∧
      (session.after calls).state.scopes.Paired := by
  obtain ⟨tokens, found, rfl⟩ := start_eq_ok started
  have lexed := lexed_of_tokensOf found
  refine after_induct (motive := fun state => state.Sound _ 0 ∧ state.scopes.Paired)
    ⟨⟨lexed, Nat.le_refl _, lexed.nonempty⟩, Scopes.paired_root _⟩
    (fun state ⟨sound, paired⟩ => ?_) calls
  obtain ⟨soundAfter, pairedAfter, _⟩ := Parser.safe_fileStatements state sound
  exact ⟨soundAfter, pairedAfter paired⟩

/-- Every call of every session ends inside the tokens, from where it began on, and reading is
inside them on the way. -/
theorem advances_after {path source : String} {session : Session}
    (started : start path source = .ok session) :
    ReadsInside session.tokens ∧ ∀ calls, (session.after calls).Advances := by
  refine ⟨(sound_after started 0).1.lexed.readsInside, fun calls => ?_⟩
  obtain ⟨⟨lexed, _, high⟩, paired⟩ := sound_after started calls
  refine advances_of_sound ?_ paired
  rw [tokens_after]
  exact ⟨lexed, Nat.le_refl _, high⟩

/-- The first call fails at the second `x`; the next one goes on behind it up to the end. -/
theorem advances_after_redeclared :
    ∃ session, start "twice.lc" "int32 x = 1; int32 x = 2; int32 y = x;" = .ok session ∧
      session.parseFile.1.isOk = false ∧ (session.after 1).parseFile.1.isOk = true ∧
      ReadsInside session.tokens ∧ ∀ calls, (session.after calls).Advances := by
  have outcomes : ((start "twice.lc" "int32 x = 1; int32 x = 2; int32 y = x;").toOption.map
      fun session => (session.parseFile.1.isOk, (session.after 1).parseFile.1.isOk)) =
        some (false, true) := by
    decide +kernel
  obtain ⟨session, started, outcome⟩ := exists_ok_of_map_eq_some outcomes
  obtain ⟨fails, succeeds⟩ := Prod.mk.inj outcome
  exact ⟨session, started, fails, succeeds, advances_after started⟩

end Session

end MiniC
