/-
# MiniC.Proofs.Defences — what is guarded against does not come up

The lexer and the parser are on their guard against what the rest of them promises not to happen.
Three promises are behind that, and they hold in every state that a session comes to, after calls
that fail as well.

* Every letter and digit has a value, and a literal is never less than zero. So what is read with
  signed words does not depend on what a digit without a value counts: `Literal.readWord_eq`.
* A level is open in both namespaces wherever reading comes to, so that there is one to bind names
  in: `ComesTo.sound`.
* The first pass over a declarator notes names, brackets and parentheses only, so that the second
  finds what it can read.

`Session.defences_idle`: so no call of any session ends with a fault that stands for one of these.
-/
import MiniC.Proofs.Reached
import MiniC.Proofs.Session

namespace MiniC

set_option autoImplicit false

/-! ## Levels -/

/-- Parameters that are declared close no level. -/
theorem Scopes.Paired.declareAll {parameters : List Declaration} {scopes after : Scopes}
    (paired : scopes.Paired) (bound : parameters.foldlM Scopes.declare scopes = .ok after) :
    after.Paired := by
  induction parameters generalizing scopes with
  | nil =>
    cases bound
    exact paired
  | cons parameter rest ih =>
    rw [List.foldlM_cons] at bound
    rcases declared : scopes.declare parameter with error | between
    · rw [declared] at bound
      cases bound
    · rw [declared] at bound
      exact ih (paired.declare declared) bound

namespace Parser

variable {tokens : Array Token} {first state entry : State}

/-- Reading from the first state on comes to the other, where a statement is to be read: behind one
that has been read, or behind a brace that opens a block of one. -/
inductive ComesTo (tokens : Array Token) (first : State) : State → Prop
  | start : ComesTo tokens first first
  | next {state after : State} {read : Statement} (comes : ComesTo tokens first state)
      (run : Runs tokens statement state read after) : ComesTo tokens first after
  | enter {state entry : State} (comes : ComesTo tokens first state)
      (enters : Enters tokens state entry)
      (opened : kindAt tokens entry.cursor = some (.symbol .openBrace)) :
      ComesTo tokens first (behindBrace entry)

/-- Behind a token other than the end of the file reading is sound as it is in front of it. -/
theorem sound_behind (sound : state.Sound tokens 0) {kind : Kind}
    (here : kindAt tokens entry.cursor = some kind) (more : kind ≠ .endOfFile) :
    State.Sound tokens 0 { entry with cursor := entry.cursor + 1 } :=
  ⟨sound.lexed, Nat.zero_le _,
    sound.lexed.succ_lt_size (lt_size_of_kindAt here) (by rw [here]; simpa using more)⟩

/-- Where a block is entered, a level is open. -/
theorem Enters.paired (enters : Enters tokens state entry) (sound : state.Sound tokens 0)
    (paired : state.scopes.Paired) : entry.scopes.Paired := by
  cases enters with
  | block => exact paired.push
  | body keyword tested =>
    have inside : State.Sound tokens 0 { state with cursor := state.cursor + 1 } := by
      rcases keyword with here | here
      · exact sound_behind sound here nofun
      · exact sound_behind sound here nofun
    obtain ⟨_, known⟩ := (safe_condition _ inside).of_runs tested
    exact (known paired).push
  | alternative keyword tested first otherwise =>
    have inside : State.Sound tokens 0 { state with cursor := state.cursor + 1 } :=
      sound_behind sound keyword nofun
    obtain ⟨soundBetween, known⟩ := (safe_condition _ inside).of_runs tested
    obtain ⟨_, kept⟩ := (safe_block safe_statement _ soundBetween).of_runs first
    exact (kept (known paired)).push
  | function naming outermost declaring bound =>
    obtain ⟨_, known⟩ := (safe_namedDeclarator state sound).of_runs naming
    exact ((known paired).declare declaring).push.declareAll bound

/-- Wherever a statement is to be read, reading it is sound and a level is open. -/
theorem ComesTo.sound (comes : ComesTo tokens first state) (sound : first.Sound tokens 0)
    (paired : first.scopes.Paired) : state.Sound tokens 0 ∧ state.scopes.Paired := by
  induction comes with
  | start => exact ⟨sound, paired⟩
  | next _ run ih =>
    obtain ⟨soundAfter, pairedAfter⟩ := (safe_statement _ ih.1).of_runs run
    exact ⟨soundAfter, pairedAfter ih.2⟩
  | enter _ enters opened ih =>
    exact ⟨sound_behind ih.1 opened nofun, enters.paired ih.1 ih.2⟩

end Parser

/-! ## Sessions -/

namespace Session

/-- The promises behind the defences are kept in the next call of the session, which finds none
broken. -/
structure KeepsPromises (session : Session) : Prop where
  /-- Wherever the call comes to a statement, there is a level to bind names in. -/
  opened : ∀ state, Parser.ComesTo session.tokens session.state state → state.scopes.Paired
  literal_le : ∀ index value, kindAt session.tokens index = some (.integer value) →
    value ≤ Literal.maxLiteral
  /-- Wherever the first pass over a declarator begins, it notes what the second can read. -/
  noted : ∀ state components after,
    Parser.Runs session.tokens Parser.scanComponents state components after →
    ∀ index ∈ components, (∃ spelling, kindAt session.tokens index = some (.name spelling)) ∨
      kindAt session.tokens index = some (.symbol .openBracket) ∨
      kindAt session.tokens index = some (.symbol .openParen)
  /-- Wherever a declarator, an expression or a statement begins with a level open, it ends with one
  open, and not with a fault that stands for a broken promise. -/
  declarator : ∀ base, Parser.Safe session.tokens 0 (Parser.declaratorAround base)
  expression : ∀ minimum suggested,
    Parser.Safe session.tokens 0 (Parser.expressionAbove minimum suggested)
  statement : Parser.Safe session.tokens 0 Parser.statement
  /-- The call itself does not end with such a fault either. -/
  fault : ∀ error, session.parseFile.1 = .error error → error.fault.isDefensive = false

theorem keepsPromises_of_sound {session : Session}
    (sound : session.state.Sound session.tokens 0) (paired : session.state.scopes.Paired) :
    session.KeepsPromises where
  opened _ comes := (comes.sound sound paired).2
  literal_le _ _ := sound.lexed.literal_le
  noted _ _ _ run index member := by
    obtain ⟨_, _, kind, here, opens⟩ := Parser.noted_of_runs run index member
    rcases Kind.eq_of_opensComponent opens with ⟨spelling, rfl⟩ | rfl | rfl
    · exact .inl ⟨spelling, here⟩
    · exact .inr (.inl here)
    · exact .inr (.inr here)
  declarator base := Parser.safe_declaratorAround base
  expression minimum suggested := Parser.safe_expressionAbove minimum suggested
  statement := Parser.safe_statement
  fault error refused := by
    obtain ⟨state, failed⟩ := error_of_parseFile refused
    exact (Parser.safe_fileStatements session.state sound).fault paired error state failed

/-- The defences of the lexer and the parser are idle: whatever stood for a digit without a value,
every literal of every source would be read in the same way, and no call of a session comes to a
fault that guards a promise, however many calls have failed before. -/
theorem defences_idle (path source : String) :
    (∀ c : Char, c.isAlphanum = true →
      ∃ digit, Literal.digitValue? c = some digit ∧ digit < 36) ∧
    (∀ fallback text,
      Literal.readWord fallback text = (Literal.read text).map id Literal.inWord) ∧
    ∀ session, start path source = .ok session →
      ∀ calls, (session.after calls).KeepsPromises := by
  refine ⟨fun c => Literal.exists_digitValue?, Literal.readWord_eq, fun session started calls => ?_⟩
  obtain ⟨sound, paired⟩ := sound_after started calls
  refine keepsPromises_of_sound ?_ paired
  rw [tokens_after]
  exact sound

/-- The first call fails at the second `x`; before it and behind it all promises are kept. -/
theorem defences_idle_redeclared :
    ∃ session, start "twice.lc" "int32 x = 0x1F; int32 x = 2; int32 y[0b11];" = .ok session ∧
      session.parseFile.1.isOk = false ∧ (session.after 1).parseFile.1.isOk = true ∧
      ∀ calls, (session.after calls).KeepsPromises := by
  have outcomes :
      ((start "twice.lc" "int32 x = 0x1F; int32 x = 2; int32 y[0b11];").toOption.map
        fun session => (session.parseFile.1.isOk, (session.after 1).parseFile.1.isOk)) =
          some (false, true) := by
    decide +kernel
  obtain ⟨session, started, outcome⟩ := exists_ok_of_map_eq_some outcomes
  obtain ⟨fails, succeeds⟩ := Prod.mk.inj outcome
  exact ⟨session, started, fails, succeeds, (defences_idle _ _).2.2 session started⟩

end Session

end MiniC
