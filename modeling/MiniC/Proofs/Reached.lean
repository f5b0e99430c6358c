/-
# MiniC.Proofs.Reached — where statements are read

Reading a file comes to one place after the other where a statement is to be read: at the beginning
of the file, behind a statement that has been read, and behind a brace that opens a block of one.
`Reached` says which states these are, whether or not the file is read to its end.

A statement takes at least one token, and what is read inside its blocks is in front of where it
ends. So every token is the first of at most one statement, which is read in one state:
`Reached.eq_of_cursor_eq`.
-/
import MiniC.Proofs.Coverage.Function
import MiniC.Proofs.Effect.Statement

namespace MiniC.Parser

set_option autoImplicit false

variable {tokens : Array Token} {state after entry : State}

/-! ## Statements by their first token -/

/-- A statement is read by its step, which looks at the current token. -/
theorem statement_of_token {token : Token} (here : tokens[state.cursor]? = some token) :
    statement tokens state =
      (match token.kind with
        | .keyword .typedef => typedef
        | .keyword .distinct => distinct
        | .keyword .cond => conditional statement
        | .keyword .loop => loop statement
        | .keyword .ret => ret
        | .keyword .var => inferredDeclaration
        | .symbol .openBrace => block statement >>= fun body => pure (.block body)
        | _ => do if ← isTypeName then declaration statement else expressionStatement)
        tokens state := by
  have within := Nat.le_of_lt (Array.getElem?_eq_some_iff.mp here).1
  rewrite [statement_eq within, statementStep, bind_apply, peek_apply here]
  rfl

theorem statement_of_openBrace (here : kindAt tokens state.cursor = some (.symbol .openBrace)) :
    statement tokens state =
      (block statement >>= fun body => pure (Statement.block body)) tokens state := by
  obtain ⟨token, there, kind, _⟩ := kindAt_eq_some here
  rw [statement_of_token there, kind]

theorem statement_of_cond (here : kindAt tokens state.cursor = some (.keyword .cond)) :
    statement tokens state = conditional statement tokens state := by
  obtain ⟨token, there, kind, _⟩ := kindAt_eq_some here
  rw [statement_of_token there, kind]

theorem statement_of_loop (here : kindAt tokens state.cursor = some (.keyword .loop)) :
    statement tokens state = loop statement tokens state := by
  obtain ⟨token, there, kind, _⟩ := kindAt_eq_some here
  rw [statement_of_token there, kind]

theorem statement_of_namesType {ty : Ty}
    (named : NamesType tokens state.scopes.findType? state.cursor ty) :
    statement tokens state = declaration statement tokens state := by
  have within : state.cursor < tokens.size := by
    obtain ⟨_, here, _⟩ := named
    exact lt_size_of_kindAt here
  rw [statement_eq (Nat.le_of_lt within), statementStep_of_namesType named]

/-- No expression begins with a closing brace. -/
theorem not_runs_expression_of_closeBrace {suggested : Option Ty} {value : Expression}
    (here : kindAt tokens state.cursor = some (.symbol .closeBrace)) :
    ¬Runs tokens (expression suggested) state value after := by
  intro run
  have kind : ∀ token, tokens[state.cursor]? = some token → token.kind = .symbol .closeBrace := by
    intro token there
    rw [kindAt_of_getElem? there] at here
    exact Option.some.inj here
  rw [Runs, expression, expressionAbove_eq _ _ (Nat.le_of_lt (lt_size_of_kindAt here))] at run
  obtain ⟨_, _, operand, _⟩ := runs_bind.mp run
  obtain ⟨token, _, looked, operand⟩ := runs_bind.mp operand
  obtain ⟨there, rfl⟩ := runs_peek.mp looked
  rw [kind token there] at operand
  obtain ⟨_, _, first, _⟩ := runs_bind.mp operand
  obtain ⟨token, _, looked, first⟩ := runs_bind.mp first
  obtain ⟨there, rfl⟩ := runs_peek.mp looked
  rw [kind token there] at first
  exact not_runs_fail first

/-- No statement begins with a closing brace. -/
theorem not_runs_of_closeBrace (here : kindAt tokens state.cursor = some (.symbol .closeBrace))
    {read : Statement} : ¬Runs tokens statement state read after := by
  intro run
  obtain ⟨token, there, kind, _⟩ := kindAt_eq_some here
  rw [Runs, statement_of_token there, kind] at run
  obtain ⟨typed, _, looked, run⟩ := runs_bind.mp run
  obtain ⟨_, named, rfl⟩ := runs_isTypeName.mp looked
  split at run
  · next yes =>
    obtain ⟨_, _, impossible, _⟩ := named.mp yes
    rw [here] at impossible
    cases impossible
  · obtain ⟨_, _, value, _⟩ := runs_bind.mp run
    exact not_runs_expression_of_closeBrace here value

/-! ## Blocks that are entered -/

/-- The entries of a parameter list that declares the parameters. -/
abbrev entriesOf (parameters : List Declaration) : List (Parameter Ty) :=
  parameters.map fun parameter => ⟨some parameter.name, parameter.ty, parameter.position⟩

/-- The statement at the state comes to a block, which is to be read in the other state. -/
inductive Enters (tokens : Array Token) (state : State) : State → Prop
  | block (here : kindAt tokens state.cursor = some (.symbol .openBrace)) :
      Enters tokens state { state with scopes := state.scopes.push }
  | body {test : Expression} {between : State}
      (keyword : kindAt tokens state.cursor = some (.keyword .cond) ∨
        kindAt tokens state.cursor = some (.keyword .loop))
      (tested : Runs tokens condition { state with cursor := state.cursor + 1 } test between) :
      Enters tokens state { between with scopes := between.scopes.push }
  | alternative {test : Expression} {whenTrue : Block Statement} {between behind : State}
      (keyword : kindAt tokens state.cursor = some (.keyword .cond))
      (tested : Runs tokens condition { state with cursor := state.cursor + 1 } test between)
      (first : Runs tokens (block statement) between whenTrue behind)
      (otherwise : kindAt tokens behind.cursor = some (.keyword .otherwise)) :
      Enters tokens state
        { behind with cursor := behind.cursor + 1, scopes := behind.scopes.push }
  | function {name : DeclaredName} {tag : Tag} {result : Ty} {parameters : List Declaration}
      {header : State} {known opened : Scopes}
      (naming : Runs tokens namedDeclarator state
        (.function tag result (entriesOf parameters), name) header)
      (outermost : header.scopes.depth ≤ 1)
      (declaring : header.scopes.declare
        ⟨name.name, .function tag result (entriesOf parameters), name.position⟩ = .ok known)
      (bound : parameters.foldlM Scopes.declare known.push = .ok opened) :
      Enters tokens state ⟨header.cursor, opened, some result⟩

/-- Where the first statement of a block is read: behind its opening brace. -/
def behindBrace (entry : State) : State :=
  { entry with cursor := entry.cursor + 1 }

/-- Reading the file comes to the state, where a statement is to be read. -/
inductive Reached (tokens : Array Token) : State → Prop
  | start : Reached tokens State.initial
  | next {state after : State} {read : Statement} (reached : Reached tokens state)
      (run : Runs tokens statement state read after) : Reached tokens after
  | enter {state entry : State} (reached : Reached tokens state)
      (enters : Enters tokens state entry)
      (opened : kindAt tokens entry.cursor = some (.symbol .openBrace)) :
      Reached tokens (behindBrace entry)

/-! ## Blocks that are read -/

/-- A parser comes to one value and one state at most. -/
theorem Runs.unique {α : Type} {parser : Parser α} {value other : α} {otherAfter : State}
    (run : Runs tokens parser state value after)
    (otherRun : Runs tokens parser state other otherAfter) :
    value = other ∧ after = otherAfter := by
  have same := run.symm.trans otherRun
  rwa [EStateM.Result.ok.injEq] at same

theorem runs_block {body : Block Statement} :
    Runs tokens (block statement) state body after ↔
      ∃ closing closed,
        Runs tokens (braced statement) { state with scopes := state.scopes.push } (body, closing)
          closed ∧ after = { closed with scopes := closed.scopes.pop } := by
  rw [block, runs_bind]
  constructor
  · rintro ⟨⟨content, closing⟩, _, reading, done⟩
    obtain ⟨rfl, rfl⟩ := runs_pure.mp done
    obtain ⟨closed, inside, rfl⟩ := runs_inScope.mp reading
    exact ⟨closing, closed, inside, rfl⟩
  · rintro ⟨closing, closed, inside, rfl⟩
    exact ⟨(body, closing), _, runs_inScope.mpr ⟨closed, inside, rfl⟩, rfl⟩

/-- Between braces statements are read one after the other, up to the closing brace. -/
theorem reads_of_braced {content : Block Statement × Position} {closed : State}
    (run : Runs tokens (braced statement) entry content closed) :
    ∃ last, Reads tokens (behindBrace entry) content.1.statements last ∧
      kindAt tokens last.cursor = some (.symbol .closeBrace) ∧
      closed.cursor = last.cursor + 1 := by
  obtain ⟨opening, _, looked, run⟩ := runs_bind.mp run
  obtain ⟨_, rfl⟩ := runs_peek.mp looked
  obtain ⟨_, _, entering, run⟩ := runs_bind.mp run
  obtain ⟨_, rfl⟩ := runs_expect.mp entering
  obtain ⟨statements, last, reading, run⟩ := runs_bind.mp run
  obtain ⟨read, _, repeated, done⟩ := runs_bind.mp reading
  obtain ⟨rfl, rfl⟩ := runs_pure.mp done
  obtain ⟨_, reads, stopping⟩ := repeated.iterate_induct
    (Q := fun read between => Reads tokens (behindBrace entry) read.toList between) .done
    fun read next between after reads turn => by
      obtain ⟨value, one, rfl⟩ := runs_nextInBlock_some turn
      rw [Array.toList_push]
      exact reads.snoc one
  obtain rfl := runs_nextInBlock_none stopping
  obtain ⟨closing, _, looked, run⟩ := runs_bind.mp run
  obtain ⟨_, rfl⟩ := runs_peek.mp looked
  obtain ⟨_, _, leaving, done⟩ := runs_bind.mp run
  obtain ⟨closes, rfl⟩ := runs_expect.mp leaving
  obtain ⟨rfl, rfl⟩ := runs_pure.mp done
  exact ⟨_, reads, closes, rfl⟩

/-- The keyword that a statement begins with is passed. -/
theorem runs_advance_of_keyword {word : Keyword} {α : Type} {next : Token → Parser α} {value : α}
    (here : kindAt tokens state.cursor = some (.keyword word))
    (run : Runs tokens (advance >>= next) state value after) :
    ∃ token, Runs tokens (next token) { state with cursor := state.cursor + 1 } value after := by
  obtain ⟨token, _, passing, run⟩ := runs_bind.mp run
  obtain ⟨_, rfl⟩ := (runs_advance (by simp [here])).mp passing
  exact ⟨token, run⟩

/-- What is read between a block and the end of its statement does not go back. -/
theorem runs_block_bind {α : Type} {next : Block Statement → Parser α} {value : α}
    (behind : ∀ body start, Lands tokens start (next body) (next body))
    (within : state.cursor ≤ tokens.size)
    (run : Runs tokens (block statement >>= next) state value after) :
    ∃ content closed,
      Runs tokens (braced statement) { state with scopes := state.scopes.push } content closed ∧
      closed.cursor ≤ after.cursor := by
  obtain ⟨body, between, reading, run⟩ := runs_bind.mp run
  obtain ⟨_, high⟩ := consumes_block state within body between reading
  obtain ⟨low, _⟩ := (behind body _).le_cursor high run
  obtain ⟨closing, closed, inside, rfl⟩ := runs_block.mp reading
  exact ⟨_, closed, inside, low⟩

/-- The entries of a parameter list tell what they declare. -/
theorem entriesOf_inj {parameters others : List Declaration}
    (same : entriesOf parameters = entriesOf others) : parameters = others := by
  refine (List.map_inj_right fun one other agree => ?_).mp same
  cases one
  cases other
  simpa using agree

/-- Behind the header of a function and a brace, the body is read with the parameters in scope. -/
theorem braced_of_runs_functionDefinition {name : DeclaredName} {tag : Tag} {result : Ty}
    {parameters : List Declaration} {known opened : Scopes} {read : Statement}
    (declaring : state.scopes.declare
      ⟨name.name, .function tag result (entriesOf parameters), name.position⟩ = .ok known)
    (bound : parameters.foldlM Scopes.declare known.push = .ok opened)
    (run : Runs tokens
      (functionDefinition statement (.function tag result (entriesOf parameters)) name) state read
      after) :
    ∃ content closed,
      Runs tokens (braced statement) ⟨state.cursor, opened, some result⟩ content closed ∧
      closed.cursor ≤ after.cursor := by
  obtain ⟨_, _, looked, run⟩ := runs_bind.mp run
  obtain ⟨_, rfl⟩ := runs_depth.mp looked
  split at run
  · exact absurd run not_runs_failAt
  · obtain ⟨declarations, _, named, run⟩ := runs_bind.mp run
    obtain ⟨shape, rfl⟩ := runs_parameterDeclarations named
    obtain rfl : parameters = declarations := entriesOf_inj shape
    obtain ⟨_, _, again, run⟩ := runs_bind.mp run
    obtain ⟨_, declared, rfl⟩ := runs_declare.mp again
    obtain rfl := Except.ok.inj (declaring.symm.trans declared)
    obtain ⟨_, _, reading, done⟩ := runs_bind.mp run
    obtain ⟨_, rfl⟩ := runs_pure.mp done
    obtain ⟨_, inside, rfl⟩ := runs_inScope.mp reading
    obtain ⟨_, _, _, ended, entered, braces, rfl, _⟩ := completed_of_runs inside
    obtain rfl := Except.ok.inj (bound.symm.trans entered)
    exact ⟨_, ended, braces, Nat.le_refl _⟩

/-- Behind its condition, a conditional goes on with its blocks. -/
theorem runs_conditional_of_tested {test : Expression} {between : State} {read : Statement}
    (here : kindAt tokens state.cursor = some (.keyword .cond))
    (tested : Runs tokens condition { state with cursor := state.cursor + 1 } test between)
    (run : Runs tokens statement state read after) :
    ∃ keyword : Token, Runs tokens (block statement >>= fun whenTrue =>
      alternative statement >>= fun otherwise =>
      pure (Statement.conditional test whenTrue otherwise keyword.position))
      between read after := by
  rw [Runs, statement_of_cond here] at run
  obtain ⟨keyword, run⟩ := runs_advance_of_keyword here run
  obtain ⟨_, _, again, run⟩ := runs_bind.mp run
  obtain ⟨rfl, rfl⟩ := tested.unique again
  exact ⟨keyword, run⟩

/-- Behind its keyword, an alternative is a block. -/
theorem runs_alternative_of_otherwise {read : Option (Block Statement)}
    (otherwise : kindAt tokens state.cursor = some (.keyword .otherwise))
    (run : Runs tokens (alternative statement) state read after) :
    Runs tokens (block statement >>= fun body => pure (some body))
      { state with cursor := state.cursor + 1 } read after := by
  obtain ⟨token, _, looked, run⟩ := runs_bind.mp run
  obtain ⟨there, rfl⟩ := runs_peek.mp looked
  have kind : token.kind = .keyword .otherwise :=
    Option.some.inj ((kindAt_of_getElem? there).symm.trans otherwise)
  rw [kind] at run
  obtain ⟨_, run⟩ := runs_advance_of_keyword otherwise run
  exact run

/-- Where a statement is read, so is every block of it that is entered, in front of its end. -/
theorem Enters.braced_of_runs (enters : Enters tokens state entry) {read : Statement}
    (opened : kindAt tokens entry.cursor = some (.symbol .openBrace))
    (run : Runs tokens statement state read after) :
    ∃ content closed, Runs tokens (braced statement) entry content closed ∧
      closed.cursor ≤ after.cursor := by
  have within := lt_size_of_runs_statement run
  cases enters with
  | block here =>
    rw [Runs, statement_of_openBrace here] at run
    exact runs_block_bind (fun _ _ => lands_pure _) (Nat.le_of_lt within) run
  | @body test between keyword tested =>
    have high := Nat.le_of_lt (lt_size_of_kindAt opened)
    rcases keyword with here | here
    · obtain ⟨_, run⟩ := runs_conditional_of_tested here tested run
      exact runs_block_bind (fun _ _ => lands_bind (lands_alternative lands_statement)
        fun _ => lands_pure _) high run
    · rw [Runs, statement_of_loop here] at run
      obtain ⟨_, run⟩ := runs_advance_of_keyword here run
      obtain ⟨_, _, again, run⟩ := runs_bind.mp run
      obtain ⟨rfl, rfl⟩ := tested.unique again
      exact runs_block_bind (fun _ _ => lands_pure _) high run
  | @alternative test whenTrue between behind keyword tested first otherwise =>
    have high : State.cursor { behind with cursor := behind.cursor + 1 } ≤ tokens.size :=
      Nat.le_of_lt (lt_size_of_kindAt opened)
    obtain ⟨_, run⟩ := runs_conditional_of_tested keyword tested run
    obtain ⟨_, _, again, run⟩ := runs_bind.mp run
    obtain ⟨rfl, rfl⟩ := first.unique again
    obtain ⟨_, _, reading, done⟩ := runs_bind.mp run
    obtain ⟨_, rfl⟩ := runs_pure.mp done
    exact runs_block_bind (fun _ _ => lands_pure _) high
      (runs_alternative_of_otherwise otherwise reading)
  | function naming outermost declaring bound =>
    obtain ⟨ty, named⟩ := namesType_of_namedDeclarator naming
    rw [Runs, statement_of_namesType named] at run
    obtain ⟨_, _, again, run⟩ := runs_bind.mp run
    obtain ⟨same, rfl⟩ := naming.unique again
    cases same
    obtain ⟨braced, _, looked, run⟩ := runs_bind.mp run
    obtain ⟨_, brace, rfl⟩ := runs_check.mp looked
    rw [brace.mpr opened] at run
    exact braced_of_runs_functionDefinition declaring bound run

/-! ## Order -/

/-- The condition behind a keyword does not go back before it. -/
theorem le_cursor_of_condition {word : Keyword} {test : Expression} {between : State}
    (here : kindAt tokens state.cursor = some (.keyword word))
    (tested : Runs tokens condition { state with cursor := state.cursor + 1 } test between) :
    state.cursor ≤ between.cursor ∧ between.cursor ≤ tokens.size := by
  have within : State.cursor { state with cursor := state.cursor + 1 } ≤ tokens.size :=
    lt_size_of_kindAt here
  obtain ⟨low, high⟩ := lands_condition.le_cursor within tested
  exact ⟨Nat.le_of_succ_le low, high⟩

theorem Enters.not_closeBrace (enters : Enters tokens state entry) :
    kindAt tokens state.cursor ≠ some (.symbol .closeBrace) := by
  intro here
  cases enters with
  | block impossible | alternative impossible => rw [here] at impossible; cases impossible
  | body keyword =>
    rcases keyword with impossible | impossible <;> rw [here] at impossible <;> cases impossible
  | function naming =>
    obtain ⟨_, _, impossible, _⟩ := namesType_of_namedDeclarator naming
    rw [here] at impossible
    cases impossible

/-- A block is entered at or behind the beginning of its statement. -/
theorem Enters.le_cursor (enters : Enters tokens state entry) :
    state.cursor ≤ entry.cursor := by
  cases enters with
  | block => exact Nat.le_refl _
  | body keyword tested =>
    rcases keyword with here | here <;> exact (le_cursor_of_condition here tested).1
  | alternative keyword tested first =>
    obtain ⟨low, high⟩ := le_cursor_of_condition keyword tested
    have less := (consumes_block _ high _ _ first).1
    exact Nat.le_succ_of_le (Nat.le_trans low (Nat.le_of_lt less))
  | function naming =>
    obtain ⟨_, _, here, _⟩ := namesType_of_namedDeclarator naming
    exact (lands_namedDeclarator.le_cursor (Nat.le_of_lt (lt_size_of_kindAt here)) naming).1

theorem Reads.le_cursor {statements : List Statement}
    (reads : Reads tokens state statements after) : state.cursor ≤ after.cursor := by
  induction reads with
  | done => exact Nat.le_refl _
  | next first _ ih =>
    have within := Nat.le_of_lt (lt_size_of_runs_statement first)
    exact Nat.le_trans (Nat.le_of_lt (consumes_statement _ within _ _ first).1) ih

/-- From the one state reading comes to the other, where a statement is to be read. -/
inductive Leads (tokens : Array Token) : State → State → Prop
  | here {state : State} : Leads tokens state state
  | next {state between after : State} {read : Statement}
      (run : Runs tokens statement state read between) (rest : Leads tokens between after) :
      Leads tokens state after
  | enter {state entry after : State} (enters : Enters tokens state entry)
      (opened : kindAt tokens entry.cursor = some (.symbol .openBrace))
      (rest : Leads tokens (behindBrace entry) after) : Leads tokens state after

theorem Leads.trans {between : State} (first : Leads tokens state between)
    (second : Leads tokens between after) : Leads tokens state after := by
  induction first with
  | here => exact second
  | next run _ ih => exact .next run (ih second)
  | enter enters opened _ ih => exact .enter enters opened (ih second)

theorem Reached.leads (reached : Reached tokens state) : Leads tokens State.initial state := by
  induction reached with
  | start => exact .here
  | next _ run ih => exact ih.trans (.next run .here)
  | enter _ enters opened ih => exact ih.trans (.enter enters opened .here)

theorem Leads.le_cursor (leads : Leads tokens state after) : state.cursor ≤ after.cursor := by
  induction leads with
  | here => exact Nat.le_refl _
  | next run _ ih =>
    have within := Nat.le_of_lt (lt_size_of_runs_statement run)
    exact Nat.le_trans (Nat.le_of_lt (consumes_statement _ within _ _ run).1) ih
  | enter enters _ _ ih => exact Nat.le_trans enters.le_cursor (Nat.le_of_succ_le ih)

/-- What the statements up to a closing brace lead to is in front of that brace. -/
theorem Leads.le_of_reads {statements : List Statement} {last : State}
    (leads : Leads tokens state after) (reads : Reads tokens state statements last)
    (closes : kindAt tokens last.cursor = some (.symbol .closeBrace)) :
    after.cursor ≤ last.cursor := by
  induction leads generalizing statements last with
  | here => exact reads.le_cursor
  | next run _ ih =>
    cases reads with
    | done => exact absurd run (not_runs_of_closeBrace closes)
    | next first others =>
      obtain ⟨rfl, rfl⟩ := run.unique first
      exact ih others closes
  | enter enters opened _ ih =>
    cases reads with
    | done => exact absurd closes enters.not_closeBrace
    | next first others =>
      obtain ⟨content, closed, inside, before⟩ := enters.braced_of_runs opened first
      obtain ⟨_, within, innerCloses, behind⟩ := reads_of_braced inside
      have inner := ih within innerCloses
      have outer := others.le_cursor
      omega

/-- What a block leads to is in front of where the block ends. -/
theorem Leads.lt_of_braced {content : Block Statement × Position} {closed : State}
    (leads : Leads tokens (behindBrace entry) after)
    (run : Runs tokens (braced statement) entry content closed) :
    after.cursor < closed.cursor := by
  obtain ⟨_, reads, closes, behind⟩ := reads_of_braced run
  have inner := leads.le_of_reads reads closes
  omega

/-- The one block is read to its end before the other is entered. -/
def Precedes (tokens : Array Token) (entry other : State) : Prop :=
  ∃ content closed, Runs tokens (braced statement) entry content closed ∧
    closed.cursor ≤ other.cursor

/-- A declarator begins with a name. -/
theorem kindAt_of_namedDeclarator {declared : Ty × DeclaredName}
    (naming : Runs tokens namedDeclarator state declared after) :
    ∃ spelling, kindAt tokens state.cursor = some (.name spelling) := by
  obtain ⟨_, spelling, here, _⟩ := namesType_of_namedDeclarator naming
  exact ⟨spelling, here⟩

/-- The first block of a conditional is read before its alternative is entered. -/
theorem precedes_alternative {whenTrue : Block Statement} {between behind : State}
    (first : Runs tokens (block statement) between whenTrue behind) :
    Precedes tokens { between with scopes := between.scopes.push }
      { behind with cursor := behind.cursor + 1, scopes := behind.scopes.push } := by
  obtain ⟨_, closed, inside, rfl⟩ := runs_block.mp first
  exact ⟨_, closed, inside, Nat.le_succ _⟩

/-- The blocks of a statement come one after the other. -/
theorem Enters.eq_or_precedes {other : State} (one : Enters tokens state entry)
    (another : Enters tokens state other) :
    entry = other ∨ Precedes tokens entry other ∨ Precedes tokens other entry := by
  cases one with
  | block here =>
    cases another with
    | block => exact .inl rfl
    | body keyword => simp [here] at keyword
    | alternative keyword => simp [here] at keyword
    | function naming =>
      obtain ⟨_, name⟩ := kindAt_of_namedDeclarator naming
      simp [here] at name
  | body keyword tested =>
    cases another with
    | block here => simp [here] at keyword
    | body _ again =>
      obtain ⟨rfl, rfl⟩ := tested.unique again
      exact .inl rfl
    | alternative _ again first =>
      obtain ⟨rfl, rfl⟩ := tested.unique again
      exact .inr (.inl (precedes_alternative first))
    | function naming =>
      obtain ⟨_, name⟩ := kindAt_of_namedDeclarator naming
      simp [name] at keyword
  | alternative keyword tested first =>
    cases another with
    | block here => simp [here] at keyword
    | body _ again =>
      obtain ⟨rfl, rfl⟩ := tested.unique again
      exact .inr (.inr (precedes_alternative first))
    | alternative _ again firstAgain =>
      obtain ⟨rfl, rfl⟩ := tested.unique again
      obtain ⟨rfl, rfl⟩ := first.unique firstAgain
      exact .inl rfl
    | function naming =>
      obtain ⟨_, name⟩ := kindAt_of_namedDeclarator naming
      simp [name] at keyword
  | function naming _ declaring bound =>
    obtain ⟨_, name⟩ := kindAt_of_namedDeclarator naming
    cases another with
    | block here => simp [name] at here
    | body keyword => simp [name] at keyword
    | alternative keyword => simp [name] at keyword
    | function again _ declaringAgain boundAgain =>
      obtain ⟨same, rfl⟩ := naming.unique again
      obtain ⟨ty, rfl⟩ := Prod.mk.inj same
      obtain ⟨rfl, rfl, shape⟩ := Ty.function.inj ty
      obtain rfl := entriesOf_inj shape
      obtain rfl := Except.ok.inj (declaring.symm.trans declaringAgain)
      obtain rfl := Except.ok.inj (bound.symm.trans boundAgain)
      exact .inl rfl

/-- Reading moves on between two places where statements are read. -/
theorem Leads.eq_or_lt (leads : Leads tokens state after) :
    state = after ∨ state.cursor < after.cursor := by
  cases leads with
  | here => exact .inl rfl
  | next run rest =>
    have within := Nat.le_of_lt (lt_size_of_runs_statement run)
    exact .inr (Nat.lt_of_lt_of_le (consumes_statement _ within _ _ run).1 rest.le_cursor)
  | enter enters _ rest =>
    exact .inr (Nat.lt_of_le_of_lt enters.le_cursor rest.le_cursor)

/-- From a block that precedes another, reading comes to no place of the other. -/
theorem Precedes.lt_cursor {other later : State} (precedes : Precedes tokens entry other)
    (one : Leads tokens (behindBrace entry) after)
    (another : Leads tokens (behindBrace other) later) : after.cursor < later.cursor := by
  obtain ⟨_, _, inside, before⟩ := precedes
  have front := one.lt_of_braced inside
  have back : other.cursor + 1 ≤ later.cursor := another.le_cursor
  omega

/-- What is inside a statement is in front of what follows it. -/
theorem Enters.lt_cursor {read : Statement} {between later : State}
    (enters : Enters tokens state entry)
    (opened : kindAt tokens entry.cursor = some (.symbol .openBrace))
    (run : Runs tokens statement state read between)
    (inside : Leads tokens (behindBrace entry) after) (behind : Leads tokens between later) :
    after.cursor < later.cursor := by
  obtain ⟨_, _, braces, before⟩ := enters.braced_of_runs opened run
  have front := inside.lt_of_braced braces
  have back := behind.le_cursor
  omega

/-- From a state on, reading comes to a token in one state only. -/
theorem Leads.eq_of_cursor_eq {other : State} (one : Leads tokens state after)
    (another : Leads tokens state other) (same : after.cursor = other.cursor) : after = other := by
  induction one with
  | here => exact another.eq_or_lt.resolve_right (by omega)
  | next run rest ih =>
    cases another with
    | here => exact ((Leads.next run rest).eq_or_lt.resolve_right (by omega)).symm
    | next again others =>
      obtain ⟨rfl, rfl⟩ := run.unique again
      exact ih others same
    | enter enters opened inside =>
      have before := enters.lt_cursor opened run inside rest
      omega
  | enter enters opened inside ih =>
    cases another with
    | here => exact ((Leads.enter enters opened inside).eq_or_lt.resolve_right (by omega)).symm
    | next run rest =>
      have before := enters.lt_cursor opened run inside rest
      omega
    | enter entersOther openedOther insideOther =>
      rcases enters.eq_or_precedes entersOther with rfl | before | before
      · exact ih insideOther same
      · have less := before.lt_cursor inside insideOther
        omega
      · have less := before.lt_cursor insideOther inside
        omega

/-- A token is where a statement is read in one state only. -/
theorem Reached.eq_of_cursor_eq {other : State} (one : Reached tokens state)
    (another : Reached tokens other) (same : state.cursor = other.cursor) : state = other :=
  one.leads.eq_of_cursor_eq another.leads same

end MiniC.Parser
