/-
# MiniC.Proofs.Consumption — what is read takes a token

An expression, a declarator behind its type name and a statement begin with a token that is passed
at once, and nothing behind it goes back before it. So wherever one of them is read without an
error the cursor has moved on: `consumes_expressionAbove`, `consumes_declarator`,
`consumes_statement`. Repetitions therefore go on with a token at least in every turn.
-/
import MiniC.Parser.Progress.Statement
import MiniC.Proofs.Declarator.Component

namespace MiniC.Parser

set_option autoImplicit false

variable {α β : Type} {tokens : Array Token} {state after : State}

/-! ## Composition -/

/-- A parser that lands does not go back. -/
theorem Lands.le_cursor {parser other : Parser α}
    (lands : Lands tokens state.cursor parser other) (within : state.cursor ≤ tokens.size)
    {value : α} (run : Runs tokens parser state value after) :
    state.cursor ≤ after.cursor ∧ after.cursor ≤ tokens.size := by
  obtain ⟨_, low, high⟩ := lands state (Nat.le_refl _) within
  rw [run] at low high
  exact ⟨low, high⟩

/-- In the state the parser passes a token where it succeeds. -/
def ConsumesAt (tokens : Array Token) (state : State) (parser : Parser α) : Prop :=
  ∀ (value : α) (after : State), Runs tokens parser state value after →
    state.cursor < after.cursor ∧ after.cursor ≤ tokens.size

/-- Among the tokens the parser passes one where it succeeds. -/
def Consumes (tokens : Array Token) (parser : Parser α) : Prop :=
  ∀ state : State, state.cursor ≤ tokens.size → ConsumesAt tokens state parser

/-- What follows a token that is passed does not go back before it. -/
theorem consumesAt_bind {first : Parser α} {second : α → Parser β}
    (before : ConsumesAt tokens state first)
    (behind : ∀ value start, Lands tokens start (second value) (second value)) :
    ConsumesAt tokens state (first >>= second) := by
  intro result after run
  obtain ⟨value, between, here, there⟩ := runs_bind.mp run
  obtain ⟨less, within⟩ := before value between here
  obtain ⟨low, high⟩ := (behind value _).le_cursor within there
  exact ⟨Nat.lt_of_lt_of_le less low, high⟩

theorem consumes_bind {first : Parser α} {second : α → Parser β} (before : Consumes tokens first)
    (behind : ∀ value start, Lands tokens start (second value) (second value)) :
    Consumes tokens (first >>= second) :=
  fun state within => consumesAt_bind (before state within) behind

/-- What is read after a look at the current token may depend on it. -/
theorem consumes_peek_bind {next : Token → Parser α}
    (each : ∀ token state, tokens[state.cursor]? = some token →
      ConsumesAt tokens state (next token)) : Consumes tokens (peek >>= next) := by
  intro state _ value after run
  obtain ⟨token, _, looked, run⟩ := runs_bind.mp run
  obtain ⟨here, rfl⟩ := runs_peek.mp looked
  exact each token state here value after run

/-- A token other than the end of the file is passed. -/
theorem consumesAt_advance {token : Token} (here : tokens[state.cursor]? = some token)
    (more : token.kind ≠ .endOfFile) : ConsumesAt tokens state advance := by
  intro passed after run
  have kind := kindAt_of_getElem? here
  obtain ⟨_, rfl⟩ := (runs_advance (by simpa [kind] using more)).mp run
  exact ⟨Nat.lt_succ_self _, lt_size_of_kindAt kind⟩

theorem consumes_expect (mark : Symbol) (place : Place) :
    Consumes tokens (expect mark place) := by
  intro state _ value after run
  obtain ⟨here, rfl⟩ := runs_expect.mp run
  exact ⟨Nat.lt_succ_self _, lt_size_of_kindAt here⟩

theorem consumes_inScope {inner : Parser α} (consumes : Consumes tokens inner) :
    Consumes tokens (inScope inner) := by
  intro state within value after run
  obtain ⟨closing, inside, rfl⟩ := runs_inScope.mp run
  exact consumes { state with scopes := state.scopes.push } within value closing inside

/-! ## Declarators -/

theorem consumes_typeName : Consumes tokens typeName := by
  intro state _ ty after run
  obtain ⟨⟨spelling, here, _⟩, rfl⟩ := runs_typeName.mp run
  exact ⟨Nat.lt_succ_self _, lt_size_of_kindAt here⟩

/-- A declarator with a type name of its own passes that. -/
theorem consumes_declarator : Consumes tokens declarator := by
  intro state within declared after run
  rw [Runs, declarator, declaratorAround_eq none within] at run
  obtain ⟨ty, named, naming, run⟩ := runs_bind.mp run
  obtain ⟨less, high⟩ := consumes_typeName state within ty named naming
  -- Behind the type name stands a declarator around its type.
  have rest : Runs tokens (declaratorAround (some ty)) named declared after := by
    rw [Runs, declaratorAround_eq (some ty) high]
    exact run
  obtain ⟨low, high'⟩ := (lands_declaratorAround (some ty)).le_cursor high rest
  exact ⟨Nat.lt_of_lt_of_le less low, high'⟩

/-! ## Expressions -/

section Expressions

variable {inner : ExpressionParser}
  (lands : ∀ minimum suggested start,
    Lands tokens start (inner minimum suggested) (inner minimum suggested))
  {token : Token}

theorem consumesAt_literal (here : tokens[state.cursor]? = some token)
    (more : token.kind ≠ .endOfFile) (number : Nat) (suggested : Option Ty) :
    ConsumesAt tokens state (literal number suggested) := by
  unfold literal
  split
  · exact consumesAt_bind (consumesAt_advance here more) fun _ _ => lands_pure _
  · exact fun _ _ run => absurd run not_runs_fail

theorem consumesAt_reference (here : tokens[state.cursor]? = some token)
    (more : token.kind ≠ .endOfFile) (spelling : String) :
    ConsumesAt tokens state (reference spelling) := by
  intro value after run
  obtain ⟨found, _, sought, run⟩ := runs_bind.mp run
  obtain ⟨_, rfl⟩ := runs_findValue?.mp sought
  split at run
  · exact consumesAt_bind (consumesAt_advance here more) (fun _ _ => lands_pure _) _ _ run
  · exact absurd run not_runs_fail

include lands

theorem consumesAt_grouped (here : tokens[state.cursor]? = some token)
    (more : token.kind ≠ .endOfFile) (suggested : Option Ty) :
    ConsumesAt tokens state (grouped inner suggested) := by
  refine consumesAt_bind (consumesAt_advance here more) fun opening start =>
    lands_bind lands_isTypeName fun typed => ?_
  split
  · exact lands_cast (fun _ _ => lands _ _ _) _
  · exact lands_bind (lands _ _ _) fun _ => lands_bind (lands_expect _ _) fun _ => lands_pure _

theorem consumes_primary (suggested : Option Ty) : Consumes tokens (primary inner suggested) := by
  refine consumes_peek_bind fun token state here => ?_
  split
  · next kind => exact consumesAt_literal here (by simp [kind]) _ _
  · next kind => exact consumesAt_reference here (by simp [kind]) _
  · next kind => exact consumesAt_grouped lands here (by simp [kind]) _
  · exact fun _ _ run => absurd run not_runs_fail

theorem consumes_called (suggested : Option Ty) : Consumes tokens (called inner suggested) :=
  consumes_bind (consumes_primary lands suggested) fun _ _ =>
    lands_iterate (lands_call fun _ _ => lands _ _ _) _

theorem consumesAt_signed (here : tokens[state.cursor]? = some token)
    (more : token.kind ≠ .endOfFile) (operator : UnaryOperator) (suggested : Option Ty) :
    ConsumesAt tokens state (signed inner operator suggested) := by
  refine consumesAt_bind (consumesAt_advance here more) fun passed start =>
    lands_bind (lands _ _ _) fun operand => ?_
  split
  · exact lands_pure _
  · exact lands_failAt _ _

theorem consumes_unary (suggested : Option Ty) : Consumes tokens (unary inner suggested) := by
  refine consumes_peek_bind fun token state here => ?_
  split
  · next found =>
    exact consumesAt_signed lands here (Kind.ne_endOfFile_of_unaryOperator? found) _ _
  · have within := Nat.le_of_lt (Array.getElem?_eq_some_iff.mp here).1
    exact consumes_called lands suggested state within

theorem consumes_climb (minimum : Nat) (suggested : Option Ty) :
    Consumes tokens (climb inner minimum suggested) :=
  consumes_bind (consumes_unary lands suggested) fun _ _ =>
    lands_iterate (lands_extended (fun _ _ => lands _ _ _) minimum) _

end Expressions

/-- An expression takes at least one token. -/
theorem consumes_expressionAbove (minimum : Nat) (suggested : Option Ty) :
    Consumes tokens (expressionAbove minimum suggested) := by
  intro state within value after run
  rw [Runs, expressionAbove_eq minimum suggested within] at run
  exact consumes_climb (fun _ _ _ => lands_expressionAbove _ _) minimum suggested state within
    value after run

/-- A call that follows begins with its parenthesis. -/
theorem advancing_call : Advancing (call expressionAbove) := by
  intro callee next tokens state after within run
  obtain ⟨opened, _, looked, run⟩ := runs_bind.mp run
  obtain ⟨_, mark, rfl⟩ := runs_check.mp looked
  split at run
  · next opening =>
    obtain ⟨token, here, kind, _⟩ := kindAt_eq_some (mark.mp opening)
    split at run
    · refine consumesAt_bind (consumesAt_advance here (by simp [kind]))
        (fun _ start => ?_) _ _ run
      exact lands_bind (lands_arguments (fun _ _ => lands_expressionAbove _ _) _) fun _ =>
        lands_pure _
    · exact absurd run not_runs_fail
  · cases (runs_pure.mp run).1

/-- An operator that extends an operand is passed. -/
theorem advancing_extended (minimum : Nat) : Advancing (extended expressionAbove minimum) := by
  intro left next tokens state after within run
  obtain ⟨token, _, looked, run⟩ := runs_bind.mp run
  obtain ⟨here, rfl⟩ := runs_peek.mp looked
  split at run
  · next found =>
    split at run
    · cases (runs_pure.mp run).1
    · refine consumesAt_bind
        (consumesAt_advance here (Kind.ne_endOfFile_of_binaryOperator? found))
        (fun passed start => lands_bind (lands_expressionAbove _ _) fun right => ?_) _ _ run
      split
      · exact lands_pure _
      · exact lands_failAt _ _
  · cases (runs_pure.mp run).1

/-! ## Statements -/

theorem consumes_block : Consumes tokens (block statement) := by
  refine consumes_bind (consumes_inScope ?_) fun _ _ => lands_pure _
  refine consumes_peek_bind fun opening state here => ?_
  have within := Nat.le_of_lt (Array.getElem?_eq_some_iff.mp here).1
  exact consumesAt_bind (consumes_expect _ _ state within) fun _ _ =>
    lands_bind (lands_blockStatements lands_statement) fun _ =>
      lands_bind lands_peek fun _ => lands_bind (lands_expect _ _) fun _ => lands_pure _

theorem consumes_declaration : Consumes tokens (declaration statement) := by
  refine consumes_bind (consumes_peek_bind fun first state here => ?_) fun ⟨ty, name⟩ start =>
    lands_bind (lands_check _) fun braced => ?_
  · have within := Nat.le_of_lt (Array.getElem?_eq_some_iff.mp here).1
    refine consumesAt_bind (consumes_declarator state within) fun declared start => ?_
    split
    · exact lands_pure _
    · exact lands_failAt _ _
  · split
    · exact lands_functionDefinition lands_statement _ _
    · exact lands_variableDeclaration _ _

theorem consumes_expressionStatement : Consumes tokens expressionStatement := by
  refine consumes_bind (consumes_expressionAbove 0 none) fun value start =>
    lands_bind lands_peek fun token => ?_
  split
  · exact lands_assignment _ _
  · exact lands_bind (lands_expect _ _) fun _ => lands_pure _

section Keywords

variable {token : Token} (here : tokens[state.cursor]? = some token)
  (more : token.kind ≠ .endOfFile)

include here more

theorem consumesAt_typedef : ConsumesAt tokens state typedef :=
  consumesAt_bind (consumesAt_advance here more) fun _ _ =>
    lands_bind lands_namedDeclarator fun _ => lands_bind (lands_expect _ _) fun _ =>
      lands_bind (lands_define _ _ _) fun _ => lands_pure _

theorem consumesAt_distinct : ConsumesAt tokens state distinct :=
  consumesAt_bind (consumesAt_advance here more) fun _ _ =>
    lands_bind lands_namedDeclarator fun _ => lands_bind (lands_expect _ _) fun _ =>
      lands_bind (lands_define _ _ _) fun _ => lands_pure _

theorem consumesAt_conditional : ConsumesAt tokens state (conditional statement) :=
  consumesAt_bind (consumesAt_advance here more) fun _ _ =>
    lands_bind lands_condition fun _ => lands_bind (lands_block lands_statement) fun _ =>
      lands_bind (lands_alternative lands_statement) fun _ => lands_pure _

theorem consumesAt_loop : ConsumesAt tokens state (loop statement) :=
  consumesAt_bind (consumesAt_advance here more) fun _ _ =>
    lands_bind lands_condition fun _ => lands_bind (lands_block lands_statement) fun _ =>
      lands_pure _

theorem consumesAt_ret : ConsumesAt tokens state ret := by
  refine consumesAt_bind (consumesAt_advance here more) fun keyword _ =>
    lands_bind lands_returnType fun result => ?_
  split
  · exact lands_failAt _ _
  · exact lands_bind (lands_returnValue _ _) fun _ => lands_bind (lands_expect _ _) fun _ =>
      lands_pure _

theorem consumesAt_inferredDeclaration : ConsumesAt tokens state inferredDeclaration := by
  refine consumesAt_bind (consumesAt_advance here more) fun keyword _ =>
    lands_bind lands_peek fun name => ?_
  split
  · exact lands_bind lands_advance fun _ => lands_bind (lands_expect _ _) fun _ =>
      lands_bind (lands_expression _) fun _ => lands_bind (lands_expect _ _) fun _ =>
      lands_bind (lands_declare _) fun _ => lands_pure _
  · exact lands_fail _

end Keywords

/-- A statement takes at least one token. -/
theorem consumes_statement : Consumes tokens statement := by
  intro state within value after run
  rw [Runs, statement_eq within] at run
  refine consumes_peek_bind (fun token state here => ?_) state within value after run
  have within := Nat.le_of_lt (Array.getElem?_eq_some_iff.mp here).1
  split
  · next kind => exact consumesAt_typedef here (by simp [kind])
  · next kind => exact consumesAt_distinct here (by simp [kind])
  · next kind => exact consumesAt_conditional here (by simp [kind])
  · next kind => exact consumesAt_loop here (by simp [kind])
  · next kind => exact consumesAt_ret here (by simp [kind])
  · next kind => exact consumesAt_inferredDeclaration here (by simp [kind])
  · exact consumesAt_bind (consumes_block state within) fun _ _ => lands_pure _
  · intro value after run
    obtain ⟨typed, _, looking, run⟩ := runs_bind.mp run
    obtain ⟨_, _, rfl⟩ := runs_isTypeName.mp looking
    split at run
    · exact consumes_declaration state within value after run
    · exact consumes_expressionStatement state within value after run

/-- A further statement of a block has been passed. -/
theorem advancing_nextInBlock : Advancing (nextInBlock statement) := by
  intro read next tokens state after within run
  obtain ⟨token, _, looked, run⟩ := runs_bind.mp run
  obtain ⟨_, rfl⟩ := runs_peek.mp looked
  split at run
  · cases (runs_pure.mp run).1
  · cases (runs_pure.mp run).1
  · exact consumesAt_bind (consumes_statement state within) (fun _ _ => lands_pure _) _ _ run

theorem advancing_nextInFile : Advancing nextInFile := by
  intro read next tokens state after within run
  obtain ⟨token, _, looked, run⟩ := runs_bind.mp run
  obtain ⟨_, rfl⟩ := runs_peek.mp looked
  split at run
  · cases (runs_pure.mp run).1
  · exact consumesAt_bind (consumes_statement state within) (fun _ _ => lands_pure _) _ _ run

end MiniC.Parser
