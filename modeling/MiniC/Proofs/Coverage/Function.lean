/-
# MiniC.Proofs.Coverage.Function — functions do not fall off their end

`FunctionRead` says how a function came out of its tokens: the header, the statements written
between its braces and where the closing one stands. The body is what is written, and for a `void`
function that may fall off its end, a return without a value at the closing brace behind it.

Functions stand at the outermost level only, so that every function of a file was read by one of the
statements that the file was read by, one after the other: `reads_of_runs`.

* `functions_return` — no execution falls out of a function of a file that is read.
-/
import MiniC.Proofs.Coverage
import MiniC.Proofs.Session

namespace MiniC

set_option autoImplicit false

/-! ## Where functions stand -/

/-- In checked statements functions stand at the outermost level only. -/
theorem Checked.mem_of_occurs {levels after : Levels} {result : Option Ty}
    {statements : List Statement} (checked : Checked levels result statements after)
    (opened : levels ≠ []) {declared : Declaration} {parameters : List Declaration}
    {body : Block Statement} (occurs : Occurs (.function declared parameters body) statements) :
    .function declared parameters body ∈ statements ∧ levels.tail = [] := by
  induction checked with
  | nil =>
    cases occurs with
    | here member => cases member
    | inside member => cases member
  | append before _ first second =>
    rcases occurs_append occurs with occurs | occurs
    · obtain ⟨member, outermost⟩ := first opened occurs
      exact ⟨List.mem_append_left _ member, outermost⟩
    · obtain ⟨same, opened'⟩ := before.outer opened
      obtain ⟨member, outermost⟩ := second opened' occurs
      exact ⟨List.mem_append_right _ member, same.symm.trans outermost⟩
  | block _ ih | loop _ _ _ ih | conditional _ _ _ ih =>
    rcases occurs_singleton occurs with impossible | ⟨inner, block, within⟩
    · cases impossible
    · obtain rfl := List.mem_singleton.mp block
      exact absurd (ih (List.cons_ne_nil _ _) within).2 opened
  | alternative _ _ _ _ ih other =>
    rcases occurs_singleton occurs with impossible | ⟨inner, block, within⟩
    · cases impossible
    · rcases List.mem_cons.mp block with rfl | block
      · exact absurd (ih (List.cons_ne_nil _ _) within).2 opened
      · obtain rfl := List.mem_singleton.mp block
        exact absurd (other (List.cons_ne_nil _ _) within).2 opened
  | function outermost bound _ parametersBound _ _ ih =>
    rcases occurs_singleton occurs with same | ⟨inner, block, within⟩
    · refine ⟨List.mem_singleton.mpr same, ?_⟩
      exact List.length_eq_zero_iff.mp (by rw [List.length_tail, outermost])
    · obtain rfl := List.mem_singleton.mp block
      obtain ⟨same, entered⟩ := Levels.foldlM_bind?_outer (List.cons_ne_nil _ _) parametersBound
      exact absurd (same.symm.trans (ih entered within).2) (Levels.bind?_outer bound).2
  | _ =>
    rcases occurs_singleton occurs with impossible | ⟨inner, block, within⟩
    · cases impossible
    · cases block

/-! ## Statements one after the other -/

namespace Parser

variable {tokens : Array Token} {state after : State}

/-- The statements are read one after the other. -/
inductive Reads (tokens : Array Token) : State → List Statement → State → Prop
  | done {state : State} : Reads tokens state [] state
  | next {state between after : State} {read : Statement} {rest : List Statement}
      (first : Runs tokens statement state read between)
      (others : Reads tokens between rest after) : Reads tokens state (read :: rest) after

theorem Reads.snoc {statements : List Statement} {between : State} {read : Statement}
    (before : Reads tokens state statements between)
    (last : Runs tokens statement between read after) :
    Reads tokens state (statements ++ [read]) after := by
  induction before with
  | done => exact .next last .done
  | next first _ ih => exact .next first (ih last)

/-- Before a statement of a file those in front of it are read, and behind it those that follow. -/
theorem Reads.split {earlier later : List Statement} {read : Statement}
    (reads : Reads tokens state (earlier ++ read :: later) after) :
    ∃ before behind, Reads tokens state earlier before ∧ Runs tokens statement before read behind ∧
      Reads tokens behind later after := by
  induction earlier generalizing state with
  | nil =>
    cases reads with
    | next first others => exact ⟨state, _, .done, first, others⟩
  | cons one rest ih =>
    cases reads with
    | next first others =>
      obtain ⟨before, behind, front, here, back⟩ := ih others
      exact ⟨before, behind, .next first front, here, back⟩

/-- A file is read by its statements. -/
theorem reads_of_runs {statements : List Statement}
    (run : Runs tokens fileStatements state statements after) :
    Reads tokens state statements after := by
  obtain ⟨read, _, repeated, done⟩ := runs_bind.mp run
  obtain ⟨rfl, rfl⟩ := runs_pure.mp done
  obtain ⟨last, reads, stopping⟩ := repeated.iterate_induct
    (Q := fun read between => Reads tokens state read.toList between) .done
    fun read next between after reads turn => by
      obtain ⟨value, one, rfl⟩ := runs_nextInFile_some turn
      rw [Array.toList_push]
      exact reads.snoc one
  obtain rfl := runs_nextInFile_none stopping
  exact reads

/-! ## Which statements are functions -/

/-- What the parser gives has the property. -/
def Gives {α : Type} (P : α → Prop) (parser : Parser α) : Prop :=
  ∀ (tokens : Array Token) (state : State) (value : α) (after : State),
    Runs tokens parser state value after → P value

section Gives

variable {α β : Type} {P : β → Prop}

theorem gives_pure {value : β} (holds : P value) : Gives P (pure value) := by
  intro tokens state result after run
  obtain ⟨rfl, _⟩ := runs_pure.mp run
  exact holds

theorem gives_failAt (fault : Fault) (position : Position) : Gives P (failAt fault position) :=
  fun _ _ _ _ run => absurd run not_runs_failAt

theorem gives_bind {first : Parser α} {second : α → Parser β}
    (behind : ∀ value, Gives P (second value)) : Gives P (first >>= second) := by
  intro tokens state result after run
  obtain ⟨value, between, _, run⟩ := runs_bind.mp run
  exact behind value tokens between result after run

end Gives

/-- No function. -/
def Other (statement : Statement) : Prop :=
  ∀ declared parameters body, statement ≠ .function declared parameters body

theorem gives_variableDeclaration (ty : Ty) (name : DeclaredName) :
    Gives Other (variableDeclaration ty name) :=
  gives_bind fun _ => gives_bind fun _ => gives_bind fun _ => gives_pure nofun

theorem gives_inferredDeclaration : Gives Other inferredDeclaration := by
  refine gives_bind fun _ => gives_bind fun token => ?_
  split
  · exact gives_bind fun _ => gives_bind fun _ => gives_bind fun _ => gives_bind fun _ =>
      gives_bind fun _ => gives_pure nofun
  · exact gives_bind fun _ => gives_failAt _ _

theorem gives_typedef : Gives Other typedef :=
  gives_bind fun _ => gives_bind fun _ => gives_bind fun _ => gives_bind fun _ =>
    gives_pure nofun

theorem gives_distinct : Gives Other distinct :=
  gives_bind fun _ => gives_bind fun _ => gives_bind fun _ => gives_bind fun _ =>
    gives_pure nofun

theorem gives_conditional (again : Parser Statement) : Gives Other (conditional again) :=
  gives_bind fun _ => gives_bind fun _ => gives_bind fun _ => gives_bind fun _ =>
    gives_pure nofun

theorem gives_loop (again : Parser Statement) : Gives Other (loop again) :=
  gives_bind fun _ => gives_bind fun _ => gives_bind fun _ => gives_pure nofun

theorem gives_ret : Gives Other ret := by
  refine gives_bind fun _ => gives_bind fun result => ?_
  split
  · exact gives_failAt _ _
  · exact gives_bind fun _ => gives_bind fun _ => gives_pure nofun

theorem gives_assignment (target : Expression) (operator : AssignmentOperator) :
    Gives Other (assignment target operator) := by
  unfold assignment
  split
  · refine gives_bind fun _ => gives_bind fun value => ?_
    split
    · exact gives_bind fun _ => gives_pure nofun
    · exact gives_failAt _ _
  · exact gives_failAt _ _

theorem gives_expressionStatement : Gives Other expressionStatement := by
  refine gives_bind fun _ => gives_bind fun token => ?_
  split
  · exact gives_assignment _ _
  · exact gives_bind fun _ => gives_pure nofun

/-- A statement begins with a token. -/
theorem lt_size_of_runs_statement {read : Statement}
    (run : Runs tokens statement state read after) : state.cursor < tokens.size := by
  have step : statementStep (nested stepping (tokens.size - state.cursor) ()) tokens state =
      .ok read after := run
  obtain ⟨token, _, looked, _⟩ := runs_bind.mp step
  exact (Array.getElem?_eq_some_iff.mp (runs_peek.mp looked).1).1

/-- A function is read as a declarator and a definition behind it. -/
theorem runs_functionDefinition_of_statement {declared : Declaration}
    {parameters : List Declaration} {body : Block Statement}
    (run : Runs tokens statement state (.function declared parameters body) after) :
    ∃ ty name header, Runs tokens namedDeclarator state (ty, name) header ∧
      Runs tokens (functionDefinition statement ty name) header
        (.function declared parameters body) after := by
  have within := Nat.le_of_lt (lt_size_of_runs_statement run)
  rw [Runs, statement_eq within] at run
  obtain ⟨token, _, looked, run⟩ := runs_bind.mp run
  obtain ⟨_, rfl⟩ := runs_peek.mp looked
  split at run
  · exact absurd rfl (gives_typedef _ _ _ _ run _ _ _)
  · exact absurd rfl (gives_distinct _ _ _ _ run _ _ _)
  · exact absurd rfl (gives_conditional _ _ _ _ _ run _ _ _)
  · exact absurd rfl (gives_loop _ _ _ _ _ run _ _ _)
  · exact absurd rfl (gives_ret _ _ _ _ run _ _ _)
  · exact absurd rfl (gives_inferredDeclaration _ _ _ _ run _ _ _)
  · obtain ⟨_, _, _, done⟩ := runs_bind.mp run
    cases (runs_pure.mp done).1
  · obtain ⟨typed, _, looked, run⟩ := runs_bind.mp run
    obtain ⟨_, _, rfl⟩ := runs_isTypeName.mp looked
    split at run
    · obtain ⟨⟨ty, name⟩, header, naming, run⟩ := runs_bind.mp run
      obtain ⟨braced, _, looked, run⟩ := runs_bind.mp run
      obtain ⟨_, _, rfl⟩ := runs_check.mp looked
      split at run
      · exact ⟨ty, name, header, naming, run⟩
      · exact absurd rfl (gives_variableDeclaration _ _ _ _ _ _ run _ _ _)
    · exact absurd rfl (gives_expressionStatement _ _ _ _ run _ _ _)

/-! ## Bodies -/

theorem runs_forM_declare {declarations : List Declaration}
    (run : Runs tokens (declarations.forM declare) state () after) :
    ∃ scopes, declarations.foldlM Scopes.declare state.scopes = .ok scopes ∧
      after = { state with scopes } := by
  induction declarations generalizing state with
  | nil =>
    obtain ⟨_, rfl⟩ := runs_pure.mp run
    exact ⟨state.scopes, rfl, rfl⟩
  | cons declaration rest ih =>
    obtain ⟨_, between, declaring, run⟩ := runs_bind.mp run
    obtain ⟨scopes, declared, rfl⟩ := runs_declare.mp declaring
    obtain ⟨last, others, rfl⟩ := ih run
    refine ⟨last, ?_, rfl⟩
    rw [List.foldlM_cons, declared]
    exact others

/-- Braces end with the closing one, whose place is told. -/
theorem closing_of_runs_braced {again : Parser Statement} {body : Block Statement}
    {closing : Position} (run : Runs tokens (braced again) state (body, closing) after) :
    ∃ index, after.cursor = index + 1 ∧ kindAt tokens index = some (.symbol .closeBrace) ∧
      placeAt tokens index = closing := by
  obtain ⟨opening, _, _, run⟩ := runs_bind.mp run
  obtain ⟨_, _, _, run⟩ := runs_bind.mp run
  obtain ⟨statements, between, _, run⟩ := runs_bind.mp run
  obtain ⟨last, _, looked, run⟩ := runs_bind.mp run
  obtain ⟨here, rfl⟩ := runs_peek.mp looked
  obtain ⟨_, _, passing, done⟩ := runs_bind.mp run
  obtain ⟨closes, rfl⟩ := runs_expect.mp passing
  obtain ⟨shape, rfl⟩ := runs_pure.mp done
  cases shape
  exact ⟨between.cursor, rfl, closes, placeAt_of_getElem? here⟩

/-- What becomes of the statements written in a function of the given result: only a `void` function
may fall off its end, and gets a return there. -/
structure Completed (result : Ty) (written : List Statement) (closing : Position)
    (statements : List Statement) : Prop where
  returns : result.isVoid = false → ¬Executes written .falls
  asWritten : ¬Executes written .falls → statements = written
  completed : Executes written .falls → statements = written ++ [.ret none closing]

theorem Completed.not_falls {result : Ty} {written statements : List Statement}
    {closing : Position} (completed : Completed result written closing statements) :
    ¬Executes statements .falls := by
  by_cases falls : Executes written .falls
  · rw [completed.completed falls, ← returnsOnAllPaths_iff]
    exact returnsOnAllPaths_append_ret _ _ _
  · rwa [completed.asWritten falls]

/-- A body is what is written between braces in the scope of the parameters. -/
theorem completed_of_runs {again : Parser Statement} {parameters : List Declaration} {result : Ty}
    {body : Block Statement}
    (run : Runs tokens (functionBody again parameters result) state body after) :
    ∃ opened written closing ended,
      parameters.foldlM Scopes.declare state.scopes = .ok opened ∧
      Runs tokens (braced again) ⟨state.cursor, opened, some result⟩
        (⟨written, body.position⟩, closing) ended ∧
      after = { ended with returnType := state.returnType } ∧
      Completed result written closing body.statements := by
  obtain ⟨_, _, declaring, run⟩ := runs_bind.mp run
  obtain ⟨opened, declared, rfl⟩ := runs_forM_declare declaring
  obtain ⟨⟨written, closing⟩, _, reading, run⟩ := runs_bind.mp run
  obtain ⟨ended, inside, rfl⟩ := runs_returning.mp reading
  have covered := returnsOnAllPaths_iff written.statements
  simp only at run
  split at run
  · next returns =>
    obtain ⟨rfl, rfl⟩ := runs_pure.mp run
    have whole := covered.mp returns
    exact ⟨opened, written.statements, closing, ended, declared, inside, rfl, fun _ => whole,
      fun _ => rfl, fun falls => absurd falls whole⟩
  · next falls =>
    split at run
    · next void =>
      obtain ⟨rfl, rfl⟩ := runs_pure.mp run
      refine ⟨opened, written.statements, closing, ended, declared, inside, rfl, fun other => ?_,
        fun whole => absurd (covered.mpr whole) falls, fun _ => rfl⟩
      rw [void] at other
      cases other
    · exact absurd run not_runs_failAt

/-- How a statement that is read from `before` to `after` came to be a function: behind its header,
`written` stands between its braces, the closing one of which stands at `closing`. -/
structure FunctionRead (tokens : Array Token) (before after : State) (declared : Declaration)
    (parameters : List Declaration) (body : Block Statement) (result : Ty)
    (written : List Statement) (closing : Position) : Prop where
  signature : ∃ tag, declared.ty = .function tag result
    (parameters.map fun parameter => ⟨some parameter.name, parameter.ty, parameter.position⟩)
  reading : ∃ header known opened ended,
    Runs tokens namedDeclarator before (declared.ty, ⟨declared.name, declared.position⟩) header ∧
    header.scopes.declare declared = .ok known ∧
    parameters.foldlM Scopes.declare known.push = .ok opened ∧
    Runs tokens (braced statement) ⟨header.cursor, opened, some result⟩
      (⟨written, body.position⟩, closing) ended ∧
    after.cursor = ended.cursor
  closes : ∃ index, after.cursor = index + 1 ∧
    kindAt tokens index = some (.symbol .closeBrace) ∧ placeAt tokens index = closing

theorem functionRead_of_runs {declared : Declaration} {parameters : List Declaration}
    {body : Block Statement}
    (run : Runs tokens statement state (.function declared parameters body) after) :
    ∃ result written closing,
      FunctionRead tokens state after declared parameters body result written closing ∧
        Completed result written closing body.statements := by
  obtain ⟨ty, name, header, naming, run⟩ := runs_functionDefinition_of_statement run
  obtain ⟨_, _, looked, run⟩ := runs_bind.mp run
  obtain ⟨_, rfl⟩ := runs_depth.mp looked
  split at run
  · exact absurd run not_runs_failAt
  · split at run
    · exact absurd run not_runs_failAt
    · next result _ signature =>
      obtain ⟨declarations, _, named, run⟩ := runs_bind.mp run
      obtain ⟨shape, rfl⟩ := runs_parameterDeclarations named
      obtain ⟨_, _, declaring, run⟩ := runs_bind.mp run
      obtain ⟨known, bound, rfl⟩ := runs_declare.mp declaring
      obtain ⟨_, _, reading, done⟩ := runs_bind.mp run
      obtain ⟨function, rfl⟩ := runs_pure.mp done
      cases function
      obtain ⟨_, inside, rfl⟩ := runs_inScope.mp reading
      obtain ⟨opened, written, closing, ended, entered, braces, rfl, completed⟩ :=
        completed_of_runs inside
      have closes := closing_of_runs_braced braces
      obtain ⟨tag, functional⟩ := eq_function_of_signature? signature
      rw [shape] at functional
      exact ⟨result, written, closing, ⟨⟨tag, functional⟩,
        ⟨header, known, opened, ended, naming, bound, entered, braces, rfl⟩, closes⟩, completed⟩

end Parser

/-! ## Files -/

/-- To return on all paths is to have no execution that falls out at the end. So no execution falls
out of a function of a file: one of another type than `void` is as written, and a `void` one that
may fall out as written has a return at its closing brace behind that. -/
theorem functions_return :
    (∀ statements : List Statement,
      returnsOnAllPaths statements = true ↔ ¬Executes statements .falls) ∧
    ∀ (path source : String) (file : File), parseSource path source = .ok file →
      ∃ tokens, tokensOf source = .ok tokens ∧
        ∀ declared parameters body,
          Occurs (.function declared parameters body) file.statements →
          ¬Executes body.statements .falls ∧
          ∃ earlier later before after result written closing,
            file.statements = earlier ++ .function declared parameters body :: later ∧
            Parser.Reads tokens.toArray State.initial earlier before ∧
            Parser.Runs tokens.toArray Parser.statement before
              (.function declared parameters body) after ∧
            Parser.FunctionRead tokens.toArray before after declared parameters body result written
              closing ∧
            (result.isVoid = false → body.statements = written ∧ ¬Executes written .falls) ∧
            (result.isVoid = true →
              ¬Executes written .falls ∧ body.statements = written ∨
              Executes written .falls ∧ body.statements = written ++ [.ret none closing]) := by
  refine ⟨returnsOnAllPaths_iff, fun path source file read => ?_⟩
  obtain ⟨tokens, last, found, _, run⟩ := runs_of_parseSource read
  have within : State.initial.Within [.empty] none := ⟨rfl, rfl⟩
  obtain ⟨levels, checked, _⟩ := Parser.checked_fileStatements (List.cons_ne_nil _ _) within run
  refine ⟨tokens, found, fun declared parameters body occurs => ?_⟩
  obtain ⟨member, _⟩ := checked.mem_of_occurs (List.cons_ne_nil _ _) occurs
  obtain ⟨earlier, later, shape⟩ := List.append_of_mem member
  have reads := Parser.reads_of_runs run
  rw [shape] at reads
  obtain ⟨before, after, front, here, _⟩ := reads.split
  obtain ⟨result, written, closing, functionRead, completed⟩ := Parser.functionRead_of_runs here
  refine ⟨completed.not_falls, earlier, later, before, after, result, written, closing, shape,
    front, here, functionRead, fun yields => ?_, fun void => ?_⟩
  · have whole := completed.returns yields
    exact ⟨completed.asWritten whole, whole⟩
  · by_cases falls : Executes written .falls
    · exact .inr ⟨falls, completed.completed falls⟩
    · exact .inl ⟨falls, completed.asWritten falls⟩

/-- The loop may be left, so that a return is added behind it. -/
theorem functions_return_loop :
    ∃ file declared parameters body,
      parseSource "loop.lc" "void f(int32 x) \x7b while x < 1 \x7b return; \x7d \x7d" = .ok file ∧
      Occurs (.function declared parameters body) file.statements ∧
      body.statements.length = 2 ∧ ¬Executes body.statements .falls := by
  have outcome : ((parseSource "loop.lc"
      "void f(int32 x) \x7b while x < 1 \x7b return; \x7d \x7d").toOption.map fun file =>
        file.statements.map fun statement => match statement with
          | .function _ _ body => body.statements.length
          | _ => 0) = some [2] := by
    decide +kernel
  obtain ⟨file, read, lengths⟩ := exists_ok_of_map_eq_some outcome
  obtain ⟨statement, single, shape⟩ := List.map_eq_singleton_iff.mp lengths
  split at shape
  · next declared parameters body =>
    have occurs : Occurs (.function declared parameters body) file.statements :=
      .here (by rw [single]; exact List.mem_singleton_self _)
    obtain ⟨_, _, functions⟩ := functions_return.2 _ _ file read
    exact ⟨file, declared, parameters, body, read, occurs, shape,
      (functions declared parameters body occurs).1⟩
  · cases shape

end MiniC
