/-
# MiniC.Proofs.Agreement.Statement — what is not spelled does not interfere

One lemma for each function of the grammar. A statement binds names that it spells, except for the
parameters of a function whose type has a name of its own; these are bound in the level of the body,
where nothing is bound yet. So statements are indifferent to all names that are not spelled from
there on.

* `unspelled_bindings` — two states that agree on what is spelled come to the same, and bindings of
  other names may be added at any level.
-/
import MiniC.Proofs.Agreement.Expression
import MiniC.Proofs.Effect.Statement

namespace MiniC

set_option autoImplicit false

namespace Parser

variable {tokens : Array Token} {start : Nat} {one other : State}

section Inside

variable {again : Parser Statement} (indifferent : Indifferent tokens start again)

include indifferent

/-! ## Blocks -/

theorem indifferent_nextInBlock (read : Array Statement) :
    Indifferent tokens start (nextInBlock again read) := by
  refine indifferent_bind indifferent_peek fun token => ?_
  split
  · exact indifferent_pure _
  · exact indifferent_pure _
  · exact indifferent_bind indifferent fun _ => indifferent_pure _

theorem indifferent_braced : Indifferent tokens start (braced again) :=
  indifferent_bind indifferent_peek fun _ => indifferent_bind (indifferent_expect _ _) fun _ =>
    indifferent_bind (indifferent_bind (indifferent_iterate (indifferent_nextInBlock indifferent) _)
      fun _ => indifferent_pure _) fun _ =>
    indifferent_bind indifferent_peek fun _ => indifferent_bind (indifferent_expect _ _) fun _ =>
      indifferent_pure _

variable (stays : Stays again)

include stays

theorem indifferent_block : Indifferent tokens start (block again) :=
  indifferent_bind (indifferent_inScope (stays_braced stays) (indifferent_braced indifferent))
    fun _ => indifferent_pure _

/-! ## Functions -/

omit stays in
/-- The parameters are bound in a level that binds nothing else. -/
theorem sameOutcome_functionBody (parameters : List Declaration) (result : Ty)
    (agree : State.AgreeInside tokens start one other) :
    SameOutcome (State.Agree tokens start) (functionBody again parameters result tokens one)
      (functionBody again parameters result tokens other) := by
  refine sameOutcome_bind (sameOutcome_forM_declare parameters agree)
    (fun _ _ inside => inside.toAgree) fun _ _ _ _ inside => ?_
  refine indifferent_bind (indifferent_returning result (indifferent_braced indifferent))
    (fun ⟨body, closing⟩ => ?_) _ _ inside.toAgree
  dsimp only
  split
  · exact indifferent_pure _
  · split
    · exact indifferent_pure _
    · exact indifferent_failAt _ _

theorem indifferent_functionDefinition (ty : Ty) {name : DeclaredName}
    (spelled : Spelled tokens start name.name) :
    Indifferent tokens start (functionDefinition again ty name) := by
  refine indifferent_bind indifferent_depth fun depth => ?_
  split
  · exact indifferent_failAt _ _
  · split
    · exact indifferent_failAt _ _
    · refine indifferent_bind (indifferent_mapM _ fun parameter => ?_) fun parameters =>
        indifferent_bind (indifferent_declare spelled) fun _ =>
        indifferent_bind (indifferent_inScope_of (stays_functionBody stays _ _)
          fun _ _ => sameOutcome_functionBody indifferent _ _) fun _ => indifferent_pure _
      split
      · exact indifferent_pure _
      · exact indifferent_failAt _ _

end Inside

/-! ## Declarations -/

/-- What a header declares is a name at one of its tokens. -/
theorem named_of_runs_namedDeclarator {state after : State} {declared : Ty × DeclaredName}
    (run : Runs tokens namedDeclarator state declared after) :
    ∃ index, state.cursor < index ∧ kindAt tokens index = some (.name declared.2.name) ∧
      declared.2.position = placeAt tokens index := by
  obtain ⟨first, _, looked, run⟩ := runs_bind.mp run
  obtain ⟨_, rfl⟩ := runs_peek.mp looked
  obtain ⟨declarator, between, reading, run⟩ := runs_bind.mp run
  split at run
  · next name named =>
    obtain ⟨rfl, _⟩ := runs_pure.mp run
    exact named_of_runs_declarator reading named
  · exact absurd run not_runs_failAt

theorem spelled_of_runs_namedDeclarator {state after : State} {declared : Ty × DeclaredName}
    (low : start ≤ state.cursor) (run : Runs tokens namedDeclarator state declared after) :
    Spelled tokens start declared.2.name := by
  obtain ⟨index, behind, here, _⟩ := named_of_runs_namedDeclarator run
  exact ⟨index, Nat.le_of_lt (Nat.lt_of_le_of_lt low behind), here⟩

/-- What follows a header may count on its name being spelled. -/
theorem indifferent_namedDeclarator_bind {α : Type} {next : Ty × DeclaredName → Parser α}
    (behind : ∀ declared, Spelled tokens start declared.2.name →
      Indifferent tokens start (next declared)) :
    Indifferent tokens start (namedDeclarator >>= next) := by
  refine indifferent_bind_of ?_
    (fun state declared after low run => spelled_of_runs_namedDeclarator low run) behind
  refine indifferent_bind indifferent_peek fun first =>
    indifferent_bind indifferent_declarator fun declared => ?_
  split
  · exact indifferent_pure _
  · exact indifferent_failAt _ _

theorem indifferent_initializer (ty : Ty) : Indifferent tokens start (initializer ty) := by
  refine indifferent_bind (indifferent_accept _) fun found => ?_
  split
  · refine indifferent_bind (indifferent_expression _) fun value => ?_
    split
    · exact indifferent_pure _
    · exact indifferent_failAt _ _
  · exact indifferent_pure _

theorem indifferent_variableDeclaration (ty : Ty) {name : DeclaredName}
    (spelled : Spelled tokens start name.name) :
    Indifferent tokens start (variableDeclaration ty name) :=
  indifferent_bind (indifferent_initializer ty) fun _ =>
    indifferent_bind (indifferent_expect _ _) fun _ =>
    indifferent_bind (indifferent_declare spelled) fun _ => indifferent_pure _

theorem indifferent_declaration {again : Parser Statement}
    (indifferent : Indifferent tokens start again) (stays : Stays again) :
    Indifferent tokens start (declaration again) := by
  refine indifferent_namedDeclarator_bind fun ⟨ty, name⟩ spelled =>
    indifferent_bind (indifferent_check _) fun braced => ?_
  split
  · exact indifferent_functionDefinition indifferent stays ty spelled
  · exact indifferent_variableDeclaration ty spelled

theorem indifferent_inferredDeclaration : Indifferent tokens start inferredDeclaration := by
  refine indifferent_bind indifferent_advance fun _ => indifferent_peek_bind fun token spelled => ?_
  split
  · next name named =>
    exact indifferent_bind indifferent_advance fun _ =>
      indifferent_bind (indifferent_expect _ _) fun _ =>
      indifferent_bind (indifferent_expression _) fun _ =>
      indifferent_bind (indifferent_expect _ _) fun _ =>
      indifferent_bind (indifferent_declare (spelled name named)) fun _ => indifferent_pure _
  · exact indifferent_fail _

theorem indifferent_typedef : Indifferent tokens start typedef :=
  indifferent_bind indifferent_advance fun _ =>
    indifferent_namedDeclarator_bind fun _ spelled =>
    indifferent_bind (indifferent_expect _ _) fun _ =>
    indifferent_bind (indifferent_define spelled _ _) fun _ => indifferent_pure _

theorem indifferent_distinct : Indifferent tokens start distinct :=
  indifferent_bind indifferent_advance fun _ =>
    indifferent_namedDeclarator_bind fun _ spelled =>
    indifferent_bind (indifferent_expect _ _) fun _ =>
    indifferent_bind (indifferent_define spelled _ _) fun _ => indifferent_pure _

/-! ## Control flow -/

theorem indifferent_condition : Indifferent tokens start condition := by
  refine indifferent_bind (indifferent_expression _) fun value => ?_
  split
  · exact indifferent_pure _
  · exact indifferent_failAt _ _

section Inside

variable {again : Parser Statement} (indifferent : Indifferent tokens start again)
  (stays : Stays again)

include indifferent stays

theorem indifferent_alternative : Indifferent tokens start (alternative again) := by
  refine indifferent_bind indifferent_peek fun token => ?_
  split
  · exact indifferent_bind indifferent_advance fun _ =>
      indifferent_bind (indifferent_block indifferent stays) fun _ => indifferent_pure _
  · exact indifferent_pure _

theorem indifferent_conditional : Indifferent tokens start (conditional again) :=
  indifferent_bind indifferent_advance fun _ => indifferent_bind indifferent_condition fun _ =>
    indifferent_bind (indifferent_block indifferent stays) fun _ =>
    indifferent_bind (indifferent_alternative indifferent stays) fun _ => indifferent_pure _

theorem indifferent_loop : Indifferent tokens start (loop again) :=
  indifferent_bind indifferent_advance fun _ => indifferent_bind indifferent_condition fun _ =>
    indifferent_bind (indifferent_block indifferent stays) fun _ => indifferent_pure _

end Inside

theorem indifferent_returnValue (result : Ty) (keyword : Position) :
    Indifferent tokens start (returnValue result keyword) := by
  refine indifferent_bind (indifferent_check _) fun bare => ?_
  split
  · split
    · exact indifferent_pure _
    · exact indifferent_failAt _ _
  · refine indifferent_bind (indifferent_expression _) fun value => ?_
    split
    · exact indifferent_failAt _ _
    · split
      · exact indifferent_pure _
      · exact indifferent_failAt _ _

theorem indifferent_ret : Indifferent tokens start ret := by
  refine indifferent_bind indifferent_advance fun keyword =>
    indifferent_bind indifferent_returnType fun result => ?_
  split
  · exact indifferent_failAt _ _
  · exact indifferent_bind (indifferent_returnValue _ _) fun _ =>
      indifferent_bind (indifferent_expect _ _) fun _ => indifferent_pure _

/-! ## Expressions -/

theorem indifferent_assignment (target : Expression) (operator : AssignmentOperator) :
    Indifferent tokens start (assignment target operator) := by
  unfold assignment
  split
  · refine indifferent_bind indifferent_advance fun _ =>
      indifferent_bind (indifferent_expression _) fun value => ?_
    split
    · exact indifferent_bind (indifferent_expect _ _) fun _ => indifferent_pure _
    · exact indifferent_failAt _ _
  · exact indifferent_failAt _ _

theorem indifferent_expressionStatement : Indifferent tokens start expressionStatement := by
  refine indifferent_bind (indifferent_expression _) fun value =>
    indifferent_bind indifferent_peek fun token => ?_
  split
  · exact indifferent_assignment _ _
  · exact indifferent_bind (indifferent_expect _ _) fun _ => indifferent_pure _

/-! ## Statements -/

theorem indifferent_statementStep {again : Parser Statement}
    (indifferent : Indifferent tokens start again) (stays : Stays again) :
    Indifferent tokens start (statementStep again) := by
  refine indifferent_bind indifferent_peek fun token => ?_
  split
  · exact indifferent_typedef
  · exact indifferent_distinct
  · exact indifferent_conditional indifferent stays
  · exact indifferent_loop indifferent stays
  · exact indifferent_ret
  · exact indifferent_inferredDeclaration
  · exact indifferent_bind (indifferent_block indifferent stays) fun _ => indifferent_pure _
  · refine indifferent_bind indifferent_isTypeName fun typed => ?_
    split
    · exact indifferent_declaration indifferent stays
    · exact indifferent_expressionStatement

theorem indifferent_nested (bound : Nat) :
    Indifferent tokens start (nested stepping bound ()) := by
  induction bound with
  | zero => exact indifferent_failAt _ _
  | succ bound ih => exact indifferent_statementStep ih (stays_nested bound)

theorem indifferent_statement : Indifferent tokens start statement := by
  intro one other agree
  have bounds : tokens.size - other.cursor = tokens.size - one.cursor := by rw [agree.cursor]
  have run : ∀ state : State, tokens.size - state.cursor = tokens.size - one.cursor →
      statement tokens state =
        nested stepping (tokens.size - one.cursor + 1) () tokens state := by
    intro state same
    rw [← same]
    rfl
  rw [run one rfl, run other bounds]
  exact indifferent_nested _ one other agree

theorem indifferent_fileStatements : Indifferent tokens start fileStatements := by
  refine indifferent_bind (indifferent_iterate (fun read => ?_) _) fun _ => indifferent_pure _
  refine indifferent_bind indifferent_peek fun token => ?_
  split
  · exact indifferent_pure _
  · exact indifferent_bind indifferent_statement fun _ => indifferent_pure _

end Parser

/-- Bindings of names that are not spelled from the cursor on leave the states agreeing. -/
theorem State.agree_of_extends {tokens : Array Token} {state : State} {scopes : Scopes}
    (paired : state.scopes.Paired)
    (extension : state.scopes.Extends (fun name => ¬Spelled tokens state.cursor name) scopes) :
    State.Agree tokens state.cursor state { state with scopes } := by
  obtain ⟨⟨depth, types, values⟩, pairedAfter⟩ := extension.agreeOn paired
  exact ⟨Nat.le_refl _, rfl, rfl, ⟨depth, fun name spelled => types name (not_not_intro spelled),
    fun name spelled => values name (not_not_intro spelled)⟩, paired, pairedAfter⟩

/-- Two states that agree on the names spelled from the cursor on come to the same, in states that
agree on these names. So bindings of other names, at whatever level, change nothing about how a
statement or the rest of a file is read. -/
theorem unspelled_bindings :
    (∀ (tokens : Array Token) (one other : State), State.Agree tokens one.cursor one other →
      Parser.SameOutcome (State.Agree tokens one.cursor) (Parser.statement tokens one)
        (Parser.statement tokens other)) ∧
    ∀ (tokens : Array Token) (state : State) (scopes : Scopes), state.scopes.Paired →
      state.scopes.Extends (fun name => ¬Spelled tokens state.cursor name) scopes →
        Parser.SameOutcome (State.Agree tokens state.cursor) (Parser.statement tokens state)
          (Parser.statement tokens { state with scopes }) ∧
        Parser.SameOutcome (State.Agree tokens state.cursor) (Parser.fileStatements tokens state)
          (Parser.fileStatements tokens { state with scopes }) := by
  refine ⟨fun tokens one other agree => Parser.indifferent_statement one other agree,
    fun tokens state scopes paired extension => ?_⟩
  have agree := State.agree_of_extends paired extension
  exact ⟨Parser.indifferent_statement _ _ agree, Parser.indifferent_fileStatements _ _ agree⟩

/-- The type `z` is known in the one state only, and `int32 y = 1; y = y;` does not spell it. -/
theorem unspelled_bindings_type :
    ∃ (tokens : List Token) (scopes : Scopes),
      tokensOf "int32 y = 1; y = y;" = .ok tokens ∧
      State.initial.scopes.findType? "z" = none ∧ scopes.findType? "z" = some Ty.bool ∧
      State.initial.scopes.Paired ∧
      State.initial.scopes.Extends (fun name => ¬Spelled tokens.toArray 0 name) scopes ∧
      State.Agree tokens.toArray 0 State.initial { State.initial with scopes } ∧
      Parser.SameOutcome (State.Agree tokens.toArray 0)
        (Parser.statement tokens.toArray State.initial)
        (Parser.statement tokens.toArray { State.initial with scopes }) ∧
      Parser.SameOutcome (State.Agree tokens.toArray 0)
        (Parser.fileStatements tokens.toArray State.initial)
        (Parser.fileStatements tokens.toArray { State.initial with scopes }) := by
  have outcome : ((tokensOf "int32 y = 1; y = y;").toOption.map
      fun tokens => tokens.all fun token => token.kind != .name "z") = some true := by
    decide +kernel
  obtain ⟨tokens, lexed, absent⟩ := exists_ok_of_map_eq_some outcome
  have unspelled : ¬Spelled tokens.toArray 0 "z" := by
    rintro ⟨index, _, spelled⟩
    obtain ⟨token, here, named, _⟩ := kindAt_eq_some spelled
    have member : token ∈ tokens := by simpa using Array.mem_of_getElem? here
    simpa [named] using List.all_eq_true.mp absent token member
  have paired : State.initial.scopes.Paired := Scopes.paired_root Ty.builtins
  have extension : State.initial.scopes.Extends (fun name => ¬Spelled tokens.toArray 0 name)
      ⟨[("z", Ty.bool) :: Ty.builtins.reverse], [[]]⟩ :=
    .type .refl unspelled ⟨[], Ty.builtins.reverse, [], rfl, rfl⟩ rfl
  have agree := State.agree_of_extends paired extension
  exact ⟨tokens, _, lexed, by decide, rfl, paired, extension, agree,
    unspelled_bindings.1 _ _ _ agree, (unspelled_bindings.2 _ _ _ paired extension).2⟩

end MiniC
