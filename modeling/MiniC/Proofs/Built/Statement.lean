/-
# MiniC.Proofs.Built.Statement — the types that statements make

A statement makes the types of its declarators and expressions, and a `distinct` definition makes a
copy of such a type, which it names. `Made` says which copies are made: those of the definitions
that reading comes to.

* `ensuresAt_statement` — the types that a statement reads and leaves are built, and those that its
  errors tell.
* `Reached.built` — so the types that are known are built wherever a statement is to be read.
-/
import MiniC.Proofs.Built.Expression
import MiniC.Proofs.Reached

namespace MiniC

set_option autoImplicit false

/-- The types of a statement, apart from those of the statements in its blocks. -/
def Statement.types : Statement → List Ty
  | .declaration declared none => [declared.ty]
  | .declaration declared (some value) => declared.ty :: value.types
  | .typedef _ ty _ | .distinct _ ty _ => [ty]
  | .block _ | .ret none _ => []
  | .function declared parameters _ => declared.ty :: parameters.map (·.ty)
  | .conditional test .. | .loop test .. => test.types
  | .ret (some value) _ | .expression value => value.types
  | .assignment target _ value _ => target.types ++ value.types

/-- The types of the statement are built, those in its blocks aside. -/
def Statement.Built (made : String → Ty → Prop) (statement : Statement) : Prop :=
  ∀ ty ∈ statement.types, ty.Built made

namespace Parser

variable {made : String → Ty → Prop}

/-! ## Statements without blocks -/

theorem ensures_namedDeclarator :
    Ensures made (fun declared => Ty.Built made declared.1) namedDeclarator := by
  refine ensures_bind tame_peek fun first _ => ensures_bind ensures_declarator fun _ built => ?_
  split
  · exact ensures_pure built
  · exact ensures_failAt (Fault.told_of_untyped rfl) _

theorem ensures_initializer {ty : Ty} (fits : ty.Built made) :
    Ensures made (fun value => ∀ given ∈ value, Expression.Built made given) (initializer ty) := by
  refine ensures_bind (tame_accept _) fun found _ => ?_
  split
  · refine ensures_bind (ensures_expression (built_some fits)) fun value built => ?_
    split
    · exact ensures_pure fun given same => by rwa [← Option.some.inj same]
    · next differ =>
      exact ensures_failAt
        (Fault.told_of_pair rfl built.ty fits (.inr (Bool.eq_false_iff.mpr differ))) _
  · exact ensures_pure nofun

theorem ensures_variableDeclaration {ty : Ty} (fits : ty.Built made) (name : DeclaredName) :
    Ensures made (Statement.Built made) (variableDeclaration ty name) := by
  refine ensures_bind (ensures_initializer fits) fun value built =>
    ensures_bind (tame_expect _ _) fun _ _ => ensures_bind (tame_declare fits) fun _ _ =>
    ensures_pure ?_
  cases value with
  | none => exact List.forall_mem_singleton.mpr fits
  | some value => exact List.forall_mem_cons.mpr ⟨fits, built value rfl⟩

theorem ensures_inferredDeclaration : Ensures made (Statement.Built made) inferredDeclaration := by
  refine ensures_bind tame_advance fun _ _ => ensures_bind tame_peek fun token _ => ?_
  split
  · exact ensures_bind tame_advance fun _ _ => ensures_bind (tame_expect _ _) fun _ _ =>
      ensures_bind (ensures_expression nofun) fun value built =>
      ensures_bind (tame_expect _ _) fun _ _ => ensures_bind (tame_declare built.ty) fun _ _ =>
      ensures_pure (List.forall_mem_cons.mpr ⟨built.ty, built⟩)
  · exact ensures_fail (Fault.told_of_untyped rfl)

theorem ensures_typedef : Ensures made (Statement.Built made) typedef :=
  ensures_bind tame_advance fun _ _ => ensures_bind ensures_namedDeclarator fun _ built =>
    ensures_bind (tame_expect _ _) fun _ _ => ensures_bind (tame_define built _) fun _ _ =>
    ensures_pure (List.forall_mem_singleton.mpr built)

theorem ensures_condition : Ensures made (Expression.Built made) condition := by
  refine ensures_bind (ensures_expression (built_some Ty.built_bool)) fun value built => ?_
  split
  · exact ensures_pure built
  · exact ensures_failAt (Fault.told_of_single rfl built.ty) _

theorem ensures_returnValue {result : Ty} (fits : result.Built made) (keyword : Position) :
    Ensures made (fun value => ∀ given ∈ value, Expression.Built made given)
      (returnValue result keyword) := by
  refine ensures_bind (tame_check _) fun ended _ => ?_
  split
  · split
    · exact ensures_pure nofun
    · exact ensures_failAt (Fault.told_of_single rfl fits) _
  · refine ensures_bind (ensures_expression (built_some fits)) fun value built => ?_
    split
    · exact ensures_failAt (Fault.told_of_untyped rfl) _
    · split
      · exact ensures_pure fun given same => by rwa [← Option.some.inj same]
      · next differ =>
        exact ensures_failAt
          (Fault.told_of_pair rfl built.ty fits (.inr (Bool.eq_false_iff.mpr differ))) _

theorem ensures_ret : Ensures made (Statement.Built made) ret := by
  refine ensures_bind tame_advance fun keyword _ =>
    ensures_bind ensures_returnType fun found known => ?_
  split
  · exact ensures_failAt (Fault.told_of_untyped rfl) _
  · next result =>
    refine ensures_bind (ensures_returnValue (known result rfl) _) fun value built =>
      ensures_bind (tame_expect _ _) fun _ _ => ensures_pure ?_
    cases value with
    | none => exact nofun
    | some value => exact built value rfl

/-- Only `=` tells a value that has to match. -/
theorem told_of_assignmentMismatch {operator : AssignmentOperator} {target value : Ty}
    (targetBuilt : target.Built made) (valueBuilt : value.Built made)
    (refused : operator.accepts target value = false) :
    (Fault.assignmentMismatch operator target value).Told made := by
  refine Fault.told_of_pair rfl targetBuilt valueBuilt ?_
  cases operator with
  | assign => exact .inr ((Ty.compatible_comm target value).trans refused)
  | _ => exact .inl rfl

theorem ensures_assignment {target : Expression} (built : target.Built made)
    (operator : AssignmentOperator) :
    Ensures made (Statement.Built made) (assignment target operator) := by
  unfold assignment
  split
  · refine ensures_bind tame_advance fun token _ =>
      ensures_bind (ensures_expression (built_some built.ty)) fun value valueBuilt => ?_
    split
    · exact ensures_bind (tame_expect _ _) fun _ _ =>
        ensures_pure (List.forall_mem_append.mpr ⟨built, valueBuilt⟩)
    · next refused =>
      exact ensures_failAt
        (told_of_assignmentMismatch built.ty valueBuilt.ty (Bool.eq_false_iff.mpr refused)) _
  · exact ensures_failAt (Fault.told_of_untyped rfl) _

theorem ensures_expressionStatement : Ensures made (Statement.Built made) expressionStatement := by
  refine ensures_bind (ensures_expression nofun) fun value built =>
    ensures_bind tame_peek fun token _ => ?_
  split
  · exact ensures_assignment built _
  · exact ensures_bind (tame_expect _ _) fun _ _ => ensures_pure built

/-- The declarations of parameters have their types. -/
theorem ensures_parameterDeclarations {parameters : List (Parameter Ty)}
    (fits : ∀ parameter ∈ parameters, Ty.Built made parameter.ty) :
    Ensures made (fun declarations => ∀ declared ∈ declarations, Ty.Built made declared.ty)
      (parameterDeclarations parameters) := by
  unfold parameterDeclarations
  induction parameters with
  | nil => exact ensures_pure nofun
  | cons parameter rest ih =>
    obtain ⟨here, later⟩ := List.forall_mem_cons.mp fits
    rw [List.mapM_cons]
    refine ensures_bind (P := fun declared => Ty.Built made declared.ty) ?_ fun declared built =>
      ensures_bind (ih later) fun others more =>
      ensures_pure (List.forall_mem_cons.mpr ⟨built, more⟩)
    split
    · exact ensures_pure here
    · exact ensures_failAt (Fault.told_of_untyped rfl) _

theorem tame_forM_declare {declarations : List Declaration}
    (fits : ∀ declared ∈ declarations, Ty.Built made declared.ty) :
    Tame made (declarations.forM declare) := by
  induction declarations with
  | nil => exact ensures_pure trivial
  | cons declared rest ih =>
    obtain ⟨here, later⟩ := List.forall_mem_cons.mp fits
    exact ensures_bind (tame_declare here) fun _ _ => ih later

variable {tokens : Array Token} {state : State}

/-- The keyword that stands at the state is passed. -/
theorem ensuresAt_keyword_bind {α : Type} {Q : α → State → Prop} {word : Keyword}
    {next : Token → Parser α} (built : state.Built made)
    (here : kindAt tokens state.cursor = some (.keyword word))
    (behind : ∀ token, State.Built made { state with cursor := state.cursor + 1 } →
      EnsuresAt made tokens { state with cursor := state.cursor + 1 } Q (next token)) :
    EnsuresAt made tokens state Q (advance >>= next) := by
  refine ensuresAt_bind (tame_advance tokens state built) fun token _ passing ⟨_, passed⟩ => ?_
  obtain ⟨_, rfl⟩ := (runs_advance (by simp [here])).mp passing
  exact behind token passed

/-! ## Definitions of copies -/

/-- Where the state stands, which reading comes to, a definition makes a copy of a type, which it
names. -/
structure Makes (tokens : Array Token) (state : State) (name : String) (ty : Ty) : Prop where
  reached : Reached tokens state
  keyword : kindAt tokens state.cursor = some (.keyword .distinct)
  header : ∃ base declared behind,
    Runs tokens namedDeclarator { state with cursor := state.cursor + 1 } (base, declared) behind ∧
    kindAt tokens behind.cursor = some (.symbol .semicolon) ∧ declared.name = name ∧
    ty = base.distinctAt (.site declared.position) name

/-- The copy that a definition makes somewhere under the name. -/
def Made (tokens : Array Token) (name : String) (ty : Ty) : Prop :=
  ∃ state, Makes tokens state name ty

/-- What a statement reads and leaves is built. -/
def Reading (tokens : Array Token) (read : Statement) (after : State) : Prop :=
  read.Built (Made tokens) ∧ after.Built (Made tokens)

theorem ensuresAt_distinct (reached : Reached tokens state) (built : state.Built (Made tokens))
    (here : kindAt tokens state.cursor = some (.keyword .distinct)) :
    EnsuresAt (Made tokens) tokens state (Reading tokens) distinct := by
  refine ensuresAt_keyword_bind built here fun keyword passed => ?_
  refine ensuresAt_bind (ensures_namedDeclarator tokens _ passed)
    fun ⟨base, declared⟩ behind naming ⟨fits, known⟩ => ?_
  refine ensuresAt_bind (tame_expect _ _ tokens behind known) fun _ after ends ⟨_, known⟩ => ?_
  have makes : Makes tokens state declared.name
      (base.distinctAt (.site declared.position) declared.name) :=
    ⟨reached, here, base, declared, behind, naming, (runs_expect.mp ends).1, rfl, rfl⟩
  have copied := Ty.Built.distinct fits ⟨state, makes⟩
  exact ensuresAt_bind (tame_define copied _ tokens after known) fun _ _ _ ⟨_, left⟩ =>
    ensuresAt_pure ⟨List.forall_mem_singleton.mpr copied, left⟩

/-! ## Blocks -/

section Blocks

/-- Statements behind the place are known to read and leave what is built. -/
def ReadsBehind (tokens : Array Token) (start : Nat) : Prop :=
  ∀ state : State, start < state.cursor → Reached tokens state → state.Built (Made tokens) →
    EnsuresAt (Made tokens) tokens state (Reading tokens) statement

variable {start : Nat} (inner : ReadsBehind tokens start)

include inner

theorem ensuresAt_blockStatements (behind : start < state.cursor) (reached : Reached tokens state)
    (built : state.Built (Made tokens)) :
    EnsuresAt (Made tokens) tokens state (fun _ after => after.Built (Made tokens))
      (blockStatements statement) := by
  refine ensuresAt_bind (ensuresAt_iterate (I := fun _ between => start < between.cursor ∧
    Reached tokens between ∧ between.Built (Made tokens)) ?_ ⟨behind, reached, built⟩)
    fun _ _ _ done => ensuresAt_pure done.2.2
  intro read between ⟨behind, reached, built⟩
  have looked := tame_peek tokens between built
  refine ensuresAt_bind looked fun token _ look _ => ?_
  obtain ⟨_, rfl⟩ := runs_peek.mp look
  split
  · exact ensuresAt_pure ⟨behind, reached, built⟩
  · exact ensuresAt_pure ⟨behind, reached, built⟩
  · refine ensuresAt_bind (inner between behind reached built) fun value after run done =>
      ensuresAt_pure ⟨?_, reached.next run, done.2⟩
    have within := Nat.le_of_lt (lt_size_of_runs_statement run)
    exact Nat.lt_trans behind (consumes_statement between within value after run).1

/-- What stands between braces is read behind the opening one. -/
theorem ensuresAt_braced (behind : start ≤ state.cursor)
    (reached : kindAt tokens state.cursor = some (.symbol .openBrace) →
      Reached tokens (behindBrace state)) (built : state.Built (Made tokens)) :
    EnsuresAt (Made tokens) tokens state (fun _ after => after.Built (Made tokens))
      (braced statement) := by
  refine ensuresAt_bind (tame_peek tokens state built) fun opening _ look _ => ?_
  obtain ⟨_, rfl⟩ := runs_peek.mp look
  refine ensuresAt_bind (tame_expect _ _ tokens state built) fun _ _ passing ⟨_, built⟩ => ?_
  obtain ⟨opens, rfl⟩ := runs_expect.mp passing
  refine ensuresAt_bind
    (ensuresAt_blockStatements inner (Nat.lt_succ_of_le behind) (reached opens) built)
    fun statements between _ built => ?_
  exact ensuresAt_bind (tame_peek tokens between built) fun _ _ _ ⟨_, built⟩ =>
    ensuresAt_bind (tame_expect _ _ tokens _ built) fun _ _ _ ⟨_, built⟩ => ensuresAt_pure built

theorem ensuresAt_block (behind : start ≤ state.cursor)
    (reached : kindAt tokens state.cursor = some (.symbol .openBrace) →
      Reached tokens (behindBrace { state with scopes := state.scopes.push }))
    (built : state.Built (Made tokens)) :
    EnsuresAt (Made tokens) tokens state (fun _ after => after.Built (Made tokens))
      (block statement) := by
  refine ensuresAt_bind (ensuresAt_inScope (ensuresAt_braced inner behind reached built.push))
    fun _ after _ done => ?_
  obtain ⟨closing, built, rfl⟩ := done
  exact ensuresAt_pure built.pop

theorem ensuresAt_alternative (behind : start ≤ state.cursor)
    (reached : kindAt tokens state.cursor = some (.keyword .otherwise) →
      kindAt tokens (state.cursor + 1) = some (.symbol .openBrace) →
      Reached tokens
        (behindBrace { state with cursor := state.cursor + 1, scopes := state.scopes.push }))
    (built : state.Built (Made tokens)) :
    EnsuresAt (Made tokens) tokens state (fun _ after => after.Built (Made tokens))
      (alternative statement) := by
  refine ensuresAt_bind (tame_peek tokens state built) fun token _ look _ => ?_
  obtain ⟨there, rfl⟩ := runs_peek.mp look
  split
  · next follows =>
    have otherwise : kindAt tokens state.cursor = some (.keyword .otherwise) := by
      rw [kindAt_of_getElem? there, beq_iff_eq.mp follows]
    exact ensuresAt_keyword_bind built otherwise fun _ passed =>
      ensuresAt_bind (ensuresAt_block inner (Nat.le_succ_of_le behind) (reached otherwise) passed)
      fun _ _ _ after => ensuresAt_pure after
  · exact ensuresAt_pure built

/-- The body of a function is read in the scope of its parameters. -/
theorem ensuresAt_functionBody {parameters : List Declaration} {result : Ty}
    (behind : start ≤ state.cursor)
    (reached : ∀ opened, parameters.foldlM Scopes.declare state.scopes = .ok opened →
      kindAt tokens state.cursor = some (.symbol .openBrace) →
      Reached tokens (behindBrace ⟨state.cursor, opened, some result⟩))
    (fits : result.Built (Made tokens))
    (each : ∀ parameter ∈ parameters, Ty.Built (Made tokens) parameter.ty)
    (built : state.Built (Made tokens)) :
    EnsuresAt (Made tokens) tokens state (fun _ after => after.Built (Made tokens))
      (functionBody statement parameters result) := by
  refine ensuresAt_bind (tame_forM_declare each tokens state built)
    fun _ _ declaring ⟨_, known⟩ => ?_
  obtain ⟨opened, bound, rfl⟩ := runs_forM_declare declaring
  have inside : State.Built (Made tokens) ⟨state.cursor, opened, some result⟩ :=
    known.returning (built_some fits)
  refine ensuresAt_bind
    (ensuresAt_returning (ensuresAt_braced inner behind (reached opened bound) inside))
    fun ⟨body, closing⟩ _ _ done => ?_
  obtain ⟨closed, builtClosed, rfl⟩ := done
  have after := builtClosed.returning known.result
  dsimp only
  split
  · exact ensuresAt_pure after
  · split
    · exact ensuresAt_pure after
    · exact ensuresAt_failAt (Fault.told_of_untyped rfl) _

theorem ensuresAt_functionDefinition {ty : Ty} {name : DeclaredName} (behind : start ≤ state.cursor)
    (reached : ∀ tag result (parameters : List Declaration) known opened,
      ty = .function tag result (entriesOf parameters) →
      state.scopes.depth ≤ 1 → state.scopes.declare ⟨name.name, ty, name.position⟩ = .ok known →
      parameters.foldlM Scopes.declare known.push = .ok opened →
      kindAt tokens state.cursor = some (.symbol .openBrace) →
      Reached tokens (behindBrace ⟨state.cursor, opened, some result⟩))
    (fits : ty.Built (Made tokens)) (built : state.Built (Made tokens)) :
    EnsuresAt (Made tokens) tokens state (Reading tokens)
      (functionDefinition statement ty name) := by
  refine ensuresAt_bind (tame_depth tokens state built) fun depth _ looked _ => ?_
  obtain ⟨rfl, rfl⟩ := runs_depth.mp looked
  split
  · exact ensuresAt_failAt (Fault.told_of_untyped rfl) _
  · next outermost =>
    split
    · exact ensuresAt_failAt (Fault.told_of_single rfl fits) _
    · next result entries signature =>
      obtain ⟨resultBuilt, entriesBuilt⟩ := fits.signature? signature
      obtain ⟨tag, functional⟩ := eq_function_of_signature? signature
      refine ensuresAt_bind (ensures_parameterDeclarations entriesBuilt tokens state built)
        fun parameters _ named ⟨each, _⟩ => ?_
      obtain ⟨shape, rfl⟩ := runs_parameterDeclarations named
      refine ensuresAt_bind (tame_declare fits tokens state built)
        fun _ _ declaring ⟨_, known⟩ => ?_
      obtain ⟨scopes, declared, rfl⟩ := runs_declare.mp declaring
      refine ensuresAt_bind (ensuresAt_inScope (ensuresAt_functionBody inner behind
        (fun opened bound => reached tag result parameters scopes opened (by rw [functional, shape])
          (Nat.le_of_not_lt outermost) declared bound) resultBuilt each known.push))
        fun body _ _ done => ?_
      obtain ⟨closing, builtClosing, rfl⟩ := done
      refine ensuresAt_pure ⟨List.forall_mem_cons.mpr ⟨fits, fun other member => ?_⟩,
        builtClosing.pop⟩
      obtain ⟨parameter, within, rfl⟩ := List.mem_map.mp member
      exact each parameter within

end Blocks

section Statements

variable (inner : ReadsBehind tokens state.cursor) (reached : Reached tokens state)
  (built : state.Built (Made tokens))

include inner reached built

theorem ensuresAt_declaration {ty : Ty}
    (named : NamesType tokens state.scopes.findType? state.cursor ty) :
    EnsuresAt (Made tokens) tokens state (Reading tokens) (declaration statement) := by
  have within : state.cursor ≤ tokens.size := by
    obtain ⟨_, here, _⟩ := named
    exact Nat.le_of_lt (lt_size_of_kindAt here)
  refine ensuresAt_bind (ensures_namedDeclarator tokens state built)
    fun ⟨ty, name⟩ header naming ⟨fits, known⟩ =>
    ensuresAt_bind (tame_check _ tokens header known) fun braced _ looked _ => ?_
  obtain ⟨_, brace, rfl⟩ := runs_check.mp looked
  split
  · refine ensuresAt_functionDefinition inner (lands_namedDeclarator.le_cursor within naming).1
      (fun tag result parameters scopes opened shape outermost declared bound opens => ?_)
      fits known
    obtain rfl := shape
    exact reached.enter (.function naming outermost declared bound) opens
  · exact ensures_variableDeclaration fits name tokens header known

theorem ensuresAt_loop (here : kindAt tokens state.cursor = some (.keyword .loop)) :
    EnsuresAt (Made tokens) tokens state (Reading tokens) (loop statement) :=
  ensuresAt_keyword_bind built here fun _ passed =>
    ensuresAt_bind (ensures_condition tokens _ passed) fun _ _ tested ⟨fits, known⟩ =>
    ensuresAt_bind (ensuresAt_block inner (le_cursor_of_condition here tested).1
      (fun opens => reached.enter (.body (.inr here) tested) opens) known)
    fun _ _ _ after => ensuresAt_pure ⟨fits, after⟩

theorem ensuresAt_conditional (here : kindAt tokens state.cursor = some (.keyword .cond)) :
    EnsuresAt (Made tokens) tokens state (Reading tokens) (conditional statement) := by
  refine ensuresAt_keyword_bind built here fun _ passed =>
    ensuresAt_bind (ensures_condition tokens _ passed) fun test between tested ⟨fits, known⟩ => ?_
  obtain ⟨low, high⟩ := le_cursor_of_condition here tested
  refine ensuresAt_bind (ensuresAt_block inner low
    (fun opens => reached.enter (.body (.inl here) tested) opens) known)
    fun whenTrue behind first after => ?_
  have further := (consumes_block between high whenTrue behind first).1
  exact ensuresAt_bind (ensuresAt_alternative inner (Nat.le_trans low (Nat.le_of_lt further))
    (fun otherwise opens => reached.enter (.alternative here tested first otherwise) opens) after)
    fun _ _ _ after => ensuresAt_pure ⟨fits, after⟩

/-- Where the statements behind the place are known, so is the one that stands there. -/
theorem ensuresAt_statement_of_behind {token : Token}
    (current : tokens[state.cursor]? = some token) :
    EnsuresAt (Made tokens) tokens state (Reading tokens) statement := by
  have kind := kindAt_of_getElem? current
  refine EnsuresAt.of_eq ?_ (statement_of_token current)
  split
  · exact ensures_typedef tokens state built
  · next same => exact ensuresAt_distinct reached built (by rw [kind, same])
  · next same => exact ensuresAt_conditional inner reached built (by rw [kind, same])
  · next same => exact ensuresAt_loop inner reached built (by rw [kind, same])
  · exact ensures_ret tokens state built
  · exact ensures_inferredDeclaration tokens state built
  · exact ensuresAt_bind (ensuresAt_block inner (Nat.le_refl _)
      (fun opens => reached.enter (.block opens) opens) built)
      fun _ _ _ after => ensuresAt_pure ⟨nofun, after⟩
  · refine ensuresAt_bind (tame_isTypeName tokens state built) fun typed _ look _ => ?_
    obtain ⟨_, named, rfl⟩ := runs_isTypeName.mp look
    split
    · next yes =>
      obtain ⟨ty, named⟩ := named.mp yes
      exact ensuresAt_declaration inner reached built named
    · exact ensures_expressionStatement tokens state built

end Statements

/-- Where no token stands no statement is read. -/
theorem ensuresAt_statement_of_outside (outside : tokens[state.cursor]? = none) {made}
    {P : Statement → State → Prop} : EnsuresAt made tokens state P statement := by
  have step : EnsuresAt made tokens state P
      (statementStep (nested stepping (tokens.size - state.cursor) ())) := by
    refine ensuresAt_bind (P := fun _ _ => False) ⟨fun token after look => ?_, ?_⟩
      fun _ _ _ impossible => impossible.elim
    · rw [(runs_peek.mp look).1] at outside
      cases outside
    · intro error after failed
      rw [peek, outside] at failed
      cases failed
      exact Fault.told_of_untyped rfl
  exact step.of_eq rfl

/-- What a statement reads and leaves is built, and what its errors tell. -/
theorem ensuresAt_statement (reached : Reached tokens state) (built : state.Built (Made tokens)) :
    EnsuresAt (Made tokens) tokens state (Reading tokens) statement := by
  generalize left : tokens.size - state.cursor = size
  induction size using Nat.strongRecOn generalizing state with
  | ind size ih =>
    rcases current : tokens[state.cursor]? with _ | token
    · exact ensuresAt_statement_of_outside current
    · refine ensuresAt_statement_of_behind (fun later behind reached built => ?_) reached built
        current
      have within := (Array.getElem?_eq_some_iff.mp current).1
      exact ih _ (by omega) reached built rfl

theorem Enters.built {entry : State} (enters : Enters tokens state entry)
    (reached : Reached tokens state) (built : state.Built (Made tokens)) :
    entry.Built (Made tokens) := by
  have passed := built.seek (state.cursor + 1)
  cases enters with
  | block => exact built.push
  | body keyword tested => exact ((ensures_condition tokens _ passed).done _ _ tested).2.push
  | @alternative test whenTrue between behind keyword tested first otherwise =>
    have known := ((ensures_condition tokens _ passed).done _ _ tested).2
    have block := ensuresAt_block (fun _ _ reached built => ensuresAt_statement reached built)
      (Nat.zero_le _) (fun opens => reached.enter (.body (.inl keyword) tested) opens) known
    exact ((block.done whenTrue behind first).seek (behind.cursor + 1)).push
  | @function name tag result parameters header scopes opened naming outermost declaring bound =>
    obtain ⟨fits, known⟩ := (ensures_namedDeclarator tokens state built).done _ _ naming
    obtain ⟨resultBuilt, each⟩ := fits.signature? rfl
    have inside := (known.declare declaring fits).push.declareAll bound fun parameter member =>
      each _ (List.mem_map_of_mem member)
    exact inside.returning (built_some resultBuilt)

/-- All types that a state holds that reading comes to are built. -/
theorem Reached.built (reached : Reached tokens state) : state.Built (Made tokens) := by
  induction reached with
  | start => exact .initial
  | next reached run ih => exact ((ensuresAt_statement reached ih).done _ _ run).2
  | enter reached enters _ ih =>
    exact (enters.built reached ih).seek _

end Parser

end MiniC
