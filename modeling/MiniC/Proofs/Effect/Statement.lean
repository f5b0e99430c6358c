/-
# MiniC.Proofs.Effect.Statement — what a statement leaves in the scopes

A statement binds the one name that it says it binds, and an error leaves everything as it was. The
one exception is a function at the outermost level: it is known in its own body, so that it stays
known where the body fails. `Registers` says when that is, from the tokens alone.

Blocks are read in levels of their own, inside which functions are refused. So the exception does
not arise there, and statements in blocks stay in their level.

* `statement_effect` — what a statement does to the scopes, and what calls of a session come to.
-/
import MiniC.Proofs.Effect
import MiniC.Proofs.Session

namespace MiniC

set_option autoImplicit false

namespace Parser

variable {tokens : Array Token} {left : Scopes → Prop} {state : State}

theorem onlyMoves_depth : OnlyMoves depth :=
  fun _ state => ⟨state.cursor, rfl⟩

theorem onlyMoves_returnType : OnlyMoves returnType :=
  fun _ state => ⟨state.cursor, rfl⟩

theorem onlyMoves_parameterDeclarations (parameters : List (Parameter Ty)) :
    OnlyMoves (parameterDeclarations parameters) := by
  unfold parameterDeclarations
  induction parameters with
  | nil => exact onlyMoves_pure _
  | cons parameter rest ih =>
    rw [List.mapM_cons]
    refine onlyMoves_bind ?_ fun _ => onlyMoves_bind ih fun _ => onlyMoves_pure _
    split
    · exact onlyMoves_pure _
    · exact onlyMoves_failAt _ _

/-! ## Blocks -/

section Blocks

variable {again : Parser Statement} (inside : Stays again)

include inside

theorem stays_nextInBlock (read : Array Statement) : Stays (nextInBlock again read) := by
  refine stays_bind onlyMoves_peek.stays fun token => ?_
  split
  · exact (onlyMoves_pure _).stays
  · exact (onlyMoves_pure _).stays
  · exact stays_bind inside fun _ => (onlyMoves_pure _).stays

theorem stays_braced : Stays (braced again) :=
  stays_bind onlyMoves_peek.stays fun _ => stays_bind (onlyMoves_expect _ _).stays fun _ =>
    stays_bind (stays_bind (stays_iterate (stays_nextInBlock inside) _) fun _ =>
      (onlyMoves_pure _).stays) fun _ =>
    stays_bind onlyMoves_peek.stays fun _ => stays_bind (onlyMoves_expect _ _).stays fun _ =>
      (onlyMoves_pure _).stays

/-- A block leaves nothing in the scopes around it. -/
theorem stillAt_block (paired : state.scopes.Paired) : StillAt tokens state (block again) :=
  stillAt_bind (stillAt_inScope paired (stays_braced inside)) fun _ _ => (onlyMoves_pure _).still

theorem stays_functionBody (parameters : List Declaration) (result : Ty) :
    Stays (functionBody again parameters result) := by
  refine stays_bind (stays_forM _ stays_declare) fun _ =>
    stays_bind (stays_returning _ (stays_braced inside)) fun ⟨body, closing⟩ => ?_
  dsimp only
  split
  · exact (onlyMoves_pure _).stays
  · split
    · exact (onlyMoves_pure _).stays
    · exact (onlyMoves_failAt _ _).stays

end Blocks

/-! ## Functions -/

/-- What a declaration is followed by may change nothing more, and if it fails the declaration is
left. -/
theorem effectAt_declare_bind {declaration : Declaration} {rest : Parser Statement}
    (behind : ∀ scopes, state.scopes.declare declaration = .ok scopes →
      StillAt tokens { state with scopes } rest ∧ left scopes ∧
        ∀ statement after, Runs tokens rest { state with scopes } statement after →
          statement.Binds state.scopes scopes) :
    EffectAt tokens left state (declare declaration >>= fun _ => rest) := by
  rcases outcome : state.scopes.declare declaration with error | scopes
  · refine (effectAt_failAt error.fault error.position).of_eq ?_
    rw [bind_apply, declare, outcome]
    rfl
  · have run : (declare declaration >>= fun _ => rest) tokens state =
        rest tokens { state with scopes } := by rw [bind_apply, declare, outcome]
    obtain ⟨⟨cursor, same⟩, leaves, binds⟩ := behind scopes outcome
    refine ⟨by rw [run, same], fun statement after read => ?_, fun error after failed => ?_⟩
    · have there := run.symm.trans read
      rw [there] at same
      obtain rfl : after = { state with scopes, cursor } := same
      exact binds statement _ there
    · rw [run.symm.trans failed] at same
      obtain rfl : after = { state with scopes, cursor } := same
      exact .inr leaves

/-- The header of a function definition at the outermost level is read and names what can be
declared. -/
structure Registers (tokens : Array Token) (state : State) (declared : Declaration) : Prop where
  outermost : state.scopes.depth = 1
  free : state.scopes.findValue? declared.name = none
  signature : ∃ tag result parameters, declared.ty = .function tag result parameters ∧
    ∀ parameter ∈ parameters, parameter.name.isSome
  header : ∃ after, Runs tokens namedDeclarator state
      (declared.ty, ⟨declared.name, declared.position⟩) after ∧
    kindAt tokens after.cursor = some (.symbol .openBrace)

/-- What an error leaves in the scopes: the function whose header has been read. -/
def Leaves (tokens : Array Token) (state : State) (scopes : Scopes) : Prop :=
  ∃ declared, Registers tokens state declared ∧
    state.scopes.values.Gains declared.name declared scopes.values ∧
    scopes.types = state.scopes.types

/-- A function definition leaves its function behind, which has to be one that may be left. -/
theorem effectAt_functionDefinition {again : Parser Statement} (inside : Stays again)
    (paired : state.scopes.Paired) {ty : Ty} {name : DeclaredName}
    (leaves : ∀ tag result parameters scopes, ty = .function tag result parameters →
      (∀ parameter ∈ parameters, parameter.name.isSome) → state.scopes.depth = 1 →
      state.scopes.values.Gains name.name ⟨name.name, ty, name.position⟩ scopes.values →
      scopes.types = state.scopes.types → left scopes) :
    EffectAt tokens left state (functionDefinition again ty name) := by
  refine effectAt_bind onlyMoves_depth.still fun depth cursor looked => ?_
  obtain ⟨rfl, _⟩ := runs_depth.mp looked
  split
  · exact effectAt_failAt _ _
  · next outermost =>
    split
    · exact effectAt_failAt _ _
    · next result parameters signature =>
      obtain ⟨tag, rfl⟩ := eq_function_of_signature? signature
      refine effectAt_bind (onlyMoves_parameterDeclarations _).still
        fun declarations cursor named => ?_
      refine effectAt_declare_bind fun scopes declaring => ?_
      obtain ⟨gains, kept⟩ := Scopes.declare_eq_ok.mp declaring
      refine ⟨?_, ?_, fun statement after read => ?_⟩
      · exact stillAt_bind (stillAt_inScope (paired.declare declaring)
          (stays_functionBody inside _ _)) fun _ _ => (onlyMoves_pure _).still
      · obtain ⟨shape, _⟩ := runs_parameterDeclarations named
        refine leaves _ _ _ scopes rfl (fun parameter member => ?_) ?_ gains kept
        · rw [shape, List.mem_map] at member
          obtain ⟨_, _, rfl⟩ := member
          rfl
        · exact Nat.le_antisymm (Nat.le_of_not_lt outermost) paired.opened
      · obtain ⟨body, _, _, done⟩ := runs_bind.mp read
        obtain ⟨rfl, _⟩ := runs_pure.mp done
        exact ⟨gains, kept⟩

/-! ## Declarations -/

theorem effectAt_variableDeclaration (ty : Ty) (name : DeclaredName) :
    EffectAt tokens left state (variableDeclaration ty name) :=
  effectAt_bind (onlyMoves_initializer ty).still fun _ _ _ =>
    effectAt_bind (onlyMoves_expect _ _).still fun _ _ _ => effectAt_declare fun _ gains => gains

theorem effectAt_declaration {again : Parser Statement} (inside : Stays again)
    (paired : state.scopes.Paired) :
    EffectAt tokens (Leaves tokens state) state (declaration again) := by
  refine effectAt_bind onlyMoves_namedDeclarator.still fun ⟨ty, name⟩ cursor naming =>
    effectAt_bind (onlyMoves_check _).still fun braced cursor' looked => ?_
  obtain ⟨_, brace, same⟩ := runs_check.mp looked
  split
  · next opens =>
    have opened := brace.mp (Bool.and_eq_true_iff.mp opens).2
    have within : Scopes.Paired (State.scopes { state with cursor := cursor' }) := paired
    refine effectAt_functionDefinition inside within
      fun tag result parameters scopes shape named outermost gains kept => ?_
    refine ⟨⟨name.name, ty, name.position⟩, ⟨outermost, ?_, ?_, ?_⟩, gains, kept⟩
    · exact gains.find?_eq_none outermost
    · exact ⟨tag, result, parameters, shape, named⟩
    · exact ⟨_, naming, opened⟩
  · exact effectAt_variableDeclaration _ _

theorem effectAt_inferredDeclaration : EffectAt tokens left state inferredDeclaration := by
  refine effectAt_bind onlyMoves_advance.still fun _ _ _ =>
    effectAt_bind onlyMoves_peek.still fun token _ _ => ?_
  split
  · exact effectAt_bind onlyMoves_advance.still fun _ _ _ =>
      effectAt_bind (onlyMoves_expect _ _).still fun _ _ _ =>
      effectAt_bind (onlyMoves_expression _).still fun _ _ _ =>
      effectAt_bind (onlyMoves_expect _ _).still fun _ _ _ => effectAt_declare fun _ gains => gains
  · exact effectAt_bind onlyMoves_peek.still fun _ _ _ => effectAt_failAt _ _

theorem effectAt_typedef : EffectAt tokens left state typedef :=
  effectAt_bind onlyMoves_advance.still fun _ _ _ =>
    effectAt_bind onlyMoves_namedDeclarator.still fun _ _ _ =>
    effectAt_bind (onlyMoves_expect _ _).still fun _ _ _ => effectAt_define fun _ gains => gains

theorem effectAt_distinct : EffectAt tokens left state distinct :=
  effectAt_bind onlyMoves_advance.still fun _ _ _ =>
    effectAt_bind onlyMoves_namedDeclarator.still fun _ _ _ =>
    effectAt_bind (onlyMoves_expect _ _).still fun _ _ _ => effectAt_define fun _ gains => gains

/-! ## Control flow and expressions -/

section Blocks

variable {again : Parser Statement} (inside : Stays again) (paired : state.scopes.Paired)

include inside paired

theorem stillAt_alternative : StillAt tokens state (alternative again) := by
  refine stillAt_bind onlyMoves_peek.still fun token cursor => ?_
  split
  · exact stillAt_bind onlyMoves_advance.still fun _ _ =>
      stillAt_bind (stillAt_block inside paired) fun _ _ => (onlyMoves_pure _).still
  · exact (onlyMoves_pure _).still

theorem effectAt_conditional : EffectAt tokens left state (conditional again) :=
  effectAt_bind onlyMoves_advance.still fun _ _ _ =>
    effectAt_bind onlyMoves_condition.still fun _ _ _ =>
    effectAt_bind (stillAt_block inside paired) fun _ _ _ =>
    effectAt_bind (stillAt_alternative inside paired) fun _ _ _ => effectAt_pure rfl

theorem effectAt_loop : EffectAt tokens left state (loop again) :=
  effectAt_bind onlyMoves_advance.still fun _ _ _ =>
    effectAt_bind onlyMoves_condition.still fun _ _ _ =>
    effectAt_bind (stillAt_block inside paired) fun _ _ _ => effectAt_pure rfl

end Blocks

theorem effectAt_ret : EffectAt tokens left state ret := by
  refine effectAt_bind onlyMoves_advance.still fun _ _ _ =>
    effectAt_bind onlyMoves_returnType.still fun result _ _ => ?_
  split
  · exact effectAt_failAt _ _
  · exact effectAt_bind (onlyMoves_returnValue _ _).still fun _ _ _ =>
      effectAt_bind (onlyMoves_expect _ _).still fun _ _ _ => effectAt_pure rfl

theorem effectAt_assignment (target : Expression) (operator : AssignmentOperator) :
    EffectAt tokens left state (assignment target operator) := by
  unfold assignment
  split
  · refine effectAt_bind onlyMoves_advance.still fun _ _ _ =>
      effectAt_bind (onlyMoves_expression _).still fun value _ _ => ?_
    split
    · exact effectAt_bind (onlyMoves_expect _ _).still fun _ _ _ => effectAt_pure rfl
    · exact effectAt_failAt _ _
  · exact effectAt_failAt _ _

theorem effectAt_expressionStatement : EffectAt tokens left state expressionStatement := by
  refine effectAt_bind (onlyMoves_expression _).still fun value _ _ =>
    effectAt_bind onlyMoves_peek.still fun token _ _ => ?_
  split
  · exact effectAt_assignment _ _
  · exact effectAt_bind (onlyMoves_expect _ _).still fun _ _ _ => effectAt_pure rfl

/-! ## Statements -/

theorem effectAt_statementStep {again : Parser Statement} (inside : Stays again)
    (paired : state.scopes.Paired) :
    EffectAt tokens (Leaves tokens state) state (statementStep again) := by
  refine effectAt_bind onlyMoves_peek.still fun token cursor looked => ?_
  obtain ⟨_, same⟩ := runs_peek.mp looked
  rw [← same]
  split
  · exact effectAt_typedef
  · exact effectAt_distinct
  · exact effectAt_conditional inside paired
  · exact effectAt_loop inside paired
  · exact effectAt_ret
  · exact effectAt_inferredDeclaration
  · exact effectAt_bind (stillAt_block inside paired) fun _ _ _ => effectAt_pure rfl
  · refine effectAt_bind onlyMoves_isTypeName.still fun typed cursor looked => ?_
    obtain ⟨_, _, same⟩ := runs_isTypeName.mp looked
    rw [← same]
    split
    · exact effectAt_declaration inside paired
    · exact effectAt_expressionStatement

/-- Inside a level of its own no function can be left behind, so that statements stay there. -/
theorem stays_nested (bound : Nat) : Stays (nested stepping bound ()) := by
  induction bound with
  | zero => exact (onlyMoves_failAt _ _).stays
  | succ bound ih =>
    refine stays_of_effect fun tokens state deep =>
      (effectAt_statementStep ih deep.paired).mono ?_
    rintro scopes ⟨declared, registers, _⟩
    have outermost := registers.outermost
    have inside := deep.inside
    omega

theorem effectAt_statement (paired : state.scopes.Paired) :
    EffectAt tokens (Leaves tokens state) state statement :=
  (effectAt_statementStep (stays_nested (tokens.size - state.cursor)) paired).of_eq rfl

/-! ## Functions that are left behind -/

/-- A declarator with a type name of its own begins with one. -/
theorem namesType_of_namedDeclarator {declared : Ty × DeclaredName} {after : State}
    (run : Runs tokens namedDeclarator state declared after) :
    ∃ ty, NamesType tokens state.scopes.findType? state.cursor ty := by
  obtain ⟨first, _, looked, run⟩ := runs_bind.mp run
  obtain ⟨here, rfl⟩ := runs_peek.mp looked
  obtain ⟨declared, between, reading, _⟩ := runs_bind.mp run
  have within := Nat.le_of_lt (Array.getElem?_eq_some_iff.mp here).1
  rw [Runs, declarator, declaratorAround_eq none within] at reading
  obtain ⟨ty, _, naming, _⟩ := runs_bind.mp reading
  exact ⟨ty, (runs_typeName.mp naming).1⟩

/-- A statement that begins with a type name is a declaration. -/
theorem statementStep_of_namesType {again : Parser Statement} {ty : Ty}
    (named : NamesType tokens state.scopes.findType? state.cursor ty) :
    statementStep again tokens state = declaration again tokens state := by
  obtain ⟨spelling, found, known⟩ := named
  obtain ⟨token, here, kind, _⟩ := kindAt_eq_some found
  have typed : isTypeName tokens state = .ok true state :=
    runs_isTypeName.mpr ⟨by simp [found], iff_of_true rfl ⟨ty, spelling, found, known⟩, rfl⟩
  rw [statementStep, bind_apply, peek_apply here]
  simp only [kind, bind_apply, typed]
  rfl

theorem exists_parameterDeclarations {parameters : List (Parameter Ty)}
    (named : ∀ parameter ∈ parameters, parameter.name.isSome) :
    ∃ declarations, Runs tokens (parameterDeclarations parameters) state declarations state := by
  unfold parameterDeclarations
  induction parameters with
  | nil => exact ⟨[], rfl⟩
  | cons parameter rest ih =>
    obtain ⟨name, given⟩ := Option.isSome_iff_exists.mp (named parameter List.mem_cons_self)
    obtain ⟨declarations, run⟩ := ih fun other member => named other (List.mem_cons_of_mem _ member)
    refine ⟨⟨name, parameter.ty, parameter.position⟩ :: declarations, ?_⟩
    rw [List.mapM_cons]
    refine runs_bind.mpr ⟨_, state, ?_, runs_bind.mpr ⟨declarations, state, run, rfl⟩⟩
    rw [given]
    rfl

/-- With named parameters and a name that can be declared, a function definition makes its function
known and goes on with the body in a level of its own. -/
theorem functionDefinition_eq (again : Parser Statement) {declared : Declaration} {tag : Tag}
    {result : Ty} {parameters : List (Parameter Ty)} {scopes : Scopes}
    (shape : declared.ty = .function tag result parameters)
    (named : ∀ parameter ∈ parameters, parameter.name.isSome)
    (outermost : state.scopes.depth = 1) (declaring : state.scopes.declare declared = .ok scopes) :
    ∃ declarations,
      functionDefinition again declared.ty ⟨declared.name, declared.position⟩ tokens state =
        (inScope (functionBody again declarations result) >>= fun body =>
          pure (Statement.function declared declarations body)) tokens { state with scopes } := by
  obtain ⟨declarations, run⟩ := exists_parameterDeclarations named
  refine ⟨declarations, ?_⟩
  have known : depth tokens state = .ok 1 state := by rw [depth, outermost]
  rw [functionDefinition, bind_apply, known, shape]
  simp only [Nat.lt_irrefl, if_false, Ty.signature?, bind_apply]
  rw [run, ← shape]
  simp only [declare, declaring]

/-- A function whose header is read is known after its definition, with or without an error. -/
theorem gains_of_registers {again : Parser Statement} (inside : Stays again)
    (paired : state.scopes.Paired) {declared : Declaration}
    (registers : Registers tokens state declared) :
    state.scopes.values.Gains declared.name declared
        (stateAfter (statementStep again tokens state)).scopes.values ∧
      (stateAfter (statementStep again tokens state)).scopes.types = state.scopes.types := by
  obtain ⟨outermost, free, ⟨tag, result, parameters, shape, named⟩, after, naming, brace⟩ :=
    registers
  obtain ⟨scopes, declaring⟩ := Scopes.exists_declare outermost free
  obtain ⟨ty, begins⟩ := namesType_of_namedDeclarator naming
  have functional : declared.ty.isFunction = true := by rw [shape]; rfl
  have looked : check .openBrace tokens after = .ok true after :=
    runs_check.mpr ⟨by simp [brace], iff_of_true rfl brace, rfl⟩
  have here : after.scopes = state.scopes := by
    rw [onlyMoves_namedDeclarator.of_runs naming]
  rw [← here] at outermost declaring
  obtain ⟨declarations, definition⟩ := functionDefinition_eq again shape named outermost declaring
  have run : statementStep again tokens state =
      (inScope (functionBody again declarations result) >>= fun body =>
        pure (Statement.function declared declarations body)) tokens { after with scopes } := by
    rw [statementStep_of_namesType begins, declaration, bind_apply, naming, ← definition]
    simp only [bind_apply, looked, functional, Bool.and_self, if_true]
  -- The body is read in a level of its own.
  have pairedAfter : after.scopes.Paired := here ▸ paired
  obtain ⟨cursor, same⟩ : StillAt tokens { after with scopes }
      (inScope (functionBody again declarations result) >>= fun body =>
        pure (Statement.function declared declarations body)) :=
    stillAt_bind (stillAt_inScope (pairedAfter.declare declaring) (stays_functionBody inside _ _))
      fun _ _ => (onlyMoves_pure _).still
  rw [run, same, ← here]
  exact Scopes.declare_eq_ok.mp declaring

/-! ## The effect of a statement -/

/-- What a statement does to the state that it is read in. -/
structure StatementEffect (tokens : Array Token) (state : State) : Prop where
  returnType : (stateAfter (statement tokens state)).returnType = state.returnType
  depth : (stateAfter (statement tokens state)).scopes.depth = state.scopes.depth
  /-- The levels below the innermost one stay as they are. -/
  types : (stateAfter (statement tokens state)).scopes.types.tail = state.scopes.types.tail
  values : (stateAfter (statement tokens state)).scopes.values.tail = state.scopes.values.tail
  done : ∀ read after, Runs tokens statement state read after →
    read.Binds state.scopes after.scopes
  failed : ∀ error after, statement tokens state = .error error after →
    (∃ declared, Registers tokens state declared ∧
        state.scopes.values.Gains declared.name declared after.scopes.values ∧
        after.scopes.types = state.scopes.types) ∨
      (∀ declared, ¬Registers tokens state declared) ∧ after.scopes = state.scopes

theorem sameBelow_statement (paired : state.scopes.Paired) :
    state.scopes.SameBelow (stateAfter (statement tokens state)).scopes := by
  obtain ⟨_, done, failed⟩ : EffectAt tokens (Leaves tokens state) state statement :=
    effectAt_statement paired
  rcases result : statement tokens state with ⟨read, after⟩ | ⟨error, after⟩
  · exact (done read after result).sameBelow paired
  · show state.scopes.SameBelow after.scopes
    rcases failed error after result with same | ⟨declared, _, gains, kept⟩
    · rw [same]
      exact .refl paired
    · exact .of_values paired gains kept

theorem effect_statement (paired : state.scopes.Paired) : StatementEffect tokens state := by
  have below : state.scopes.SameBelow (stateAfter (statement tokens state)).scopes :=
    sameBelow_statement paired
  obtain ⟨returnType, done, failed⟩ : EffectAt tokens (Leaves tokens state) state statement :=
    effectAt_statement paired
  refine ⟨returnType, below.depth_eq paired, below.types, below.values, done,
    fun error after run => ?_⟩
  by_cases registered : ∃ declared, Registers tokens state declared
  · obtain ⟨declared, registers⟩ := registered
    have gains := gains_of_registers (stays_nested (tokens.size - state.cursor)) paired registers
    have ended : stateAfter (statement tokens state) = after := by rw [run]; rfl
    exact .inl ⟨declared, registers, ended ▸ gains⟩
  · refine .inr ⟨fun declared registers => registered ⟨declared, registers⟩, ?_⟩
    rcases failed error after run with same | ⟨declared, registers, _⟩
    · exact same
    · exact absurd ⟨declared, registers⟩ registered

end Parser

/-! ## Sessions -/

/-- A state outside of all blocks and functions. -/
structure State.Outermost (state : State) : Prop where
  paired : state.scopes.Paired
  single : state.scopes.depth = 1
  returnType : state.returnType = none

/-- At the outermost level a statement hides nothing that is known. -/
theorem Statement.Binds.keeps {statement : Statement} {before after : Scopes}
    (binds : statement.Binds before after) (paired : before.Paired) (single : before.depth = 1) :
    before.Keeps after := by
  unfold Statement.Binds at binds
  split at binds
  · exact .of_values single binds.1 binds.2
  · exact .of_values single binds.1 binds.2
  · exact .of_types paired single binds.1 binds.2
  · exact .of_types paired single binds.1 binds.2
  · rw [binds]
    exact .refl before

namespace Parser

variable {tokens : Array Token} {state : State}

theorem keeps_statement (outermost : state.Outermost) :
    (stateAfter (statement tokens state)).Outermost ∧
      state.scopes.Keeps (stateAfter (statement tokens state)).scopes := by
  obtain ⟨paired, single, none⟩ := outermost
  have effect : StatementEffect tokens state := effect_statement paired
  refine ⟨⟨(sameBelow_statement paired).paired, effect.depth.trans single,
    effect.returnType.trans none⟩, ?_⟩
  rcases result : statement tokens state with ⟨read, after⟩ | ⟨error, after⟩
  · exact (effect.done read after result).keeps paired single
  · show state.scopes.Keeps after.scopes
    rcases effect.failed error after result with ⟨declared, _, gains, kept⟩ | ⟨_, same⟩
    · exact .of_values single gains kept
    · rw [same]
      exact .refl state.scopes

/-- A turn of reading a file reads a statement or nothing. -/
theorem stateAfter_nextInFile (read : Array Statement) :
    stateAfter (nextInFile read tokens state) = state ∨
      stateAfter (nextInFile read tokens state) = stateAfter (statement tokens state) := by
  rw [nextInFile, bind_apply]
  rcases here : tokens[state.cursor]? with _ | token
  · have looked : peek tokens state = .error ⟨.outsideTokens, Position.start⟩ state := by
      simp [peek, here]
    rw [looked]
    exact .inl rfl
  · rw [peek_apply here]
    simp only
    generalize token.kind = kind
    cases kind with
    | endOfFile => exact .inl rfl
    | name | integer | keyword | symbol =>
      refine .inr ?_
      simp only [bind_apply]
      cases statement tokens state <;> rfl

theorem keeps_fileStatements (outermost : state.Outermost) :
    (stateAfter (fileStatements tokens state)).Outermost ∧
      state.scopes.Keeps (stateAfter (fileStatements tokens state)).scopes := by
  have ended : stateAfter (fileStatements tokens state) =
      stateAfter (iterate nextInFile #[] tokens state) := by
    rw [fileStatements, bind_apply]
    cases iterate nextInFile #[] tokens state <;> rfl
  rw [ended]
  refine stateAfter_iterate_induct
    (P := fun between => between.Outermost ∧ state.scopes.Keeps between.scopes)
    ⟨outermost, .refl state.scopes⟩ (fun read between ⟨outermost, kept⟩ => ?_) #[]
  rcases stateAfter_nextInFile read with same | same <;> rw [same]
  · exact ⟨outermost, kept⟩
  · obtain ⟨outermostAfter, keptAfter⟩ := keeps_statement outermost
    exact ⟨outermostAfter, kept.trans keptAfter⟩

end Parser

namespace Session

theorem after_add (session : Session) (first more : Nat) :
    session.after (first + more) = (session.after first).after more := by
  induction more with
  | zero => rfl
  | succ more ih => rw [← Nat.add_assoc, after, ih, after]

theorem outermost_after {path source : String} {session : Session}
    (started : start path source = .ok session) (calls : Nat) :
    (session.after calls).state.Outermost := by
  obtain ⟨tokens, found, rfl⟩ := start_eq_ok started
  exact after_induct (motive := State.Outermost) ⟨Scopes.paired_root _, rfl, rfl⟩
    (fun state outermost => (Parser.keeps_fileStatements outermost).1) calls

/-- Later calls change nothing that is known. -/
theorem keeps_after {path source : String} {session : Session}
    (started : start path source = .ok session) {earlier later : Nat} (before : earlier ≤ later) :
    (session.after earlier).state.scopes.Keeps (session.after later).state.scopes := by
  obtain ⟨more, rfl⟩ := Nat.exists_eq_add_of_le before
  rw [after_add]
  have outermost := outermost_after started earlier
  have kept := after_induct
    (motive := fun state =>
      state.Outermost ∧ (session.after earlier).state.scopes.Keeps state.scopes)
    ⟨outermost, .refl _⟩
    (fun state ⟨outermost, kept⟩ => by
      obtain ⟨outermostAfter, keptAfter⟩ := Parser.keeps_fileStatements outermost
      exact ⟨outermostAfter, kept.trans keptAfter⟩)
    more
  exact kept.2

end Session

/-- A statement binds what it names and nothing else, and an error leaves at most the function whose
header was read. So calls of a session, failed or not, stay at the outermost level, outside of all
functions, and change nothing that is known. -/
theorem statement_effect :
    (∀ (tokens : Array Token) (state : State), state.scopes.Paired →
      Parser.StatementEffect tokens state) ∧
    ∀ (path source : String) (session : Session), Session.start path source = .ok session →
      ∀ earlier later, earlier ≤ later →
        (session.after later).state.scopes.depth = 1 ∧
        (session.after later).state.returnType = none ∧
        (session.after earlier).state.scopes.Keeps (session.after later).state.scopes := by
  refine ⟨fun tokens state paired => Parser.effect_statement paired,
    fun path source session started earlier later before => ?_⟩
  obtain ⟨_, single, returnType⟩ := Session.outermost_after started later
  exact ⟨single, returnType, Session.keeps_after started before⟩

/-- The body fails at `y`; the function stays known, its parameter does not. -/
theorem statement_effect_failed_body :
    ∃ session, Session.start "body.lc" "int32 f(int32 x) \x7b return y; \x7d" = .ok session ∧
      session.state.scopes.Paired ∧ Parser.StatementEffect session.tokens session.state ∧
      session.parseFile.1.isOk = false ∧
      ((session.after 1).state.scopes.findValue? "f").isSome = true ∧
      (session.after 1).state.scopes.findValue? "x" = none ∧
      ∀ calls, (session.after calls).state.scopes.depth = 1 ∧
        (session.after calls).state.returnType = none ∧
        session.state.scopes.Keeps (session.after calls).state.scopes := by
  have outcomes : ((Session.start "body.lc" "int32 f(int32 x) \x7b return y; \x7d").toOption.map
      fun session => (session.parseFile.1.isOk,
        ((session.after 1).state.scopes.findValue? "f").isSome,
        ((session.after 1).state.scopes.findValue? "x").isSome)) = some (false, true, false) := by
    decide +kernel
  obtain ⟨session, started, outcome⟩ := exists_ok_of_map_eq_some outcomes
  obtain ⟨fails, known⟩ := Prod.mk.inj outcome
  obtain ⟨function, parameter⟩ := Prod.mk.inj known
  have paired := (Session.outermost_after started 0).paired
  exact ⟨session, started, paired, statement_effect.1 session.tokens session.state paired, fails,
    function, Option.not_isSome_iff_eq_none.mp (by simp [parameter]),
    fun calls => statement_effect.2 _ _ session started 0 calls (Nat.zero_le calls)⟩

end MiniC
