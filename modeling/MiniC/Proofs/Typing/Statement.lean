/-
# MiniC.Proofs.Typing.Statement — sources are read well typed

A file that is read without an error is a well typed run of statements: `checked_of_parseSource`.

Reading a statement and checking it by the rules of `Checked` go through the same levels. The lemmas
follow the grammar; each says that what is read is checked and that the levels after it are those
that are in scope. `Checked.outer` is what lets a level be closed again: statements declare in the
innermost level only.
-/
import MiniC.Proofs.Typing.Expression
import MiniC.Source

namespace MiniC

set_option autoImplicit false

/-! ## Levels -/

theorem Levels.bind?_outer {levels bound : Levels} {declaration : Declaration}
    (found : levels.bind? declaration = some bound) : bound.tail = levels.tail ∧ bound ≠ [] := by
  cases levels with
  | nil => cases found
  | cons level outer =>
    obtain ⟨next, _, rfl⟩ := Option.map_eq_some_iff.mp found
    exact ⟨rfl, List.cons_ne_nil _ _⟩

theorem Levels.foldlM_bind?_outer {levels bound : Levels} {declarations : List Declaration}
    (opened : levels ≠ []) (found : declarations.foldlM Levels.bind? levels = some bound) :
    bound.tail = levels.tail ∧ bound ≠ [] := by
  induction declarations generalizing levels with
  | nil =>
    obtain rfl := Option.some.inj found
    exact ⟨rfl, opened⟩
  | cons declaration rest ih =>
    rw [List.foldlM_cons] at found
    obtain ⟨next, here, later⟩ := Option.bind_eq_some_iff.mp found
    obtain ⟨same, more⟩ := Levels.bind?_outer here
    obtain ⟨same', more'⟩ := ih more later
    exact ⟨same'.trans same, more'⟩

/-- Statements declare in the innermost level only. -/
theorem Checked.outer {levels after : Levels} {result : Option Ty} {statements : List Statement}
    (checked : Checked levels result statements after) (opened : levels ≠ []) :
    after.tail = levels.tail ∧ after ≠ [] := by
  induction checked with
  | append _ _ before behind =>
    obtain ⟨same, more⟩ := before opened
    obtain ⟨same', more'⟩ := behind more
    exact ⟨same'.trans same, more'⟩
  | uninitialized bound | initialized _ _ bound | inferred _ bound | function _ bound =>
    exact Levels.bind?_outer bound
  | _ => exact ⟨rfl, opened⟩

/-! ## What is in scope -/

/-- Binding a declaration keeps track of the levels. -/
theorem State.Knows.declare {state : State} {scopes : Scopes} {levels : Levels}
    {declaration : Declaration} (known : state.Knows levels)
    (declared : state.scopes.declare declaration = .ok scopes) :
    ∃ bound, levels.bind? declaration = some bound ∧ scopes.values = bound.toNamespace := by
  unfold Scopes.declare at declared
  rw [known] at declared
  split at declared
  · next values bound =>
    obtain ⟨next, found, rfl⟩ := Levels.bind_toNamespace_eq_ok.mp bound
    obtain rfl := Except.ok.inj declared
    exact ⟨next, found, rfl⟩
  · cases declared
  · cases declared

/-- Closing a level gives back the levels that it was opened in. -/
theorem State.Knows.pop {state : State} {levels inner : Levels} (known : state.Knows inner)
    (outer : inner.tail = levels) (opened : levels ≠ []) :
    State.Knows { state with scopes := state.scopes.pop } levels := by
  cases inner with
  | nil => exact absurd outer.symm opened
  | cons level outer' =>
    obtain rfl : outer' = levels := outer
    have deep : 1 < state.scopes.depth := by
      have length : state.scopes.depth = (level :: outer').length := by
        rw [Scopes.depth, known, Levels.length_toNamespace]
      have := List.length_pos_iff.mpr opened
      simp only [List.length_cons] at length
      omega
    simp only [State.Knows, Scopes.pop, if_pos deep]
    rw [known]
    rfl

/-- The state stands inside the levels, and inside a function of the result, if any. -/
structure State.Within (state : State) (levels : Levels) (result : Option Ty) : Prop where
  knows : state.Knows levels
  inside : state.returnType = result

theorem State.Within.push {state : State} {levels : Levels} {result : Option Ty}
    (within : state.Within levels result) :
    State.Within { state with scopes := state.scopes.push } (.empty :: levels) result := by
  refine ⟨?_, within.inside⟩
  rw [State.Knows, Scopes.push, within.knows]
  rfl

theorem State.Within.pop {state : State} {levels inner : Levels} {result : Option Ty}
    (within : state.Within inner result) (outer : inner.tail = levels) (opened : levels ≠ []) :
    State.Within { state with scopes := state.scopes.pop } levels result :=
  ⟨within.knows.pop outer opened, within.inside⟩

namespace Parser

variable {tokens : Array Token} {levels : Levels} {result : Option Ty}
  {again : Parser Statement} {state after : State}

/-- A parser that only moves the cursor stays where it is read. -/
theorem OnlyMoves.within {α : Type} {parser : Parser α} {value : α} (moves : OnlyMoves parser)
    (run : Runs tokens parser state value after) (within : state.Within levels result) :
    after.Within levels result := by
  rw [moves.of_runs run]
  exact ⟨within.knows, within.inside⟩

/-- The statements are checked inside the levels, and what they declare is in scope after. -/
def ReadChecked (levels : Levels) (result : Option Ty) (statements : List Statement)
    (after : State) : Prop :=
  ∃ bound, Checked levels result statements bound ∧ after.Within bound result

/-- Every statement that the parser reads is checked. -/
def ReadsChecked (tokens : Array Token) (again : Parser Statement) : Prop :=
  ∀ (levels : Levels) (result : Option Ty) (state after : State) (value : Statement), levels ≠ [] →
    state.Within levels result → Runs tokens again state value after →
    ReadChecked levels result [value] after

/-! ## Blocks -/

/-- A repetition that reads one more statement in each turn reads checked statements. -/
theorem checked_iterate (checks : ReadsChecked tokens again) (opened : levels ≠ [])
    (within : state.Within levels result)
    {step : Array Statement → Parser (Option (Array Statement))}
    (reads : ∀ read next state after, Runs tokens (step read) state (some next) after →
      ∃ value, Runs tokens again state value after ∧ next = read.push value)
    (ends : ∀ read state after, Runs tokens (step read) state none after → state = after)
    {read : Array Statement} (run : Runs tokens (iterate step #[]) state read after) :
    ReadChecked levels result read.toList after := by
  obtain ⟨last, checked, turn⟩ := run.iterate_induct
    (Q := fun read between => ReadChecked levels result read.toList between)
    ⟨levels, .nil, within⟩ (by
      rintro read next between after ⟨bound, checked, within⟩ turn
      obtain ⟨value, one, rfl⟩ := reads read next between after turn
      have more := (checked.outer opened).2
      obtain ⟨further, checked', within'⟩ :=
        checks bound result between after value more within one
      refine ⟨further, ?_, within'⟩
      rw [Array.toList_push]
      exact .append checked checked')
  rw [← ends read last after turn]
  exact checked

theorem runs_nextInBlock_some {read next : Array Statement}
    (run : Runs tokens (nextInBlock again read) state (some next) after) :
    ∃ value, Runs tokens again state value after ∧ next = read.push value := by
  obtain ⟨token, _, looked, run⟩ := runs_bind.mp run
  obtain ⟨_, rfl⟩ := runs_peek.mp looked
  split at run
  · cases (runs_pure.mp run).1
  · cases (runs_pure.mp run).1
  · obtain ⟨value, _, one, done⟩ := runs_bind.mp run
    obtain ⟨same, rfl⟩ := runs_pure.mp done
    exact ⟨value, one, (Option.some.inj same).symm⟩

theorem runs_nextInBlock_none {read : Array Statement}
    (run : Runs tokens (nextInBlock again read) state none after) : state = after := by
  obtain ⟨token, _, looked, run⟩ := runs_bind.mp run
  obtain ⟨_, rfl⟩ := runs_peek.mp looked
  split at run
  · exact (runs_pure.mp run).2
  · exact (runs_pure.mp run).2
  · obtain ⟨value, _, _, done⟩ := runs_bind.mp run
    cases (runs_pure.mp done).1

theorem checked_braced (checks : ReadsChecked tokens again) (opened : levels ≠ [])
    (within : state.Within levels result) {body : Block Statement} {closing : Position}
    (run : Runs tokens (braced again) state (body, closing) after) :
    ReadChecked levels result body.statements after := by
  obtain ⟨opening, _, looked, run⟩ := runs_bind.mp run
  obtain ⟨_, rfl⟩ := runs_peek.mp looked
  obtain ⟨_, entered, entering, run⟩ := runs_bind.mp run
  have withinEntered := (onlyMoves_expect _ _).within entering within
  obtain ⟨statements, ended, reading, run⟩ := runs_bind.mp run
  obtain ⟨read, _, repeated, done⟩ := runs_bind.mp reading
  obtain ⟨rfl, rfl⟩ := runs_pure.mp done
  obtain ⟨bound, checked, withinEnded⟩ :=
    checked_iterate checks opened withinEntered (fun _ _ _ _ => runs_nextInBlock_some)
      (fun _ _ _ => runs_nextInBlock_none) repeated
  obtain ⟨closing, _, looked, run⟩ := runs_bind.mp run
  obtain ⟨_, rfl⟩ := runs_peek.mp looked
  obtain ⟨_, left, leaving, done⟩ := runs_bind.mp run
  obtain ⟨shape, rfl⟩ := runs_pure.mp done
  cases shape
  exact ⟨bound, checked, (onlyMoves_expect _ _).within leaving withinEnded⟩

/-- A block has a level of its own, which is closed behind it. -/
theorem checked_block (checks : ReadsChecked tokens again) (opened : levels ≠ [])
    (within : state.Within levels result) {body : Block Statement}
    (run : Runs tokens (block again) state body after) :
    (∃ inner, Checked (.empty :: levels) result body.statements inner) ∧
      after.Within levels result := by
  obtain ⟨⟨content, closing⟩, between, reading, done⟩ := runs_bind.mp run
  obtain ⟨rfl, rfl⟩ := runs_pure.mp done
  obtain ⟨closed, inside, rfl⟩ := runs_inScope.mp reading
  obtain ⟨inner, checked, withinClosed⟩ :=
    checked_braced checks (List.cons_ne_nil _ _) within.push inside
  have outer := (checked.outer (List.cons_ne_nil _ _)).1
  exact ⟨⟨inner, checked⟩, withinClosed.pop outer opened⟩

/-! ## Functions -/

theorem runs_parameterDeclarations {parameters : List (Parameter Ty)}
    {declarations : List Declaration}
    (run : Runs tokens (parameterDeclarations parameters) state declarations after) :
    parameters = declarations.map (fun declaration =>
      ⟨some declaration.name, declaration.ty, declaration.position⟩) ∧ state = after := by
  unfold parameterDeclarations at run
  induction parameters generalizing declarations state with
  | nil =>
    obtain ⟨rfl, rfl⟩ := runs_pure.mp run
    exact ⟨rfl, rfl⟩
  | cons parameter rest ih =>
    rw [List.mapM_cons] at run
    obtain ⟨declaration, _, named, run⟩ := runs_bind.mp run
    obtain ⟨others, _, later, done⟩ := runs_bind.mp run
    obtain ⟨rfl, rfl⟩ := runs_pure.mp done
    split at named
    · next name given =>
      obtain ⟨rfl, rfl⟩ := runs_pure.mp named
      obtain ⟨rfl, rfl⟩ := ih later
      obtain ⟨_, ty, position⟩ := parameter
      obtain rfl : _ = some name := given
      exact ⟨rfl, rfl⟩
    · exact absurd named not_runs_failAt

theorem within_declare {declaration : Declaration} {done : Unit}
    (within : state.Within levels result)
    (run : Runs tokens (declare declaration) state done after) :
    ∃ bound, levels.bind? declaration = some bound ∧ after.Within bound result := by
  obtain ⟨scopes, declared, rfl⟩ := runs_declare.mp run
  obtain ⟨bound, found, values⟩ := within.knows.declare declared
  exact ⟨bound, found, values, within.inside⟩

theorem within_forM_declare {declarations : List Declaration} {done : PUnit}
    (within : state.Within levels result)
    (run : Runs tokens (declarations.forM declare) state done after) :
    ∃ bound, declarations.foldlM Levels.bind? levels = some bound ∧ after.Within bound result := by
  induction declarations generalizing state levels with
  | nil =>
    obtain ⟨_, rfl⟩ := runs_pure.mp run
    exact ⟨levels, rfl, within⟩
  | cons declaration rest ih =>
    obtain ⟨_, between, one, later⟩ := runs_bind.mp run
    obtain ⟨next, found, withinBetween⟩ := within_declare within one
    obtain ⟨bound, found', within'⟩ := ih withinBetween later
    refine ⟨bound, ?_, within'⟩
    rw [List.foldlM_cons, found]
    exact found'

theorem returnsOnAllPaths_append_ret (statements : List Statement) (value : Option Expression)
    (position : Position) : returnsOnAllPaths (statements ++ [.ret value position]) = true := by
  induction statements with
  | nil => rfl
  | cons statement rest ih => rw [List.cons_append, returnsOnAllPaths, ih, Bool.or_true]

/-- The body of a function is checked behind its parameters, and so is the return that is added to
the body of a `void` function. -/
theorem checked_functionBody (checks : ReadsChecked tokens again) (opened : levels ≠ [])
    (within : state.Within levels result) {parameters : List Declaration} {outcome : Ty}
    {body : Block Statement}
    (run : Runs tokens (functionBody again parameters outcome) state body after) :
    ∃ bound inner, parameters.foldlM Levels.bind? levels = some bound ∧
      Checked bound (some outcome) body.statements inner ∧ returnsOnAllPaths body.statements ∧
      after.Within inner result := by
  obtain ⟨_, declared, declaring, run⟩ := runs_bind.mp run
  obtain ⟨bound, found, withinDeclared⟩ := within_forM_declare within declaring
  obtain ⟨⟨content, closing⟩, left, reading, run⟩ := runs_bind.mp run
  obtain ⟨closed, inside, rfl⟩ := runs_returning.mp reading
  have more := (Levels.foldlM_bind?_outer opened found).2
  have withinBody :
      State.Within { declared with returnType := some outcome } bound (some outcome) :=
    ⟨withinDeclared.knows, rfl⟩
  obtain ⟨inner, checked, withinClosed⟩ := checked_braced checks more withinBody inside
  have withinAfter : State.Within { closed with returnType := declared.returnType } inner result :=
    ⟨withinClosed.knows, withinDeclared.inside⟩
  simp only at run
  split at run
  · next returns =>
    obtain ⟨rfl, rfl⟩ := runs_pure.mp run
    exact ⟨bound, inner, found, checked, returns, withinAfter⟩
  · split at run
    · next void =>
      obtain ⟨rfl, rfl⟩ := runs_pure.mp run
      exact ⟨bound, inner, found, .append checked (.returnNothing void),
        returnsOnAllPaths_append_ret _ _ _, withinAfter⟩
    · exact absurd run not_runs_failAt

theorem checked_functionDefinition (checks : ReadsChecked tokens again) (opened : levels ≠ [])
    (within : state.Within levels result) {ty : Ty} {name : DeclaredName} {value : Statement}
    (run : Runs tokens (functionDefinition again ty name) state value after) :
    ReadChecked levels result [value] after := by
  obtain ⟨depth, _, counted, run⟩ := runs_bind.mp run
  obtain ⟨rfl, rfl⟩ := runs_depth.mp counted
  split at run
  · exact absurd run not_runs_failAt
  · next shallow =>
    have outermost : levels.length = 1 := by
      have length : state.scopes.depth = levels.length := by
        rw [Scopes.depth, within.knows, Levels.length_toNamespace]
      have := List.length_pos_iff.mpr opened
      omega
    split at run
    · exact absurd run not_runs_failAt
    · next outcome parameters signature =>
      obtain ⟨declarations, _, named, run⟩ := runs_bind.mp run
      obtain ⟨shape, rfl⟩ := runs_parameterDeclarations named
      obtain ⟨_, declared, declaring, run⟩ := runs_bind.mp run
      obtain ⟨bound, found, withinDeclared⟩ := within_declare within declaring
      obtain ⟨body, left, reading, done⟩ := runs_bind.mp run
      obtain ⟨rfl, rfl⟩ := runs_pure.mp done
      obtain ⟨closed, inside, rfl⟩ := runs_inScope.mp reading
      obtain ⟨entered, inner, parametersBound, checked, returns, withinClosed⟩ :=
        checked_functionBody checks (List.cons_ne_nil _ _) withinDeclared.push inside
      obtain ⟨outerEntered, moreEntered⟩ :=
        Levels.foldlM_bind?_outer (List.cons_ne_nil _ _) parametersBound
      have outer := (checked.outer moreEntered).1.trans outerEntered
      obtain ⟨tag, functional⟩ := eq_function_of_signature? signature
      rw [shape] at functional
      have after := withinClosed.pop outer (Levels.bind?_outer found).2
      exact ⟨bound, .function outermost found functional parametersBound checked returns, after⟩

/-! ## Declarations -/

theorem onlyMoves_namedDeclarator : OnlyMoves namedDeclarator := by
  apply onlyMoves_bind onlyMoves_peek
  intro first
  apply onlyMoves_bind onlyMoves_declarator
  intro declared
  split
  · exact onlyMoves_pure _
  · exact onlyMoves_failAt _ _

/-- An initializer is read under the declared type, which it fits. -/
theorem hasType_initializer (known : state.Knows levels) {ty : Ty} {value : Option Expression}
    (run : Runs tokens (initializer ty) state value after) :
    ∀ given ∈ value, HasType levels (some ty) given given.ty ∧ given.ty.compatible ty := by
  obtain ⟨found, accepted, accepting, run⟩ := runs_bind.mp run
  have knownAccepted := (onlyMoves_accept _).knows accepting known
  split at run
  · obtain ⟨read, between, reading, run⟩ := runs_bind.mp run
    have typed := hasType_expressionAbove knownAccepted reading
    split at run
    · next fits =>
      obtain ⟨rfl, _⟩ := runs_pure.mp run
      rintro given ⟨⟩
      exact ⟨typed, fits⟩
    · exact absurd run not_runs_failAt
  · obtain ⟨rfl, _⟩ := runs_pure.mp run
    rintro given ⟨⟩

theorem onlyMoves_initializer (ty : Ty) : OnlyMoves (initializer ty) := by
  apply onlyMoves_bind (onlyMoves_accept _)
  intro found
  split
  · apply onlyMoves_bind (onlyMoves_expression _)
    intro value
    split
    · exact onlyMoves_pure _
    · exact onlyMoves_failAt _ _
  · exact onlyMoves_pure _

/-- A variable is declared behind its initializer. -/
theorem checked_variableDeclaration (within : state.Within levels result) {ty : Ty}
    {name : DeclaredName} {value : Statement}
    (run : Runs tokens (variableDeclaration ty name) state value after) :
    ReadChecked levels result [value] after := by
  obtain ⟨given, initialized, initializing, run⟩ := runs_bind.mp run
  have typed := hasType_initializer within.knows initializing
  have withinInitialized := (onlyMoves_initializer ty).within initializing within
  obtain ⟨_, ended, ending, run⟩ := runs_bind.mp run
  have withinEnded := (onlyMoves_expect _ _).within ending withinInitialized
  obtain ⟨_, declared, declaring, done⟩ := runs_bind.mp run
  obtain ⟨rfl, rfl⟩ := runs_pure.mp done
  obtain ⟨bound, found, withinDeclared⟩ := within_declare withinEnded declaring
  refine ⟨bound, ?_, withinDeclared⟩
  cases given with
  | none => exact .uninitialized found
  | some given =>
    obtain ⟨givenTyped, fits⟩ := typed given rfl
    exact .initialized givenTyped fits found

theorem checked_declaration (checks : ReadsChecked tokens again) (opened : levels ≠ [])
    (within : state.Within levels result) {value : Statement}
    (run : Runs tokens (declaration again) state value after) :
    ReadChecked levels result [value] after := by
  obtain ⟨⟨ty, name⟩, named, naming, run⟩ := runs_bind.mp run
  have withinNamed := onlyMoves_namedDeclarator.within naming within
  obtain ⟨braced, looked, looking, run⟩ := runs_bind.mp run
  have withinLooked := (onlyMoves_check _).within looking withinNamed
  split at run
  · exact checked_functionDefinition checks opened withinLooked run
  · exact checked_variableDeclaration withinLooked run

theorem checked_inferredDeclaration (within : state.Within levels result) {value : Statement}
    (run : Runs tokens inferredDeclaration state value after) :
    ReadChecked levels result [value] after := by
  obtain ⟨keyword, begun, beginning, run⟩ := runs_bind.mp run
  have withinBegun := onlyMoves_advance.within beginning within
  obtain ⟨token, _, looked, run⟩ := runs_bind.mp run
  obtain ⟨_, rfl⟩ := runs_peek.mp looked
  split at run
  · next spelling _ =>
    obtain ⟨_, passed, passing, run⟩ := runs_bind.mp run
    have withinPassed := onlyMoves_advance.within passing withinBegun
    obtain ⟨_, entered, entering, run⟩ := runs_bind.mp run
    have withinEntered := (onlyMoves_expect _ _).within entering withinPassed
    obtain ⟨given, read, reading, run⟩ := runs_bind.mp run
    have typed := hasType_expressionAbove withinEntered.knows reading
    have withinRead := (onlyMoves_expression _).within reading withinEntered
    obtain ⟨_, ended, ending, run⟩ := runs_bind.mp run
    have withinEnded := (onlyMoves_expect _ _).within ending withinRead
    obtain ⟨_, declared, declaring, done⟩ := runs_bind.mp run
    obtain ⟨rfl, rfl⟩ := runs_pure.mp done
    obtain ⟨bound, found, withinDeclared⟩ := within_declare withinEnded declaring
    exact ⟨bound, .inferred typed found, withinDeclared⟩
  · exact absurd run not_runs_fail

/-! ## Types -/

/-- Naming a type leaves the values that are in scope. -/
theorem within_define {name : String} {ty : Ty} {position : Position} {done : Unit}
    (within : state.Within levels result)
    (run : Runs tokens (define name ty position) state done after) :
    after.Within levels result := by
  obtain ⟨scopes, defined, rfl⟩ := runs_define.mp run
  unfold Scopes.define at defined
  split at defined
  · obtain rfl := Except.ok.inj defined
    exact ⟨within.knows, within.inside⟩
  · cases defined
  · cases defined

theorem checked_typedef (within : state.Within levels result) {value : Statement}
    (run : Runs tokens typedef state value after) : ReadChecked levels result [value] after := by
  obtain ⟨keyword, begun, beginning, run⟩ := runs_bind.mp run
  have withinBegun := onlyMoves_advance.within beginning within
  obtain ⟨⟨ty, name⟩, named, naming, run⟩ := runs_bind.mp run
  have withinNamed := onlyMoves_namedDeclarator.within naming withinBegun
  obtain ⟨_, ended, ending, run⟩ := runs_bind.mp run
  have withinEnded := (onlyMoves_expect _ _).within ending withinNamed
  obtain ⟨_, defined, defining, done⟩ := runs_bind.mp run
  obtain ⟨rfl, rfl⟩ := runs_pure.mp done
  exact ⟨levels, .typedef, within_define withinEnded defining⟩

theorem checked_distinct (within : state.Within levels result) {value : Statement}
    (run : Runs tokens distinct state value after) : ReadChecked levels result [value] after := by
  obtain ⟨keyword, begun, beginning, run⟩ := runs_bind.mp run
  have withinBegun := onlyMoves_advance.within beginning within
  obtain ⟨⟨base, name⟩, named, naming, run⟩ := runs_bind.mp run
  have withinNamed := onlyMoves_namedDeclarator.within naming withinBegun
  obtain ⟨_, ended, ending, run⟩ := runs_bind.mp run
  have withinEnded := (onlyMoves_expect _ _).within ending withinNamed
  obtain ⟨_, defined, defining, done⟩ := runs_bind.mp run
  obtain ⟨rfl, rfl⟩ := runs_pure.mp done
  have label : (base.distinctAt (.site name.position) name.name).label = some name.name := by
    rw [Ty.label, Ty.distinctAt, Ty.tag_retag]
  exact ⟨levels, .distinct label, within_define withinEnded defining⟩

/-! ## Control flow -/

theorem onlyMoves_condition : OnlyMoves condition := by
  apply onlyMoves_bind (onlyMoves_expression _)
  intro value
  split
  · exact onlyMoves_pure _
  · exact onlyMoves_failAt _ _

theorem hasType_condition (known : state.Knows levels) {test : Expression}
    (run : Runs tokens condition state test after) :
    HasType levels (some Ty.bool) test test.ty ∧ test.ty.isBool := by
  obtain ⟨value, between, reading, run⟩ := runs_bind.mp run
  have typed := hasType_expressionAbove known reading
  split at run
  · next boolean =>
    obtain ⟨rfl, _⟩ := runs_pure.mp run
    exact ⟨typed, boolean⟩
  · exact absurd run not_runs_failAt

theorem checked_alternative (checks : ReadsChecked tokens again) (opened : levels ≠ [])
    (within : state.Within levels result) {otherwise : Option (Block Statement)}
    (run : Runs tokens (alternative again) state otherwise after) :
    (∀ body ∈ otherwise, ∃ inner, Checked (.empty :: levels) result body.statements inner) ∧
      after.Within levels result := by
  obtain ⟨token, _, looked, run⟩ := runs_bind.mp run
  obtain ⟨_, rfl⟩ := runs_peek.mp looked
  split at run
  · obtain ⟨_, passed, passing, run⟩ := runs_bind.mp run
    have withinPassed := onlyMoves_advance.within passing within
    obtain ⟨body, _, reading, done⟩ := runs_bind.mp run
    obtain ⟨rfl, rfl⟩ := runs_pure.mp done
    obtain ⟨inside, withinAfter⟩ := checked_block checks opened withinPassed reading
    refine ⟨?_, withinAfter⟩
    rintro given ⟨⟩
    exact inside
  · obtain ⟨rfl, rfl⟩ := runs_pure.mp run
    refine ⟨?_, within⟩
    rintro given ⟨⟩

theorem checked_conditional (checks : ReadsChecked tokens again) (opened : levels ≠ [])
    (within : state.Within levels result) {value : Statement}
    (run : Runs tokens (conditional again) state value after) :
    ReadChecked levels result [value] after := by
  obtain ⟨keyword, begun, beginning, run⟩ := runs_bind.mp run
  have withinBegun := onlyMoves_advance.within beginning within
  obtain ⟨test, tested, testing, run⟩ := runs_bind.mp run
  have withinTested := onlyMoves_condition.within testing withinBegun
  obtain ⟨typed, boolean⟩ := hasType_condition withinBegun.knows testing
  obtain ⟨whenTrue, chosen, choosing, run⟩ := runs_bind.mp run
  obtain ⟨⟨inner, checked⟩, withinChosen⟩ := checked_block checks opened withinTested choosing
  obtain ⟨otherwise, _, declining, done⟩ := runs_bind.mp run
  obtain ⟨rfl, rfl⟩ := runs_pure.mp done
  obtain ⟨others, withinAfter⟩ := checked_alternative checks opened withinChosen declining
  refine ⟨levels, ?_, withinAfter⟩
  cases otherwise with
  | none => exact .conditional typed boolean checked
  | some body =>
    obtain ⟨other, otherChecked⟩ := others body rfl
    exact .alternative typed boolean checked otherChecked

theorem checked_loop (checks : ReadsChecked tokens again) (opened : levels ≠ [])
    (within : state.Within levels result) {value : Statement}
    (run : Runs tokens (loop again) state value after) :
    ReadChecked levels result [value] after := by
  obtain ⟨keyword, begun, beginning, run⟩ := runs_bind.mp run
  have withinBegun := onlyMoves_advance.within beginning within
  obtain ⟨test, tested, testing, run⟩ := runs_bind.mp run
  have withinTested := onlyMoves_condition.within testing withinBegun
  obtain ⟨typed, boolean⟩ := hasType_condition withinBegun.knows testing
  obtain ⟨body, _, repeating, done⟩ := runs_bind.mp run
  obtain ⟨rfl, rfl⟩ := runs_pure.mp done
  obtain ⟨⟨inner, checked⟩, withinAfter⟩ := checked_block checks opened withinTested repeating
  exact ⟨levels, .loop typed boolean checked, withinAfter⟩

theorem onlyMoves_returnValue (result : Ty) (keyword : Position) :
    OnlyMoves (returnValue result keyword) := by
  apply onlyMoves_bind (onlyMoves_check _)
  intro ended
  split
  · split
    · exact onlyMoves_pure _
    · exact onlyMoves_failAt _ _
  · apply onlyMoves_bind (onlyMoves_expression _)
    intro value
    split
    · exact onlyMoves_failAt _ _
    · split
      · exact onlyMoves_pure _
      · exact onlyMoves_failAt _ _

/-- A value is returned from a function that yields one, and is read under its result. -/
theorem checked_returnValue (known : state.Knows levels) {outcome : Ty}
    {keyword position : Position} {value : Option Expression}
    (run : Runs tokens (returnValue outcome keyword) state value after) :
    Checked levels (some outcome) [.ret value position] levels := by
  obtain ⟨ended, _, looking, run⟩ := runs_bind.mp run
  obtain ⟨_, _, _, rfl⟩ := runs_check.mp looking
  split at run
  · split at run
    · next void =>
      obtain ⟨rfl, _⟩ := runs_pure.mp run
      exact .returnNothing void
    · exact absurd run not_runs_failAt
  · obtain ⟨given, _, reading, run⟩ := runs_bind.mp run
    have typed := hasType_expressionAbove known reading
    split at run
    · exact absurd run not_runs_failAt
    · next yields =>
      split at run
      · next fits =>
        obtain ⟨rfl, _⟩ := runs_pure.mp run
        exact .returnValue typed (Bool.eq_false_iff.mpr yields) fits
      · exact absurd run not_runs_failAt

theorem checked_ret (within : state.Within levels result) {value : Statement}
    (run : Runs tokens ret state value after) : ReadChecked levels result [value] after := by
  obtain ⟨keyword, begun, beginning, run⟩ := runs_bind.mp run
  have withinBegun := onlyMoves_advance.within beginning within
  obtain ⟨enclosing, _, asked, run⟩ := runs_bind.mp run
  obtain ⟨inside, rfl⟩ := runs_returnType.mp asked
  split at run
  · exact absurd run not_runs_failAt
  · next outcome =>
    obtain rfl : some outcome = result := inside.symm.trans withinBegun.inside
    obtain ⟨given, read, reading, run⟩ := runs_bind.mp run
    have withinRead := (onlyMoves_returnValue _ _).within reading withinBegun
    obtain ⟨_, ended, ending, done⟩ := runs_bind.mp run
    obtain ⟨rfl, rfl⟩ := runs_pure.mp done
    have checked : Checked levels (some outcome) [.ret given keyword.position] levels :=
      checked_returnValue withinBegun.knows reading
    exact ⟨levels, checked, (onlyMoves_expect _ _).within ending withinRead⟩

/-! ## Expressions -/

/-- What an assignment operator accepts is what the rules for assignments ask for. -/
theorem checked_assigned {target value : Expression} {operator : AssignmentOperator}
    {position : Position} (assignable : target.isAssignable)
    (targetTyped : HasType levels none target target.ty)
    (valueTyped : HasType levels (some target.ty) value value.ty)
    (accepted : operator.accepts target.ty value.ty) :
    Checked levels result [.assignment target operator value position] levels := by
  by_cases plain : operator = .assign
  · subst plain
    exact .assignment assignable targetTyped valueTyped accepted
  · have arithmetic : target.ty.isInteger ∧ value.ty.isInteger ∧
        target.ty.compatible value.ty := by
      cases operator <;> simp_all [AssignmentOperator.accepts, AssignmentOperator.binary?,
        BinaryOperator.result?, BinaryOperator.isArithmetic]
    obtain ⟨integral, otherIntegral, fits⟩ := arithmetic
    exact .compoundAssignment plain assignable targetTyped valueTyped integral otherIntegral fits

theorem checked_assignment (within : state.Within levels result) {target : Expression}
    (targetTyped : HasType levels none target target.ty) {operator : AssignmentOperator}
    {value : Statement} (run : Runs tokens (assignment target operator) state value after) :
    ReadChecked levels result [value] after := by
  unfold assignment at run
  split at run
  · next assignable =>
    obtain ⟨token, passed, passing, run⟩ := runs_bind.mp run
    have withinPassed := onlyMoves_advance.within passing within
    obtain ⟨given, read, reading, run⟩ := runs_bind.mp run
    have valueTyped := hasType_expressionAbove withinPassed.knows reading
    have withinRead := (onlyMoves_expression _).within reading withinPassed
    split at run
    · next accepted =>
      obtain ⟨_, ended, ending, done⟩ := runs_bind.mp run
      obtain ⟨rfl, rfl⟩ := runs_pure.mp done
      exact ⟨levels, checked_assigned assignable targetTyped valueTyped accepted,
        (onlyMoves_expect _ _).within ending withinRead⟩
    · exact absurd run not_runs_failAt
  · exact absurd run not_runs_failAt

theorem checked_expressionStatement (within : state.Within levels result) {value : Statement}
    (run : Runs tokens expressionStatement state value after) :
    ReadChecked levels result [value] after := by
  obtain ⟨read, between, reading, run⟩ := runs_bind.mp run
  have typed := hasType_expressionAbove within.knows reading
  have withinBetween := (onlyMoves_expression _).within reading within
  obtain ⟨token, _, looked, run⟩ := runs_bind.mp run
  obtain ⟨_, rfl⟩ := runs_peek.mp looked
  split at run
  · exact checked_assignment withinBetween typed run
  · obtain ⟨_, ended, ending, done⟩ := runs_bind.mp run
    obtain ⟨rfl, rfl⟩ := runs_pure.mp done
    exact ⟨levels, .expression typed, (onlyMoves_expect _ _).within ending withinBetween⟩

/-! ## Statements -/

theorem checked_statementStep (checks : ReadsChecked tokens again) (opened : levels ≠ [])
    (within : state.Within levels result) {value : Statement}
    (run : Runs tokens (statementStep again) state value after) :
    ReadChecked levels result [value] after := by
  obtain ⟨token, _, looked, run⟩ := runs_bind.mp run
  obtain ⟨_, rfl⟩ := runs_peek.mp looked
  split at run
  · exact checked_typedef within run
  · exact checked_distinct within run
  · exact checked_conditional checks opened within run
  · exact checked_loop checks opened within run
  · exact checked_ret within run
  · exact checked_inferredDeclaration within run
  · obtain ⟨body, _, reading, done⟩ := runs_bind.mp run
    obtain ⟨rfl, rfl⟩ := runs_pure.mp done
    obtain ⟨⟨inner, checked⟩, withinAfter⟩ := checked_block checks opened within reading
    exact ⟨levels, .block checked, withinAfter⟩
  · obtain ⟨typed, looked, looking, run⟩ := runs_bind.mp run
    have withinLooked := onlyMoves_isTypeName.within looking within
    split at run
    · exact checked_declaration checks opened withinLooked run
    · exact checked_expressionStatement withinLooked run

/-- Reading a statement, with what it uses of statements as a function. -/
def stepping (again : Unit → Parser Statement) (_ : Unit) : Parser Statement :=
  statementStep (again ())

/-- Every statement that is read is checked, whatever it is made of. -/
theorem readsChecked_statement : ReadsChecked tokens statement := by
  intro levels result state after value opened within run
  have read : Runs tokens (recurse stepping ()) state value after := run
  have checked := read.recurse_induct
    (P := fun _ state value after => ∀ levels result, levels ≠ [] → state.Within levels result →
      ReadChecked levels result [value] after)
    (by
      intro bound checks _ state value after run levels result opened within
      have inside : ReadsChecked tokens (nested stepping bound ()) := by
        intro levels result state after value opened within run
        exact checks () state value after run levels result opened within
      exact checked_statementStep inside opened within run)
  exact checked levels result opened within

theorem runs_nextInFile_some {read next : Array Statement}
    (run : Runs tokens (nextInFile read) state (some next) after) :
    ∃ value, Runs tokens statement state value after ∧ next = read.push value := by
  obtain ⟨token, _, looked, run⟩ := runs_bind.mp run
  obtain ⟨_, rfl⟩ := runs_peek.mp looked
  split at run
  · cases (runs_pure.mp run).1
  · obtain ⟨value, _, one, done⟩ := runs_bind.mp run
    obtain ⟨same, rfl⟩ := runs_pure.mp done
    exact ⟨value, one, (Option.some.inj same).symm⟩

theorem runs_nextInFile_none {read : Array Statement}
    (run : Runs tokens (nextInFile read) state none after) : state = after := by
  obtain ⟨token, _, looked, run⟩ := runs_bind.mp run
  obtain ⟨_, rfl⟩ := runs_peek.mp looked
  split at run
  · exact (runs_pure.mp run).2
  · obtain ⟨value, _, _, done⟩ := runs_bind.mp run
    cases (runs_pure.mp done).1

theorem checked_fileStatements (opened : levels ≠ []) (within : state.Within levels result)
    {statements : List Statement} (run : Runs tokens fileStatements state statements after) :
    ReadChecked levels result statements after := by
  obtain ⟨read, _, repeated, done⟩ := runs_bind.mp run
  obtain ⟨rfl, rfl⟩ := runs_pure.mp done
  exact checked_iterate readsChecked_statement opened within
    (fun _ _ _ _ => runs_nextInFile_some) (fun _ _ _ => runs_nextInFile_none) repeated

end Parser

/-! ## Sources -/

/-- What is read from a source is what its tokens are read as. -/
theorem runs_of_parseSource {path source : String} {file : File}
    (read : parseSource path source = .ok file) :
    ∃ tokens after, tokensOf source = .ok tokens ∧ file.path = path ∧
      Parser.Runs tokens.toArray Parser.fileStatements State.initial file.statements after := by
  rcases lexed : tokensOf source with error | tokens
  · simp [parseSource, Session.start, lexed, Except.map, bind, Except.bind] at read
  · refine ⟨tokens, ?_⟩
    rcases run : Parser.fileStatements tokens.toArray State.initial with
      ⟨statements, after⟩ | ⟨error, after⟩
    · simp [parseSource, Session.start, lexed, Except.map, bind, Except.bind, Session.parseFile,
        run] at read
      subst read
      exact ⟨after, rfl, rfl, run⟩
    · simp [parseSource, Session.start, lexed, Except.map, bind, Except.bind, Session.parseFile,
        run] at read

theorem exists_file_of_isOk (path source : String) (accepted : (parseSource path source).isOk) :
    ∃ file, parseSource path source = .ok file := by
  cases read : parseSource path source with
  | error error =>
    rw [read] at accepted
    cases accepted
  | ok file => exact ⟨file, rfl⟩

/-- A file that is read is well typed. -/
theorem checked_of_parseSource {path source : String} {file : File}
    (read : parseSource path source = .ok file) :
    ∃ levels, Checked [.empty] none file.statements levels := by
  obtain ⟨tokens, after, _, _, run⟩ := runs_of_parseSource read
  have within : State.initial.Within [.empty] none := ⟨rfl, rfl⟩
  obtain ⟨levels, checked, _⟩ := Parser.checked_fileStatements (List.cons_ne_nil _ _) within run
  exact ⟨levels, checked⟩

theorem checked_of_parseSource_distinct :
    ∃ file,
      parseSource "digit.lc"
          "distinct int8 digit; digit next(digit *of) \x7b *of += 1; return 2 * *of; \x7d" =
        .ok file ∧
      ∃ levels, Checked [.empty] none file.statements levels := by
  obtain ⟨file, read⟩ := exists_file_of_isOk "digit.lc"
    "distinct int8 digit; digit next(digit *of) \x7b *of += 1; return 2 * *of; \x7d"
    (by decide +kernel)
  exact ⟨file, read, checked_of_parseSource read⟩

end MiniC
