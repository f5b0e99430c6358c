/-
# MiniC.Proofs.Assignment — compound assignments and their expansions

The assignment `T op= V ;` and its expansion `T = T op ( V ) ;` take different ways through the
parser. The one checks the operator between the types of its target and its value, and the other
reads an operator expression and checks its type against that of the target. They come to the same:
both are read or neither is, with the same target and value apart from places, and neither changes
what is in scope.

A target is a name or a `*` with its operand, and so a single operand: in the expansion it is the
left side of the operator, whatever that is. Where a target begins with the name of a type, which is
possible for a name that stands for a value as well, neither is read, since both are taken for
declarations.
-/
import MiniC.Proofs.Expression.Completeness
import MiniC.Proofs.Expression.Copy
import MiniC.Proofs.Reached

namespace MiniC

set_option autoImplicit false

variable {tokens : Array Token} {start place stop : Nat}

/-! ## Operators -/

theorem AssignmentOperator.isArithmetic_of_binary? {operator : AssignmentOperator}
    {binary : BinaryOperator} (compound : operator.binary? = some binary) :
    binary.isArithmetic := by
  cases operator <;> cases compound <;> rfl

/-- Arithmetic keeps the left type. -/
theorem BinaryOperator.eq_of_result? {operator : BinaryOperator} {left right ty : Ty}
    (arithmetic : operator.isArithmetic) (typed : operator.result? left right = some ty) :
    ty = left := by
  simp only [result?, arithmetic, if_true, Option.ite_none_right_eq_some,
    Option.some.injEq] at typed
  exact typed.2.symm

theorem BinaryOperator.symbol_inj {one other : BinaryOperator} (same : one.symbol = other.symbol) :
    one = other := by
  have read := one.ofSymbol?_symbol
  rw [same, other.ofSymbol?_symbol] at read
  exact (Option.some.inj read).symm

/-- An expression ends in front of an assignment operator. -/
theorem AssignmentOperator.endsExpression (operator : AssignmentOperator) :
    (Kind.symbol operator.symbol).endsExpression 0 := by
  cases operator <;> rfl

/-! ## Targets -/

section Targets

variable {scopes : Scopes} {suggested : Option Ty} {target : Expression}

theorem Derives.single_of_assignable {minimum : Nat}
    (derives : Derives tokens scopes (.above minimum suggested target) start stop)
    (assignable : target.isAssignable) :
    Derives tokens scopes (.single suggested target) start stop := by
  cases derives with
  | operand single => exact single
  | binary => cases assignable

/-- A target that begins with a name is that name. -/
theorem Derives.stop_eq_of_assignable {spelling : String}
    (derives : Derives tokens scopes (.single suggested target) start stop)
    (assignable : target.isAssignable) (named : kindAt tokens start = some (.name spelling)) :
    stop = start + 1 := by
  cases derives with
  | called operand =>
    cases operand with
    | literal | call => cases assignable
    | name => rfl
    | group opening =>
      rw [named] at opening
      cases opening
  | cast => cases assignable
  | unary mark =>
    rw [named] at mark
    cases mark

end Targets

/-! ## Declarations -/

/-- Behind tokens of a declarator the next one is behind them; without any it comes first. -/
theorem kindAt_ne_of_behind {kind other : Kind} (low : start ≤ place)
    (inside : start < place → kindAt tokens start ≠ some kind)
    (here : kindAt tokens place = some other) (different : other ≠ kind) :
    kindAt tokens start ≠ some kind := by
  rcases Nat.lt_or_eq_of_le low with less | rfl
  · exact inside less
  · rw [here]
    exact fun same => different (Option.some.inj same)

/-- No part of a declarator begins with an assignment operator. -/
theorem Spans.ne_assignment {visible : String → Option Ty} {form : Form} {phrase : Phrase}
    (spans : Spans tokens visible form phrase start stop) (operator : AssignmentOperator)
    (less : start < stop) : kindAt tokens start ≠ some (.symbol operator.symbol) := by
  have apart {mark : Symbol} (other : AssignmentOperator.ofSymbol? mark = none) :
      Kind.symbol mark ≠ .symbol operator.symbol := by
    intro same
    rw [Kind.symbol.inj same, operator.ofSymbol?_symbol] at other
    cases other
  induction spans with
  | star star => exact kindAt_ne_of_behind (Nat.le_refl _) (by omega) star (apart rfl)
  | unstarred _ ih => exact ih less
  | nothing => exact absurd less (Nat.lt_irrefl _)
  | name named => exact kindAt_ne_of_behind (Nat.le_refl _) (by omega) named nofun
  | group opening => exact kindAt_ne_of_behind (Nat.le_refl _) (by omega) opening (apart rfl)
  | array rest opening _ _ _ ih => exact kindAt_ne_of_behind rest.le ih opening (apart rfl)
  | emptyList rest opening _ ih => exact kindAt_ne_of_behind rest.le ih opening (apart rfl)
  | list rest opening _ _ ih => exact kindAt_ne_of_behind rest.le ih opening (apart rfl)
  | laterName rest named ih => exact kindAt_ne_of_behind rest.le ih named nofun
  | laterGroup rest opening _ _ _ _ ih => exact kindAt_ne_of_behind rest.le ih opening (apart rfl)
  | stray rest skipped ih =>
    rcases skipped with closing | ⟨_, counted⟩
    · exact kindAt_ne_of_behind rest.le ih closing (apart rfl)
    · exact kindAt_ne_of_behind rest.le ih counted nofun
  | last typed | more typed =>
    obtain ⟨_, named, _⟩ := typed
    exact kindAt_ne_of_behind (Nat.le_refl _) (by omega) named nofun

namespace Parser

variable {state after : State} {operator : AssignmentOperator}

/-- In front of an assignment operator a type name declares nothing. -/
theorem not_runs_namedDeclarator
    (mark : kindAt tokens (state.cursor + 1) = some (.symbol operator.symbol))
    {declared : Ty × DeclaredName} : ¬Runs tokens namedDeclarator state declared after := by
  intro run
  obtain ⟨first, _, looked, run⟩ := runs_bind.mp run
  obtain ⟨_, rfl⟩ := runs_peek.mp looked
  obtain ⟨found, between, reading, run⟩ := runs_bind.mp run
  obtain ⟨⟨base, _, spans⟩, _⟩ := runs_declarator_iff.mp reading
  have empty : state.cursor + 1 = between.cursor :=
    (Nat.lt_or_eq_of_le spans.le).resolve_left fun less => spans.ne_assignment operator less mark
  have unnamed : found.name = none := by
    cases spans with
    | star star =>
      rw [star] at mark
      cases operator <;> cases mark
    | unstarred core => rw [core.eq_of_nothing empty]
  split at run
  · next named =>
    rw [unnamed] at named
    cases named
  · exact not_runs_failAt run

/-- A declaration needs a name behind its type. -/
theorem declaration_of_assignment
    (mark : kindAt tokens (state.cursor + 1) = some (.symbol operator.symbol)) :
    ∃ error cursor, declaration statement tokens state = .error error { state with cursor } := by
  rw [declaration, bind_apply]
  rcases outcome : namedDeclarator tokens state with ⟨declared, between⟩ | ⟨error, between⟩
  · exact absurd outcome (not_runs_namedDeclarator mark)
  · obtain ⟨cursor, moved⟩ := onlyMoves_namedDeclarator tokens state
    rw [outcome] at moved
    exact ⟨error, cursor, congrArg _ moved⟩

/-! ## Expression statements -/

theorem onlyMoves_assignment (target : Expression) (operator : AssignmentOperator) :
    OnlyMoves (assignment target operator) := by
  unfold assignment
  split
  · apply onlyMoves_bind onlyMoves_advance
    intro token
    apply onlyMoves_bind (onlyMoves_expression _)
    intro value
    split
    · exact onlyMoves_bind_pure (onlyMoves_expect _ _)
    · exact onlyMoves_failAt _ _
  · exact onlyMoves_failAt _ _

theorem onlyMoves_expressionStatement : OnlyMoves expressionStatement := by
  apply onlyMoves_bind (onlyMoves_expression none)
  intro value
  apply onlyMoves_bind onlyMoves_peek
  intro token
  split
  · exact onlyMoves_assignment value _
  · exact onlyMoves_bind_pure (onlyMoves_expect _ _)

/-- What begins as an expression does, and not with the name of a type, is read as one. -/
theorem statement_of_expression
    (begins : ∃ kind, kindAt tokens state.cursor = some kind ∧ kind.beginsExpression)
    (untyped : ¬∃ ty, NamesType tokens state.scopes.findType? state.cursor ty) :
    statement tokens state = expressionStatement tokens state := by
  obtain ⟨kind, here, begins⟩ := begins
  obtain ⟨token, there, same, _⟩ := kindAt_eq_some here
  have looked : isTypeName tokens state = .ok false state :=
    runs_isTypeName.mpr ⟨by simp [here], iff_of_false Bool.false_ne_true untyped, rfl⟩
  have told : (do if ← isTypeName then declaration statement else expressionStatement)
      tokens state = expressionStatement tokens state := by
    rw [bind_apply, looked]
    rfl
  rw [statement_of_token there, same]
  rcases kind with _ | spelling | number | word | mark
  · cases begins
  · exact told
  · exact told
  · cases begins
  · cases mark <;> first | exact told | cases begins

/-- An assignment is a target and, behind the operator, a value that the operator accepts. -/
theorem runs_assignment_iff {target : Expression} {read : Statement}
    (mark : kindAt tokens state.cursor = some (.symbol operator.symbol))
    (assignable : target.isAssignable) :
    Runs tokens (assignment target operator) state read after ↔
      ∃ value between, Runs tokens (expression (some target.ty))
          { state with cursor := state.cursor + 1 } value between ∧
        operator.accepts target.ty value.ty ∧
        kindAt tokens between.cursor = some (.symbol .semicolon) ∧
        read = .assignment target operator value target.position ∧
        after = { between with cursor := between.cursor + 1 } := by
  obtain ⟨token, here, _⟩ := kindAt_eq_some mark
  have more : kindAt tokens state.cursor ≠ some .endOfFile := by simp [mark]
  rw [assignment, if_pos assignable]
  simp only [runs_bind, runs_advance more]
  constructor
  · rintro ⟨_, _, ⟨_, rfl⟩, value, between, reading, run⟩
    split at run
    · next accepted =>
      obtain ⟨_, _, ending, done⟩ := runs_bind.mp run
      obtain ⟨closing, rfl⟩ := runs_expect.mp ending
      obtain ⟨rfl, rfl⟩ := runs_pure.mp done
      exact ⟨value, between, reading, accepted, closing, rfl, rfl⟩
    · exact absurd run not_runs_failAt
  · rintro ⟨value, between, reading, accepted, closing, rfl, rfl⟩
    refine ⟨token, _, ⟨here, rfl⟩, value, between, reading, ?_⟩
    rw [if_pos accepted]
    exact runs_bind.mpr ⟨(), _, runs_expect.mpr ⟨closing, rfl⟩, rfl⟩

/-- Behind a target an assignment operator makes an expression statement an assignment. -/
theorem runs_expressionStatement_iff {target : Expression} {read : Statement} {between : State}
    (reading : Runs tokens (expression none) state target between)
    (mark : kindAt tokens between.cursor = some (.symbol operator.symbol)) :
    Runs tokens expressionStatement state read after ↔
      Runs tokens (assignment target operator) between read after := by
  obtain ⟨token, here, kind, _⟩ := kindAt_eq_some mark
  have found : token.kind.assignmentOperator? = some operator := by
    rw [kind]
    exact operator.ofSymbol?_symbol
  have same : expressionStatement tokens state = assignment target operator tokens between := by
    rw [expressionStatement, bind_apply, show expression none tokens state = _ from reading]
    dsimp only
    rw [bind_apply, peek_apply here]
    dsimp only
    rw [found]
  rw [Runs, Runs, same]

/-! ## Operator expressions -/

section Operators

variable {binary : BinaryOperator} {left right : Expression}
  (mark : kindAt tokens place = some (.symbol binary.symbol))
  (behind : Runs tokens (expressionAbove binary.precedence (some left.ty))
    { state with cursor := place + 1 } right { state with cursor := stop })

include mark behind

/-- Where what is behind the operator is known, one turn takes it up if the operator applies, and
fails otherwise. -/
theorem runs_extended_iff {next : Option Expression} :
    Runs tokens (extended expressionAbove 0 left) { state with cursor := place } next after ↔
      ∃ ty, binary.result? left.ty right.ty = some ty ∧
        next = some (.binary ty binary left right left.position) ∧
        after = { state with cursor := stop } := by
  constructor
  · intro turn
    cases next with
    | none =>
      obtain ⟨⟨token, here, loose⟩, _⟩ := runs_extended_none.mp turn
      have kind := kindAt_of_getElem? here
      rw [mark, Option.some.injEq] at kind
      have low := loose binary (Kind.binaryOperator?_eq_some.mpr kind.symm)
      exact absurd binary.precedence_pos (Nat.not_lt.mpr low)
    | some next =>
      obtain ⟨operator, again, _, _, ty, reading, typed, rfl⟩ := runs_extended_some.mp turn
      rw [mark] at again
      obtain rfl := BinaryOperator.symbol_inj (Kind.symbol.inj (Option.some.inj again))
      obtain ⟨rfl, rfl⟩ := behind.unique reading
      exact ⟨ty, typed, rfl, rfl⟩
  · rintro ⟨ty, typed, rfl, rfl⟩
    exact runs_extended_some.mpr
      ⟨binary, mark, binary.precedence_pos, right, ty, behind, typed, rfl⟩

/-- An operand, an operator and what is read above it: that is an expression if the operator
applies, and an error otherwise. -/
theorem runs_binary_iff {suggested : Option Ty} {value : Expression}
    (before : Derives tokens state.scopes (.single suggested left) start place)
    (ends : EndsExpressionAt tokens 0 stop) :
    Runs tokens (expression suggested) { state with cursor := start } value after ↔
      ∃ ty, binary.result? left.ty right.ty = some ty ∧
        value = .binary ty binary left right left.position ∧
        after = { state with cursor := stop } := by
  have within : start ≤ tokens.size :=
    Nat.le_trans before.le (Nat.le_of_lt (lt_size_of_kindAt mark))
  have tight : EndsExpressionAt tokens (unaryPrecedence + 1) place :=
    EndsExpressionAt.mono ⟨_, mark, binary.endsExpression⟩
      (Nat.le_succ_of_le (Nat.le_of_lt binary.precedence_lt_unaryPrecedence))
  have operand : Readable tokens state (.above unaryPrecedence suggested left) start place :=
    readable_of_derives (.operand before)
  have loose : LooseAt tokens 0 { state with cursor := stop } := (endsExpressionAt_iff.mp ends).1
  rw [Runs, expression, expressionAbove_eq 0 suggested within, operand 0 (Nat.zero_le _) tight,
    iterate_eq (advancing_extended 0) left (Nat.le_of_lt (lt_size_of_kindAt mark))]
  constructor
  · intro run
    split at run
    · next turn =>
      obtain ⟨ty, typed, taken, rfl⟩ := (runs_extended_iff mark behind).mp turn
      cases taken
      rw [iterate_extended_of_loose loose] at run
      cases run
      exact ⟨ty, typed, rfl, rfl⟩
    · next turn =>
      obtain ⟨_, _, taken, _⟩ := (runs_extended_iff mark behind).mp turn
      cases taken
    · cases run
  · rintro ⟨ty, typed, rfl, rfl⟩
    have turn : extended expressionAbove 0 left tokens { state with cursor := place } = _ :=
      (runs_extended_iff mark behind).mpr ⟨ty, typed, rfl, rfl⟩
    rw [turn]
    exact iterate_extended_of_loose loose _

end Operators

/-! ## Both forms -/

/-- `T op= V ;` -/
def compoundForm (operator : AssignmentOperator) (target value : List Kind) : List Kind :=
  target ++ .symbol operator.symbol :: (value ++ [.symbol .semicolon])

/-- `T op ( V )` -/
def operatorForm (binary : BinaryOperator) (target value : List Kind) : List Kind :=
  target ++ .symbol binary.symbol :: .symbol .openParen :: (value ++ [.symbol .closeParen])

/-- `T = T op ( V ) ;` -/
def expandedForm (binary : BinaryOperator) (target value : List Kind) : List Kind :=
  target ++ .symbol .equal :: (operatorForm binary target value ++ [.symbol .semicolon])

/-- The first of the tokens names a type in scope. -/
def BeginsWithType (scopes : Scopes) (kinds : List Kind) : Prop :=
  ∃ ty spelling, kinds.head? = some (.name spelling) ∧ scopes.findType? spelling = some ty

/-- Somewhere, with these in scope, tokens of these kinds and no others are read as the
expression. -/
def ReadAs (scopes : Scopes) (suggested : Option Ty) (kinds : List Kind) (value : Expression) :
    Prop :=
  ∃ (tokens : Array Token) (state after : State), state.scopes = scopes ∧
    KindsAt tokens state.cursor kinds ∧ Runs tokens (expression suggested) state value after ∧
    after.cursor = state.cursor + kinds.length

namespace ReadAs

variable {scopes : Scopes} {suggested : Option Ty} {kinds : List Kind} {value : Expression}
  {index : Nat} (read : ReadAs scopes suggested kinds value)

include read

/-- What is read somewhere stands wherever the kinds do. -/
theorem derives {suggested' : Option Ty} (supports : Supports suggested suggested')
    (holds : KindsAt tokens index kinds) :
    ∃ value' : Expression, value'.unplaced = value.unplaced ∧
      Derives tokens scopes (.above 0 suggested' value') index (index + kinds.length) := by
  obtain ⟨others, state, after, rfl, there, run, stop⟩ := read
  have derives := (derived_of_runs run).derives
  rw [stop] at derives
  have copied := derives.copied (there.copies holds) suggested' supports
  rwa [Nat.sub_self, Nat.zero_add, Nat.add_sub_cancel_left, Nat.add_comm kinds.length] at copied

/-- A target so stands as an operand. -/
theorem single (assignable : value.isAssignable) {suggested' : Option Ty}
    (supports : Supports suggested suggested') (holds : KindsAt tokens index kinds) :
    ∃ value' : Expression, value'.unplaced = value.unplaced ∧ value'.isAssignable ∧
      Derives tokens scopes (.single suggested' value') index (index + kinds.length) := by
  obtain ⟨value', same, derives⟩ := read.derives supports holds
  have assignable' : value'.isAssignable :=
    (Expression.isAssignable_eq_of_unplaced same).trans assignable
  exact ⟨value', same, assignable', derives.single_of_assignable assignable'⟩

theorem namesType_iff (holds : KindsAt tokens index kinds) :
    (∃ ty, NamesType tokens scopes.findType? index ty) ↔ BeginsWithType scopes kinds := by
  obtain ⟨_, _, derives⟩ := read.derives (.refl suggested) holds
  cases kinds with
  | nil => exact absurd derives.lt (Nat.lt_irrefl _)
  | cons kind rest => simp only [NamesType, BeginsWithType, holds.1, List.head?_cons]

end ReadAs

section Forms

variable {targetKinds valueKinds rest : List Kind} {target value : Expression}
  (targetRead : ReadAs state.scopes none targetKinds target) (assignable : target.isAssignable)

include targetRead assignable

/-- A target that begins with the name of a type is taken for a declaration, and that fails. -/
theorem statement_of_beginsWithType (typed : BeginsWithType state.scopes targetKinds)
    (holds : KindsAt tokens state.cursor (targetKinds ++ .symbol operator.symbol :: rest)) :
    ∃ error cursor, statement tokens state = .error error { state with cursor } := by
  obtain ⟨holdsTarget, mark, _⟩ := kindsAt_append.mp holds
  obtain ⟨ty, spelling, named, visible⟩ := (targetRead.namesType_iff holdsTarget).mpr typed
  obtain ⟨_, _, assignable', single⟩ := targetRead.single assignable (.refl none) holdsTarget
  rw [single.stop_eq_of_assignable assignable' named] at mark
  rw [statement_of_namesType ⟨spelling, named, visible⟩]
  exact declaration_of_assignment mark

theorem not_exists_runs_of_beginsWithType (typed : BeginsWithType state.scopes targetKinds)
    (holds : KindsAt tokens state.cursor (targetKinds ++ .symbol operator.symbol :: rest)) :
    ¬∃ read after, Runs tokens statement state read after := by
  rintro ⟨_, _, run⟩
  obtain ⟨_, _, failed⟩ := statement_of_beginsWithType targetRead assignable typed holds
  rw [Runs, failed] at run
  cases run

/-- Whatever comes of it, an assignment leaves the scopes alone. -/
theorem scopes_statement_of_assignment
    (holds : KindsAt tokens state.cursor (targetKinds ++ .symbol operator.symbol :: rest)) :
    (stateAfter (statement tokens state)).scopes = state.scopes := by
  by_cases typed : BeginsWithType state.scopes targetKinds
  · obtain ⟨error, cursor, failed⟩ := statement_of_beginsWithType targetRead assignable typed holds
    rw [failed]
    rfl
  · obtain ⟨holdsTarget, _⟩ := kindsAt_append.mp holds
    obtain ⟨_, _, derives⟩ := targetRead.derives (.refl none) holdsTarget
    have untyped := mt (targetRead.namesType_iff holdsTarget).mp typed
    obtain ⟨cursor, moved⟩ := onlyMoves_expressionStatement tokens state
    rw [statement_of_expression derives.begins untyped, moved]

/-- Otherwise it is read as an assignment. -/
theorem runs_statement_iff_of_untyped (untyped : ¬BeginsWithType state.scopes targetKinds)
    (holds : KindsAt tokens state.cursor (targetKinds ++ .symbol operator.symbol :: rest)) :
    ∃ target' : Expression, target'.unplaced = target.unplaced ∧ ∀ read after,
      Runs tokens statement state read after ↔
        ∃ value between, Runs tokens (expression (some target'.ty))
            { state with cursor := state.cursor + targetKinds.length + 1 } value between ∧
          operator.accepts target'.ty value.ty ∧
          kindAt tokens between.cursor = some (.symbol .semicolon) ∧
          read = .assignment target' operator value target'.position ∧
          after = { between with cursor := between.cursor + 1 } := by
  obtain ⟨holdsTarget, mark, _⟩ := kindsAt_append.mp holds
  obtain ⟨target', same, assignable', single⟩ :=
    targetRead.single assignable (.refl none) holdsTarget
  have derives : Derives tokens state.scopes (.above 0 none target') _ _ := .operand single
  have reading : Runs tokens (expression none) state target'
      { state with cursor := state.cursor + targetKinds.length } :=
    runs_expressionAbove_iff.mpr ⟨derives, ⟨_, mark, operator.endsExpression⟩, rfl⟩
  refine ⟨target', same, fun read after => ?_⟩
  rw [Runs, statement_of_expression derives.begins
      (mt (targetRead.namesType_iff holdsTarget).mp untyped), ← Runs,
    runs_expressionStatement_iff reading mark, runs_assignment_iff mark assignable']

variable {binary : BinaryOperator}
  (valueRead : ReadAs state.scopes (some target.ty) valueKinds value)

include valueRead

/-- The short form is read exactly if the operator applies to the types. -/
theorem runs_compoundForm_iff (compound : operator.binary? = some binary)
    (untyped : ¬BeginsWithType state.scopes targetKinds)
    (holds : KindsAt tokens state.cursor (compoundForm operator targetKinds valueKinds)) :
    ∃ target' value' : Expression, target'.unplaced = target.unplaced ∧
      value'.unplaced = value.unplaced ∧ ∀ read after, Runs tokens statement state read after ↔
        (binary.result? target.ty value.ty).isSome ∧
          read = .assignment target' operator value' target'.position ∧
          after = { state with
            cursor := state.cursor + (compoundForm operator targetKinds valueKinds).length } := by
  obtain ⟨target', sameTarget, runs⟩ :=
    runs_statement_iff_of_untyped targetRead assignable untyped holds
  have sameTy := Expression.ty_of_unplaced sameTarget
  simp only [compoundForm, kindsAt_append, KindsAt, and_true] at holds
  obtain ⟨_, _, holdsValue, semicolon⟩ := holds
  obtain ⟨value', sameValue, derives⟩ :=
    valueRead.derives (supports_of_unplaced sameTy) holdsValue
  have reading : Runs tokens (expression (some target'.ty))
      { state with cursor := state.cursor + targetKinds.length + 1 } value'
      { state with cursor := state.cursor + targetKinds.length + 1 + valueKinds.length } :=
    runs_expressionAbove_iff.mpr ⟨derives, ⟨_, semicolon, rfl⟩, rfl⟩
  have accepts : operator.accepts target'.ty value'.ty =
      (binary.result? target.ty value.ty).isSome := by
    simp only [AssignmentOperator.accepts, compound]
    exact BinaryOperator.isSome_result?_of_unplaced sameTy (Expression.ty_of_unplaced sameValue)
  have length : state.cursor + targetKinds.length + 1 + valueKinds.length + 1 =
      state.cursor + (compoundForm operator targetKinds valueKinds).length := by
    simp only [compoundForm, List.length_append, List.length_cons, List.length_nil]
    omega
  refine ⟨target', value', sameTarget, sameValue, fun read after => ?_⟩
  rw [runs, ← length, ← accepts]
  constructor
  · rintro ⟨_, _, again, accepted, _, rfl, rfl⟩
    obtain ⟨rfl, rfl⟩ := reading.unique again
    exact ⟨accepted, rfl, rfl⟩
  · rintro ⟨accepted, rfl, rfl⟩
    exact ⟨value', _, reading, accepted, semicolon, rfl, rfl⟩

/-- The operator expression of the long form is read under the same condition, and it has the type
of the target. -/
theorem runs_operatorForm_iff {index : Nat} {suggested : Option Ty}
    (arithmetic : binary.isArithmetic) (untyped : ¬BeginsWithType state.scopes valueKinds)
    (holds : KindsAt tokens index (operatorForm binary targetKinds valueKinds))
    (semicolon : kindAt tokens (index + (operatorForm binary targetKinds valueKinds).length) =
      some (.symbol .semicolon)) :
    ∃ left right : Expression, left.unplaced = target.unplaced ∧ right.unplaced = value.unplaced ∧
      ∀ read after, Runs tokens (expression suggested) { state with cursor := index } read after ↔
        (binary.result? target.ty value.ty).isSome ∧
          read = .binary left.ty binary left right left.position ∧
          after = { state with
            cursor := index + (operatorForm binary targetKinds valueKinds).length } := by
  have length : index + (operatorForm binary targetKinds valueKinds).length =
      index + targetKinds.length + 1 + 1 + valueKinds.length + 1 := by
    simp only [operatorForm, List.length_append, List.length_cons, List.length_nil]
    omega
  rw [length] at semicolon ⊢
  simp only [operatorForm, kindsAt_append, KindsAt, and_true] at holds
  obtain ⟨holdsLeft, mark, opening, holdsValue, closing⟩ := holds
  obtain ⟨left, sameLeft, _, single⟩ :=
    targetRead.single assignable (supports_none suggested) holdsLeft
  have sameTy := Expression.ty_of_unplaced sameLeft
  obtain ⟨right, sameRight, derivesRight⟩ :=
    valueRead.derives (supports_of_unplaced sameTy) holdsValue
  have group : Derives tokens state.scopes (.single (some left.ty) right) _ _ :=
    .called (.group opening (mt (valueRead.namesType_iff holdsValue).mp untyped) derivesRight
      closing)
  have reading : Runs tokens (expressionAbove binary.precedence (some left.ty))
      { state with cursor := index + targetKinds.length + 1 } right
      { state with cursor := index + targetKinds.length + 1 + 1 + valueKinds.length + 1 } :=
    runs_expressionAbove_iff.mpr ⟨.operand group, ⟨_, semicolon, rfl⟩, rfl⟩
  refine ⟨left, right, sameLeft, sameRight, fun read after => ?_⟩
  rw [runs_binary_iff mark reading single ⟨_, semicolon, rfl⟩,
    ← BinaryOperator.isSome_result?_of_unplaced sameTy (Expression.ty_of_unplaced sameRight)]
  constructor
  · rintro ⟨ty, typed, rfl, rfl⟩
    obtain rfl := BinaryOperator.eq_of_result? arithmetic typed
    exact ⟨Option.isSome_of_eq_some typed, rfl, rfl⟩
  · rintro ⟨applies, rfl, rfl⟩
    obtain ⟨ty, typed⟩ := Option.isSome_iff_exists.mp applies
    obtain rfl := BinaryOperator.eq_of_result? arithmetic typed
    exact ⟨_, typed, rfl, rfl⟩

/-- So is the long form, since the target accepts its own type. -/
theorem runs_expandedForm_iff (arithmetic : binary.isArithmetic)
    (untyped : ¬BeginsWithType state.scopes targetKinds)
    (untypedValue : ¬BeginsWithType state.scopes valueKinds)
    (holds : KindsAt tokens state.cursor (expandedForm binary targetKinds valueKinds)) :
    ∃ target' left right : Expression, target'.unplaced = target.unplaced ∧
      left.unplaced = target.unplaced ∧ right.unplaced = value.unplaced ∧
      ∀ read after, Runs tokens statement state read after ↔
        (binary.result? target.ty value.ty).isSome ∧
          read = .assignment target' .assign (.binary left.ty binary left right left.position)
            target'.position ∧
          after = { state with
            cursor := state.cursor + (expandedForm binary targetKinds valueKinds).length } := by
  replace holds : KindsAt tokens state.cursor (targetKinds ++
    .symbol AssignmentOperator.assign.symbol :: _) := holds
  obtain ⟨target', sameTarget, runs⟩ :=
    runs_statement_iff_of_untyped targetRead assignable untyped holds
  obtain ⟨_, _, holds⟩ := kindsAt_append.mp holds
  obtain ⟨holdsValue, semicolon, _⟩ := kindsAt_append.mp holds
  obtain ⟨left, right, sameLeft, sameRight, reading⟩ := runs_operatorForm_iff targetRead assignable
    valueRead arithmetic untypedValue holdsValue semicolon
  have accepts : AssignmentOperator.assign.accepts target'.ty left.ty :=
    (Ty.compatible_eq_of_unplaced (Expression.ty_of_unplaced sameLeft)
      (Expression.ty_of_unplaced sameTarget)).trans target.ty.compatible_refl
  have length : state.cursor + targetKinds.length + 1 +
        (operatorForm binary targetKinds valueKinds).length + 1 =
      state.cursor + (expandedForm binary targetKinds valueKinds).length := by
    simp only [expandedForm, List.length_append, List.length_cons, List.length_nil]
    omega
  refine ⟨target', left, right, sameTarget, sameLeft, sameRight, fun read after => ?_⟩
  rw [runs, ← length]
  constructor
  · rintro ⟨_, _, run, _, _, rfl, rfl⟩
    obtain ⟨applies, rfl, rfl⟩ := (reading _ _).mp run
    exact ⟨applies, rfl, rfl⟩
  · rintro ⟨applies, rfl, rfl⟩
    exact ⟨_, _, (reading _ _).mpr ⟨applies, rfl, rfl⟩, accepts, semicolon, rfl, rfl⟩

end Forms

/-! ## Agreement -/

/-- Apart from places the statement assigns the value to the target. -/
def Assigns (target : Expression) (operator : AssignmentOperator) (value : Expression)
    (read : Statement) : Prop :=
  ∃ target' value' position, read = .assignment target' operator value' position ∧
    target'.unplaced = target.unplaced ∧ value'.unplaced = value.unplaced

/-- A compound assignment and its expansion are both read or neither is. The one assigns the value,
and the other what the operator makes of the target and the value, to the same target. The scopes
stay as they are, also where neither is read. -/
theorem compound_assignment_expands {tokens' : Array Token} {binary : BinaryOperator}
    {targetKinds valueKinds : List Kind} {target value : Expression}
    (compound : operator.binary? = some binary)
    (targetRead : ReadAs state.scopes none targetKinds target) (assignable : target.isAssignable)
    (valueRead : ReadAs state.scopes (some target.ty) valueKinds value)
    (untyped : ¬BeginsWithType state.scopes valueKinds)
    (short : KindsAt tokens state.cursor (compoundForm operator targetKinds valueKinds))
    (long : KindsAt tokens' state.cursor (expandedForm binary targetKinds valueKinds)) :
    ((∃ read after, Runs tokens statement state read after) ↔
      ∃ read after, Runs tokens' statement state read after) ∧
    (∀ read after, Runs tokens statement state read after →
      Assigns target operator value read ∧
        after.cursor = state.cursor + (compoundForm operator targetKinds valueKinds).length) ∧
    (∀ read after, Runs tokens' statement state read after →
      Assigns target .assign (.binary target.ty binary target value target.position) read ∧
        after.cursor = state.cursor + (expandedForm binary targetKinds valueKinds).length) ∧
    (stateAfter (statement tokens state)).scopes = state.scopes ∧
    (stateAfter (statement tokens' state)).scopes = state.scopes := by
  have long' : KindsAt tokens' state.cursor (targetKinds ++
    .symbol AssignmentOperator.assign.symbol :: _) := long
  have keeps := scopes_statement_of_assignment targetRead assignable short
  have keeps' := scopes_statement_of_assignment targetRead assignable long'
  by_cases typed : BeginsWithType state.scopes targetKinds
  · have fails := not_exists_runs_of_beginsWithType targetRead assignable typed short
    have fails' := not_exists_runs_of_beginsWithType targetRead assignable typed long'
    exact ⟨iff_of_false fails fails', fun read after run => absurd ⟨read, after, run⟩ fails,
      fun read after run => absurd ⟨read, after, run⟩ fails', keeps, keeps'⟩
  · have arithmetic := AssignmentOperator.isArithmetic_of_binary? compound
    obtain ⟨target₁, value₁, sameTarget, sameValue, runs⟩ :=
      runs_compoundForm_iff targetRead assignable valueRead compound typed short
    obtain ⟨target₂, left, right, sameTarget', sameLeft, sameRight, runs'⟩ :=
      runs_expandedForm_iff targetRead assignable valueRead arithmetic typed untyped long
    refine ⟨?_, ?_, ?_, keeps, keeps'⟩
    · simp only [runs, runs', exists_and_left, exists_eq, and_true]
    · intro read after run
      obtain ⟨_, rfl, rfl⟩ := (runs _ _).mp run
      exact ⟨⟨target₁, value₁, _, rfl, sameTarget, sameValue⟩, rfl⟩
    · intro read after run
      obtain ⟨_, rfl, rfl⟩ := (runs' _ _).mp run
      refine ⟨⟨target₂, _, _, rfl, sameTarget', ?_⟩, rfl⟩
      simp only [Expression.unplaced, Expression.ty_of_unplaced sameLeft, sameLeft, sameRight]

/-- A target behind a pointer, and a value with an operator that would bind tighter. -/
theorem compound_assignment_expands_pointer :
    let int32 := Ty.builtin (.integer 32 true)
    let pointer := Ty.pointer ⟨.builtin, none⟩ int32
    let state : State := ⟨0, { Scopes.root Ty.builtins with
      values := [[("p", ⟨"p", pointer, Position.start⟩), ("x", ⟨"x", int32, Position.start⟩)]] },
      none⟩
    ∃ tokens tokens' target value, tokensOf "*p -= x * 2;" = .ok tokens ∧
      tokensOf "*p = *p - (x * 2);" = .ok tokens' ∧
      (∃ read after, Runs tokens.toArray statement state read after ∧
        Assigns target .subtract value read) ∧
      ∃ read after, Runs tokens'.toArray statement state read after ∧
        Assigns target .assign (.binary target.ty .subtract target value target.position) read := by
  intro int32 pointer state
  let targetKinds : List Kind := [.symbol .star, .name "p"]
  let valueKinds : List Kind := [.name "x", .symbol .star, .integer 2]
  let short := compoundForm .subtract targetKinds valueKinds
  let long := expandedForm .subtract targetKinds valueKinds
  have outcome : ((tokensOf "*p -= x * 2;").toOption.map fun tokens =>
      (decide (KindsAt tokens.toArray 0 short),
      match expression none tokens.toArray state, statement tokens.toArray state with
      | .ok target after, .ok .. =>
        (target.isAssignable, after.cursor,
          match expression (some target.ty) tokens.toArray { state with cursor := 3 } with
          | .ok _ behind => behind.cursor
          | .error .. => 0)
      | _, _ => (false, 0, 0))) = some (true, true, 2, 6) := by decide +kernel
  have outcome' : ((tokensOf "*p = *p - (x * 2);").toOption.map fun tokens =>
      decide (KindsAt tokens.toArray 0 long)) = some true := by decide +kernel
  obtain ⟨tokens, lexed, outcome⟩ := exists_ok_of_map_eq_some outcome
  obtain ⟨tokens', lexed', long⟩ := exists_ok_of_map_eq_some outcome'
  obtain ⟨short, outcome⟩ := Prod.mk.inj outcome
  rcases readTarget : expression none tokens.toArray state with ⟨target, between⟩ | _
  · rcases run : statement tokens.toArray state with ⟨read, after⟩ | _
    · rw [readTarget, run] at outcome
      obtain ⟨assignable, outcome⟩ := Prod.mk.inj outcome
      obtain ⟨stop, outcome⟩ := Prod.mk.inj outcome
      rcases readValue : expression (some target.ty) tokens.toArray { state with cursor := 3 }
        with ⟨value, behind⟩ | _
      · rw [readValue] at outcome
        have short := of_decide_eq_true short
        have targetRead : ReadAs state.scopes none targetKinds target :=
          ⟨tokens.toArray, state, between, rfl, (kindsAt_append.mp short).1, readTarget, stop⟩
        have valueRead : ReadAs state.scopes (some target.ty) valueKinds value :=
          ⟨tokens.toArray, { state with cursor := 3 }, behind, rfl,
            (kindsAt_append.mp (kindsAt_append.mp short).2.2).1, readValue, outcome⟩
        have untyped : ¬BeginsWithType state.scopes valueKinds := by
          rintro ⟨_, _, named, visible⟩
          cases named
          cases visible
        have compound : AssignmentOperator.subtract.binary? = some .subtract := rfl
        obtain ⟨accepted, assigns, assigns', _⟩ := compound_assignment_expands compound targetRead
          assignable valueRead untyped short (of_decide_eq_true long)
        obtain ⟨read', after', run'⟩ := accepted.mp ⟨read, after, run⟩
        exact ⟨tokens, tokens', target, value, lexed, lexed',
          ⟨read, after, run, (assigns _ _ run).1⟩, read', after', run', (assigns' _ _ run').1⟩
      · rw [readValue] at outcome
        cases outcome
    · rw [readTarget, run] at outcome
      cases outcome
  · rw [readTarget] at outcome
    cases outcome

end Parser

end MiniC
