/-
# MiniC.Proofs.Resolution — names are resolved lexically

A pass over a finished tree that looks every name up again. It forgets the declarations that the
names carry and walks the statements in order with the open levels at hand:

* a variable is bound behind its initializer, a function before its body;
* the parameters of a function and the statements of its body share one new level;
* a block, a branch and the body of a loop have a level of their own, which is dropped behind them;
* a name stands for the declaration of the innermost level that has one, and is spelled like it.

The pass fails at a name that stands for nothing and at a declaration of a name that its level has
already. `resolveAll_of_parseSource`: on a file that is read it does not fail, and gives the file
back.
-/
import MiniC.Proofs.Typing.Statement

namespace MiniC

set_option autoImplicit false

/-! ## The pass -/

mutual

/-- The expression with its names looked up in the levels. -/
def Expression.resolve (levels : Levels) : Expression → Option Expression
  | .integer ty value position => some (.integer ty value position)
  | .name _ spelling position => do
    let declaration ← levels.find? spelling
    return .name declaration declaration.name position
  | .unary ty operator operand position => do
    return .unary ty operator (← operand.resolve levels) position
  | .binary ty operator left right position => do
    return .binary ty operator (← left.resolve levels) (← right.resolve levels) position
  | .cast ty operand position => do
    return .cast ty (← operand.resolve levels) position
  | .call ty callee arguments position => do
    return .call ty (← callee.resolve levels) (← resolveEach levels arguments) position
termination_by structural expression => expression

/-- The expressions with their names looked up in the levels. -/
def resolveEach (levels : Levels) : List Expression → Option (List Expression)
  | [] => some []
  | expression :: rest => do
    return (← expression.resolve levels) :: (← resolveEach levels rest)
termination_by structural expressions => expressions

end

mutual

/-- The statement with its names looked up, and the levels behind it. -/
def Statement.resolve (levels : Levels) : Statement → Option (Statement × Levels)
  | .declaration declared none => do
    return (.declaration declared none, ← levels.bind? declared)
  | .declaration declared (some value) => do
    let value ← value.resolve levels
    return (.declaration declared (some value), ← levels.bind? declared)
  | .typedef name ty position => some (.typedef name ty position, levels)
  | .distinct name ty position => some (.distinct name ty position, levels)
  | .block ⟨statements, position⟩ => do
    let (statements, _) ← resolveAll (.empty :: levels) statements
    return (.block ⟨statements, position⟩, levels)
  | .function declared parameters ⟨statements, position⟩ => do
    let known ← levels.bind? declared
    let opened ← parameters.foldlM Levels.bind? (.empty :: known)
    let (statements, _) ← resolveAll opened statements
    return (.function declared parameters ⟨statements, position⟩, known)
  | .conditional test ⟨whenTrue, position⟩ none keyword => do
    let test ← test.resolve levels
    let (whenTrue, _) ← resolveAll (.empty :: levels) whenTrue
    return (.conditional test ⟨whenTrue, position⟩ none keyword, levels)
  | .conditional test ⟨whenTrue, position⟩ (some ⟨otherwise, place⟩) keyword => do
    let test ← test.resolve levels
    let (whenTrue, _) ← resolveAll (.empty :: levels) whenTrue
    let (otherwise, _) ← resolveAll (.empty :: levels) otherwise
    return (.conditional test ⟨whenTrue, position⟩ (some ⟨otherwise, place⟩) keyword, levels)
  | .loop test ⟨statements, position⟩ keyword => do
    let test ← test.resolve levels
    let (statements, _) ← resolveAll (.empty :: levels) statements
    return (.loop test ⟨statements, position⟩ keyword, levels)
  | .ret none position => some (.ret none position, levels)
  | .ret (some value) position => do
    return (.ret (some (← value.resolve levels)) position, levels)
  | .assignment target operator value position => do
    let target ← target.resolve levels
    return (.assignment target operator (← value.resolve levels) position, levels)
  | .expression value => do
    return (.expression (← value.resolve levels), levels)
termination_by structural statement => statement

/-- The statements with their names looked up one after the other, and the levels behind them. -/
def resolveAll (levels : Levels) : List Statement → Option (List Statement × Levels)
  | [] => some ([], levels)
  | statement :: rest => do
    let (statement, between) ← statement.resolve levels
    let (rest, after) ← resolveAll between rest
    return (statement :: rest, after)
termination_by structural statements => statements

end

/-! ## Expressions -/

theorem resolveEach_eq_some {levels : Levels} {expressions : List Expression}
    (each : ∀ expression ∈ expressions, expression.resolve levels = some expression) :
    resolveEach levels expressions = some expressions := by
  induction expressions with
  | nil => rfl
  | cons expression rest ih =>
    have later := ih fun expression member => each expression (List.mem_cons_of_mem _ member)
    simp [resolveEach, each expression List.mem_cons_self, later]

/-- In a well typed expression the pass finds what the names carry. -/
theorem HasType.resolve_eq_some {levels : Levels} {suggested : Option Ty} {expression : Expression}
    {ty : Ty} (typed : HasType levels suggested expression ty) :
    expression.resolve levels = some expression := by
  induction typed with
  | integer => rfl
  | name found => simp [Expression.resolve, found, Levels.name_of_find? found]
  | sign _ _ _ operand | addressOf _ operand | dereference _ operand | cast _ _ operand =>
    simp [Expression.resolve, operand]
  | arithmetic _ _ _ _ _ _ left right | ordering _ _ _ _ _ _ left right
    | equality _ _ _ left right => simp [Expression.resolve, left, right]
  | @call _ callee _ _ parameters arguments _ _ arity _ _ calleeFound argumentsFound =>
    have each : resolveEach levels arguments = some arguments := by
      refine resolveEach_eq_some fun argument member => ?_
      rw [← List.map_fst_zip (Nat.le_of_eq arity), List.mem_map] at member
      obtain ⟨pair, member, rfl⟩ := member
      exact argumentsFound pair member
    simp [Expression.resolve, calleeFound, each]

/-! ## Statements -/

/-- The pass goes through the statements in order. -/
theorem resolveAll_append {levels between after : Levels}
    {first first' second second' : List Statement}
    (before : resolveAll levels first = some (first', between))
    (behind : resolveAll between second = some (second', after)) :
    resolveAll levels (first ++ second) = some (first' ++ second', after) := by
  induction first generalizing levels first' with
  | nil =>
    obtain ⟨rfl, rfl⟩ := Prod.mk.inj (Option.some.inj before)
    exact behind
  | cons statement rest ih =>
    rw [resolveAll] at before
    obtain ⟨⟨statement', next⟩, here, before⟩ := Option.bind_eq_some_iff.mp before
    obtain ⟨⟨rest', last⟩, later, same⟩ := Option.bind_eq_some_iff.mp before
    obtain ⟨rfl, rfl⟩ := Prod.mk.inj (Option.some.inj same)
    rw [List.cons_append, resolveAll, here]
    simp [ih later]

/-- In well typed statements the pass finds what the names carry, and every declaration that it
binds is new in its level. -/
theorem Checked.resolveAll_eq_some {levels after : Levels} {result : Option Ty}
    {statements : List Statement} (checked : Checked levels result statements after) :
    resolveAll levels statements = some (statements, after) := by
  induction checked with
  | nil => rfl
  | append _ _ before behind => exact resolveAll_append before behind
  | uninitialized bound => simp [resolveAll, Statement.resolve, bound]
  | initialized typed _ bound | inferred typed bound =>
    simp [resolveAll, Statement.resolve, typed.resolve_eq_some, bound]
  | typedef | distinct => rfl
  | block _ body => simp [resolveAll, Statement.resolve, body]
  | function _ bound _ parametersBound _ _ body =>
    simp [resolveAll, Statement.resolve, bound, parametersBound, body]
  | conditional typed _ _ whenTrue =>
    simp [resolveAll, Statement.resolve, typed.resolve_eq_some, whenTrue]
  | alternative typed _ _ _ whenTrue otherwise =>
    simp [resolveAll, Statement.resolve, typed.resolve_eq_some, whenTrue, otherwise]
  | loop typed _ _ body => simp [resolveAll, Statement.resolve, typed.resolve_eq_some, body]
  | returnValue typed => simp [resolveAll, Statement.resolve, typed.resolve_eq_some]
  | returnNothing => rfl
  | assignment _ targetTyped valueTyped | compoundAssignment _ _ targetTyped valueTyped =>
    simp [resolveAll, Statement.resolve, targetTyped.resolve_eq_some, valueTyped.resolve_eq_some]
  | expression typed => simp [resolveAll, Statement.resolve, typed.resolve_eq_some]

/-! ## Sources -/

/-- On a file that is read the pass binds every name once in a level and gives the file back: what
every name carries is the declaration that it finds. -/
theorem resolveAll_of_parseSource {path source : String} {file : File}
    (read : parseSource path source = .ok file) :
    ∃ levels, resolveAll [.empty] file.statements = some (file.statements, levels) := by
  obtain ⟨tokens, after, _, _, run⟩ := runs_of_parseSource read
  have within : State.initial.Within [.empty] none := ⟨rfl, rfl⟩
  obtain ⟨levels, checked, _⟩ := Parser.checked_fileStatements (List.cons_ne_nil _ _) within run
  exact ⟨levels, checked.resolveAll_eq_some⟩

theorem resolveAll_of_parseSource_shadowed :
    ∃ file,
      parseSource "shadow.lc"
          "int32 x; int32 f(int32 y) \x7b \x7b var x = &y; y = *x; \x7d return f(x + y); \x7d" =
        .ok file ∧
      ∃ levels, resolveAll [.empty] file.statements = some (file.statements, levels) := by
  obtain ⟨file, read⟩ := exists_file_of_isOk "shadow.lc"
    "int32 x; int32 f(int32 y) \x7b \x7b var x = &y; y = *x; \x7d return f(x + y); \x7d"
    (by decide +kernel)
  exact ⟨file, read, resolveAll_of_parseSource read⟩

/-- A variable is not known in its own initializer. -/
example (declared : Declaration) (position : Position) :
    resolveAll [.empty] [.declaration declared (some (.name declared declared.name position))] =
      none := rfl

end MiniC
