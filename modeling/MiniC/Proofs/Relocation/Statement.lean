/-
# MiniC.Proofs.Relocation.Statement — statements at other places

One lemma for each function of the grammar. What a statement binds moves with its place, and
whether a function returns does not depend on places. So a whole file follows:
`follows_fileStatements`.
-/
import MiniC.Parser.Statement
import MiniC.Proofs.Relocation.Expression

namespace MiniC.Parser

set_option autoImplicit false

variable {tokens tokens' : Array Token} {along : Alignment tokens tokens'}
  {inner inner' : Parser Statement}

section Inside

variable (follows : Follows along (Statement.relocate along.move) inner inner')

include follows

/-! ## Blocks -/

theorem follows_nextInBlock (read : Array Statement) :
    Follows along (Option.map (Array.map (Statement.relocate along.move))) (nextInBlock inner read)
      (nextInBlock inner' (read.map (Statement.relocate along.move))) := by
  refine follows_peek_bind fun token length => ?_
  dsimp only
  split
  · exact follows_pure none
  · exact follows_pure none
  · exact follows_bind follows fun statement =>
      follows_pure_of_eq (congrArg some Array.map_push)

theorem follows_blockStatements :
    Follows along (List.map (Statement.relocate along.move)) (blockStatements inner)
      (blockStatements inner') := by
  have turns := follows_iterate (follows_nextInBlock follows) #[]
  rw [Array.map_empty] at turns
  exact follows_bind turns fun read => follows_pure_of_eq Array.toList_map.symm

theorem follows_braced :
    Follows along (fun (body, closing) => (body.relocate along.move, along.move closing))
      (braced inner) (braced inner') :=
  follows_peek_bind fun opening _ => follows_bind (follows_expect _ _) fun _ =>
    follows_bind (follows_blockStatements follows) fun statements =>
    follows_peek_bind fun closing _ => follows_bind (follows_expect _ _) fun _ =>
    follows_pure (Block.mk statements opening.position, closing.position)

theorem follows_block :
    Follows along (Block.relocate along.move) (block inner) (block inner') :=
  follows_bind (follows_inScope (follows_braced follows)) fun (body, _) => follows_pure body

/-! ## Functions -/

omit follows in
theorem follows_parameterDeclarations (parameters : List (Parameter Ty)) :
    Follows along (List.map (Declaration.relocate along.move)) (parameterDeclarations parameters)
      (parameterDeclarations (parameters.map (Parameter.relocate along.move))) := by
  refine follows_mapM parameters fun parameter => ?_
  obtain ⟨_ | name, ty, place⟩ := parameter
  · exact follows_failAt rfl place
  · exact follows_pure (Declaration.mk name ty place)

theorem follows_functionBody (parameters : List Declaration) (result : Ty) :
    Follows along (Block.relocate along.move) (functionBody inner parameters result)
      (functionBody inner' (parameters.map (Declaration.relocate along.move))
        (result.relocate along.move)) := by
  refine follows_bind (follows_forM parameters follows_declare) fun _ =>
    follows_bind (follows_returning result (follows_braced follows)) fun (body, closing) => ?_
  simp only [Block.relocate, Statement.returnsOnAllPaths_relocate, Ty.isVoid_relocate]
  split
  · exact follows_pure body
  · split
    · exact follows_pure_of_eq (congrArg (Block.mk · _) List.map_append)
    · exact follows_failAt rfl closing

theorem follows_functionDefinition (ty : Ty) (name : DeclaredName) :
    Follows along (Statement.relocate along.move) (functionDefinition inner ty name)
      (functionDefinition inner' (ty.relocate along.move) (name.relocate along.move)) := by
  refine follows_bind follows_depth fun depth => ?_
  dsimp only [id]
  split
  · exact follows_failAt rfl name.position
  · rw [Ty.signature?_relocate]
    rcases ty.signature? with _ | ⟨result, parameters⟩
    · exact follows_failAt rfl name.position
    · exact follows_bind (follows_parameterDeclarations parameters) fun parameters =>
        follows_bind (follows_declare ⟨name.name, ty, name.position⟩) fun _ =>
        follows_bind (follows_inScope (follows_functionBody follows parameters result)) fun body =>
        follows_pure_of_eq (Statement.relocate_function _ _ _)

end Inside

/-! ## Declarations -/

theorem follows_namedDeclarator :
    Follows along (fun (ty, name) => (ty.relocate along.move, name.relocate along.move))
      namedDeclarator namedDeclarator := by
  refine follows_peek_bind fun first length => follows_bind follows_declarator fun declared => ?_
  obtain ⟨ty, _ | name⟩ := declared
  · exact follows_failAt rfl first.position
  · exact follows_pure (ty, name)

theorem follows_initializer (ty : Ty) :
    Follows along (Option.map (Expression.relocate along.move)) (initializer ty)
      (initializer (ty.relocate along.move)) := by
  refine follows_bind (follows_accept _) fun found => ?_
  cases found with
  | true =>
    refine follows_bind (follows_expression (some ty)) fun value => ?_
    simp only [Expression.ty_relocate, Expression.position_relocate,
      Ty.compatible_relocate along.injective]
    split
    · exact follows_pure (some value)
    · exact follows_failAt rfl value.position
  | false => exact follows_pure none

theorem follows_variableDeclaration (ty : Ty) (name : DeclaredName) :
    Follows along (Statement.relocate along.move) (variableDeclaration ty name)
      (variableDeclaration (ty.relocate along.move) (name.relocate along.move)) :=
  follows_bind (follows_initializer ty) fun value => follows_bind (follows_expect _ _) fun _ =>
    follows_bind (follows_declare ⟨name.name, ty, name.position⟩) fun _ =>
    follows_pure (Statement.declaration ⟨name.name, ty, name.position⟩ value)

theorem follows_declaration
    (follows : Follows along (Statement.relocate along.move) inner inner') :
    Follows along (Statement.relocate along.move) (declaration inner) (declaration inner') := by
  refine follows_bind follows_namedDeclarator fun (ty, name) =>
    follows_bind (follows_check _) fun brace => ?_
  simp only [id, Ty.isFunction_relocate]
  split
  · exact follows_functionDefinition follows ty name
  · exact follows_variableDeclaration ty name

theorem follows_inferredDeclaration :
    Follows along (Statement.relocate along.move) inferredDeclaration inferredDeclaration := by
  refine follows_advance_bind fun _ _ => follows_peek_bind fun token length => ?_
  dsimp only
  split
  · next spelling _ =>
    refine follows_advance_bind fun _ _ => follows_bind (follows_expect _ _) fun _ =>
      follows_bind (follows_expression none) fun value =>
      follows_bind (follows_expect _ _) fun _ => ?_
    rw [Expression.ty_relocate]
    exact follows_bind (follows_declare ⟨spelling, value.ty, token.position⟩) fun _ =>
      follows_pure (Statement.declaration ⟨spelling, value.ty, token.position⟩ (some value))
  · exact follows_fail rfl

theorem follows_typedef :
    Follows along (Statement.relocate along.move) typedef typedef :=
  follows_advance_bind fun keyword _ => follows_bind follows_namedDeclarator fun (ty, name) =>
    follows_bind (follows_expect _ _) fun _ =>
    follows_bind (follows_define name.name ty name.position) fun _ =>
    follows_pure (Statement.typedef name.name ty keyword.position)

theorem follows_distinct :
    Follows along (Statement.relocate along.move) distinct distinct := by
  refine follows_advance_bind fun keyword _ => follows_bind follows_namedDeclarator
    fun (base, name) => follows_bind (follows_expect _ _) fun _ => ?_
  have copied := @Ty.relocate_distinctAt along.move name.position name.name base
  simp only [DeclaredName.relocate, ← copied]
  exact follows_bind (follows_define name.name _ name.position) fun _ =>
    follows_pure (Statement.distinct name.name _ keyword.position)

/-! ## Control flow -/

theorem follows_condition :
    Follows along (Expression.relocate along.move) condition condition := by
  refine follows_bind (follows_expression (some Ty.bool)) fun value => ?_
  simp only [Expression.ty_relocate, Expression.position_relocate, Ty.isBool_relocate]
  split
  · exact follows_pure value
  · exact follows_failAt rfl value.position

section Inside

variable (follows : Follows along (Statement.relocate along.move) inner inner')

include follows

theorem follows_alternative :
    Follows along (Option.map (Block.relocate along.move)) (alternative inner)
      (alternative inner') := by
  refine follows_peek_bind fun token length => ?_
  dsimp only
  split
  · exact follows_advance_bind fun _ _ => follows_bind (follows_block follows) fun body =>
      follows_pure (some body)
  · exact follows_pure none

theorem follows_conditional :
    Follows along (Statement.relocate along.move) (conditional inner) (conditional inner') :=
  follows_advance_bind fun _ _ => follows_bind follows_condition fun _ =>
    follows_bind (follows_block follows) fun _ => follows_bind (follows_alternative follows) fun _ =>
    follows_pure_of_eq (Statement.relocate_conditional _ _ _ _)

theorem follows_loop :
    Follows along (Statement.relocate along.move) (loop inner) (loop inner') :=
  follows_advance_bind fun _ _ => follows_bind follows_condition fun _ =>
    follows_bind (follows_block follows) fun _ => follows_pure_of_eq (Statement.relocate_loop _ _ _)

end Inside

theorem follows_returnValue (result : Ty) (keyword : Position) :
    Follows along (Option.map (Expression.relocate along.move)) (returnValue result keyword)
      (returnValue (result.relocate along.move) (along.move keyword)) := by
  refine follows_bind (follows_check _) fun bare => ?_
  cases bare with
  | true =>
    simp only [id, Ty.isVoid_relocate, if_true]
    split
    · exact follows_pure none
    · exact follows_failAt rfl keyword
  | false =>
    refine follows_bind (follows_expression (some result)) fun value => ?_
    simp only [Expression.ty_relocate, Expression.position_relocate, Ty.isVoid_relocate,
      Ty.compatible_relocate along.injective]
    split
    · exact follows_failAt rfl value.position
    · split
      · exact follows_pure (some value)
      · exact follows_failAt rfl value.position

theorem follows_ret : Follows along (Statement.relocate along.move) ret ret := by
  refine follows_advance_bind fun keyword _ => follows_bind follows_returnType fun result => ?_
  cases result with
  | none => exact follows_failAt rfl keyword.position
  | some result =>
    exact follows_bind (follows_returnValue result keyword.position) fun value =>
      follows_bind (follows_expect _ _) fun _ => follows_pure (Statement.ret value keyword.position)

/-! ## Expressions -/

theorem follows_assignment (target : Expression) (operator : AssignmentOperator) :
    Follows along (Statement.relocate along.move) (assignment target operator)
      (assignment (target.relocate along.move) operator) := by
  simp only [assignment, Expression.isAssignable_relocate, Expression.ty_relocate,
    Expression.position_relocate]
  split
  · refine follows_advance_bind fun token _ =>
      follows_bind (follows_expression (some target.ty)) fun value => ?_
    simp only [Expression.ty_relocate, AssignmentOperator.accepts_relocate along.injective]
    split
    · exact follows_bind (follows_expect _ _) fun _ =>
        follows_pure (Statement.assignment target operator value target.position)
    · exact follows_failAt rfl token.position
  · exact follows_failAt rfl target.position

theorem follows_expressionStatement :
    Follows along (Statement.relocate along.move) expressionStatement expressionStatement := by
  refine follows_bind (follows_expression none) fun value => follows_peek_bind fun token _ => ?_
  dsimp only
  split
  · exact follows_assignment value _
  · exact follows_bind (follows_expect _ _) fun _ => follows_pure (Statement.expression value)

/-! ## Statements -/

theorem follows_statementStep
    (follows : Follows along (Statement.relocate along.move) inner inner') :
    Follows along (Statement.relocate along.move) (statementStep inner) (statementStep inner') := by
  refine follows_peek_bind fun token length => ?_
  dsimp only
  split
  · exact follows_typedef
  · exact follows_distinct
  · exact follows_conditional follows
  · exact follows_loop follows
  · exact follows_ret
  · exact follows_inferredDeclaration
  · exact follows_bind (follows_block follows) fun body =>
      follows_pure_of_eq (Statement.relocate_block body)
  · refine follows_bind follows_isTypeName fun typed => ?_
    cases typed with
    | true => exact follows_declaration follows
    | false => exact follows_expressionStatement

theorem follows_statement :
    Follows along (Statement.relocate along.move) statement statement := by
  have inside : ∀ inner inner' : Unit → Parser Statement,
      (∀ input, Follows along (Statement.relocate along.move) (inner input) (inner' (id input))) →
      ∀ input : Unit, Follows along (Statement.relocate along.move) (statementStep (inner ()))
        (statementStep (inner' ())) :=
    fun _ _ follows _ => follows_statementStep (follows ())
  exact follows_recurse inside ()

theorem follows_nextInFile (read : Array Statement) :
    Follows along (Option.map (Array.map (Statement.relocate along.move))) (nextInFile read)
      (nextInFile (read.map (Statement.relocate along.move))) := by
  refine follows_peek_bind fun token length => ?_
  dsimp only
  split
  · exact follows_pure none
  · exact follows_bind follows_statement fun statement =>
      follows_pure_of_eq (congrArg some Array.map_push)

/-- A file of the same tokens reads the same, at the other places. -/
theorem follows_fileStatements :
    Follows along (List.map (Statement.relocate along.move)) fileStatements fileStatements := by
  have turns := @follows_iterate tokens tokens' _ along _ _ _ follows_nextInFile #[]
  rw [Array.map_empty] at turns
  exact follows_bind turns fun read => follows_pure_of_eq Array.toList_map.symm

end MiniC.Parser
