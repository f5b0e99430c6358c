/-
# MiniC.Proofs.Relocation.Tree — trees, errors and scopes with their places moved

What is read holds places in its nodes, in the declarations that names stand for and in all their
types. `relocate` moves all of them. A tree returns on all paths wherever its parts stand, an error
reads the same, and what is in scope under a name moves with the scopes.

`places` lists the places of a tree; two moves have one outcome exactly if they agree on these.
-/
import MiniC.Proofs.Relocation.Ty
import MiniC.Scopes
import MiniC.Tree.Coverage

namespace MiniC

set_option autoImplicit false

variable {move again : Position → Position}

/-! ## Declarations -/

namespace Declaration

def relocate (move : Position → Position) (declaration : Declaration) : Declaration :=
  ⟨declaration.name, declaration.ty.relocate move, move declaration.position⟩

def places (declaration : Declaration) : List Position :=
  declaration.ty.places ++ [declaration.position]

theorem relocate_relocate (declaration : Declaration) :
    (declaration.relocate move).relocate again = declaration.relocate (again ∘ move) := by
  simp [relocate, Ty.relocate_relocate]

theorem relocate_id (declaration : Declaration) : declaration.relocate id = declaration := by
  simp [relocate, Ty.relocate_id]

theorem relocate_eq_iff (declaration : Declaration) :
    declaration.relocate move = declaration.relocate again ↔
      ∀ place ∈ declaration.places, move place = again place := by
  simp [relocate, places, Ty.relocate_eq_iff, or_imp, forall_and]

end Declaration

/-! ## Expressions -/

namespace Expression

mutual

/-- The expression with all its places moved. -/
def relocate (move : Position → Position) : Expression → Expression
  | integer ty value position => integer (ty.relocate move) value (move position)
  | name declaration spelling position =>
    name (declaration.relocate move) spelling (move position)
  | unary ty operator operand position =>
    unary (ty.relocate move) operator (operand.relocate move) (move position)
  | binary ty operator left right position =>
    binary (ty.relocate move) operator (left.relocate move) (right.relocate move) (move position)
  | cast ty operand position => cast (ty.relocate move) (operand.relocate move) (move position)
  | call ty callee arguments position =>
    call (ty.relocate move) (callee.relocate move) (relocateAll move arguments) (move position)
termination_by structural expression => expression

def relocateAll (move : Position → Position) : List Expression → List Expression
  | [] => []
  | expression :: rest => expression.relocate move :: relocateAll move rest
termination_by structural expressions => expressions

end

mutual

/-- The places that an expression holds: those of its nodes, of the declarations that its names
stand for, and of all their types. -/
def places : Expression → List Position
  | integer ty _ position => ty.places ++ [position]
  | name declaration _ position => declaration.places ++ [position]
  | unary ty _ operand position => ty.places ++ (operand.places ++ [position])
  | binary ty _ left right position => ty.places ++ (left.places ++ (right.places ++ [position]))
  | cast ty operand position => ty.places ++ (operand.places ++ [position])
  | call ty callee arguments position =>
    ty.places ++ (callee.places ++ (placesAll arguments ++ [position]))
termination_by structural expression => expression

def placesAll : List Expression → List Position
  | [] => []
  | expression :: rest => expression.places ++ placesAll rest
termination_by structural expressions => expressions

end

theorem relocateAll_eq_map (expressions : List Expression) :
    relocateAll move expressions = expressions.map (relocate move) := by
  induction expressions with
  | nil => rfl
  | cons expression rest ih => rw [relocateAll, ih]; rfl

@[simp] theorem ty_relocate (expression : Expression) :
    (expression.relocate move).ty = expression.ty.relocate move := by
  cases expression <;> simp [relocate, ty, Declaration.relocate]

@[simp] theorem position_relocate (expression : Expression) :
    (expression.relocate move).position = move expression.position := by
  cases expression <;> simp [relocate, position]

@[simp] theorem isAssignable_relocate (expression : Expression) :
    (expression.relocate move).isAssignable = expression.isAssignable := by
  cases expression with
  | unary ty operator operand position => cases operator <;> rfl
  | _ => rfl

mutual

theorem relocate_id : ∀ expression : Expression, expression.relocate id = expression
  | integer ty _ _ => by simp [relocate, ty.relocate_id]
  | name declaration _ _ => by simp [relocate, declaration.relocate_id]
  | unary ty _ operand _ => by simp [relocate, ty.relocate_id, relocate_id operand]
  | binary ty _ left right _ => by
    simp [relocate, ty.relocate_id, relocate_id left, relocate_id right]
  | cast ty operand _ => by simp [relocate, ty.relocate_id, relocate_id operand]
  | call ty callee arguments _ => by
    simp [relocate, ty.relocate_id, relocate_id callee, relocateAll_id arguments]

theorem relocateAll_id : ∀ expressions : List Expression, relocateAll id expressions = expressions
  | [] => rfl
  | expression :: rest => by rw [relocateAll, relocate_id expression, relocateAll_id rest]

end

mutual

/-- Two moves have one outcome exactly if they agree on the places of the expression. -/
theorem relocate_eq_iff : ∀ expression : Expression,
    expression.relocate move = expression.relocate again ↔
      ∀ place ∈ expression.places, move place = again place
  | integer ty _ _ => by simp [relocate, places, ty.relocate_eq_iff, or_imp, forall_and]
  | name declaration _ _ => by
    simp [relocate, places, declaration.relocate_eq_iff, or_imp, forall_and]
  | unary ty _ operand _ => by
    simp [relocate, places, ty.relocate_eq_iff, relocate_eq_iff operand, or_imp, forall_and]
  | binary ty _ left right _ => by
    simp [relocate, places, ty.relocate_eq_iff, relocate_eq_iff left, relocate_eq_iff right, or_imp,
      forall_and]
  | cast ty operand _ => by
    simp [relocate, places, ty.relocate_eq_iff, relocate_eq_iff operand, or_imp, forall_and]
  | call ty callee arguments _ => by
    simp [relocate, places, ty.relocate_eq_iff, relocate_eq_iff callee, relocateAll_eq_iff arguments,
      or_imp, forall_and]

theorem relocateAll_eq_iff : ∀ expressions : List Expression,
    relocateAll move expressions = relocateAll again expressions ↔
      ∀ place ∈ placesAll expressions, move place = again place
  | [] => by simp [relocateAll, placesAll]
  | expression :: rest => by
    simp [relocateAll, placesAll, relocate_eq_iff expression, relocateAll_eq_iff rest, or_imp,
      forall_and]

end

end Expression

/-! ## Statements -/

namespace Statement

mutual

/-- The statement with all its places moved. -/
def relocate (move : Position → Position) : Statement → Statement
  | declaration declared initializer =>
    declaration (declared.relocate move) (initializer.map (Expression.relocate move))
  | typedef name ty position => typedef name (ty.relocate move) (move position)
  | distinct name ty position => distinct name (ty.relocate move) (move position)
  | block ⟨statements, position⟩ => block ⟨relocateAll move statements, move position⟩
  | function declared parameters ⟨statements, position⟩ =>
    function (declared.relocate move) (parameters.map (Declaration.relocate move))
      ⟨relocateAll move statements, move position⟩
  | conditional condition ⟨statements, opening⟩ none position =>
    conditional (condition.relocate move) ⟨relocateAll move statements, move opening⟩ none
      (move position)
  | conditional condition ⟨statements, opening⟩ (some ⟨others, otherOpening⟩) position =>
    conditional (condition.relocate move) ⟨relocateAll move statements, move opening⟩
      (some ⟨relocateAll move others, move otherOpening⟩) (move position)
  | loop condition ⟨statements, opening⟩ position =>
    loop (condition.relocate move) ⟨relocateAll move statements, move opening⟩ (move position)
  | ret value position => ret (value.map (Expression.relocate move)) (move position)
  | assignment target operator value position =>
    assignment (target.relocate move) operator (value.relocate move) (move position)
  | expression value => expression (value.relocate move)
termination_by structural statement => statement

def relocateAll (move : Position → Position) : List Statement → List Statement
  | [] => []
  | statement :: rest => statement.relocate move :: relocateAll move rest
termination_by structural statements => statements

end

mutual

/-- The places that a statement holds: those of its parts and of everything that it declares. -/
def places : Statement → List Position
  | declaration declared initializer =>
    declared.places ++ (initializer.map Expression.places).getD []
  | typedef _ ty position => ty.places ++ [position]
  | distinct _ ty position => ty.places ++ [position]
  | block ⟨statements, position⟩ => placesAll statements ++ [position]
  | function declared parameters ⟨statements, position⟩ =>
    declared.places ++ (parameters.flatMap Declaration.places ++ (placesAll statements ++ [position]))
  | conditional condition ⟨statements, opening⟩ none position =>
    condition.places ++ (placesAll statements ++ [opening, position])
  | conditional condition ⟨statements, opening⟩ (some ⟨others, otherOpening⟩) position =>
    condition.places ++ (placesAll statements ++ (opening ::
      (placesAll others ++ [otherOpening, position])))
  | loop condition ⟨statements, opening⟩ position =>
    condition.places ++ (placesAll statements ++ [opening, position])
  | ret value position => (value.map Expression.places).getD [] ++ [position]
  | assignment target _ value position => target.places ++ (value.places ++ [position])
  | expression value => value.places
termination_by structural statement => statement

def placesAll : List Statement → List Position
  | [] => []
  | statement :: rest => statement.places ++ placesAll rest
termination_by structural statements => statements

end

theorem relocateAll_eq_map (statements : List Statement) :
    relocateAll move statements = statements.map (relocate move) := by
  induction statements with
  | nil => rfl
  | cons statement rest ih => rw [relocateAll, ih]; rfl

end Statement

def Block.relocate (move : Position → Position) (body : Block Statement) : Block Statement :=
  ⟨body.statements.map (Statement.relocate move), move body.position⟩

namespace Statement

theorem relocate_block (body : Block Statement) :
    (block body).relocate move = block (body.relocate move) := by
  obtain ⟨statements, position⟩ := body
  rw [relocate, relocateAll_eq_map]
  rfl

theorem relocate_function (declared : Declaration) (parameters : List Declaration)
    (body : Block Statement) :
    (function declared parameters body).relocate move =
      function (declared.relocate move) (parameters.map (Declaration.relocate move))
        (body.relocate move) := by
  obtain ⟨statements, position⟩ := body
  rw [relocate, relocateAll_eq_map]
  rfl

theorem relocate_conditional (condition : Expression) (whenTrue : Block Statement)
    (otherwise : Option (Block Statement)) (position : Position) :
    (conditional condition whenTrue otherwise position).relocate move =
      conditional (condition.relocate move) (whenTrue.relocate move)
        (otherwise.map (Block.relocate move)) (move position) := by
  obtain ⟨statements, opening⟩ := whenTrue
  rcases otherwise with _ | ⟨others, otherOpening⟩ <;> simp only [relocate, relocateAll_eq_map] <;> rfl

theorem relocate_loop (condition : Expression) (body : Block Statement) (position : Position) :
    (loop condition body position).relocate move =
      loop (condition.relocate move) (body.relocate move) (move position) := by
  obtain ⟨statements, opening⟩ := body
  rw [relocate, relocateAll_eq_map]
  rfl

mutual

theorem returns_relocate : ∀ statement : Statement,
    (statement.relocate move).returns = statement.returns
  | ret .. => rfl
  | block ⟨statements, _⟩ => returnsOnAllPaths_relocateAll statements
  | conditional _ ⟨_, _⟩ none _ => rfl
  | conditional _ ⟨statements, _⟩ (some ⟨others, _⟩) _ => by
    simp only [relocate, returns, returnsOnAllPaths_relocateAll statements,
      returnsOnAllPaths_relocateAll others]
  | declaration .. => rfl
  | typedef .. => rfl
  | distinct .. => rfl
  | function _ _ ⟨_, _⟩ => rfl
  | loop _ ⟨_, _⟩ _ => rfl
  | assignment .. => rfl
  | expression .. => rfl

theorem returnsOnAllPaths_relocateAll : ∀ statements : List Statement,
    returnsOnAllPaths (relocateAll move statements) = returnsOnAllPaths statements
  | [] => rfl
  | statement :: rest => by
    rw [relocateAll, returnsOnAllPaths, returns_relocate statement,
      returnsOnAllPaths_relocateAll rest, returnsOnAllPaths]

end

@[simp] theorem returnsOnAllPaths_relocate (statements : List Statement) :
    returnsOnAllPaths (statements.map (relocate move)) = returnsOnAllPaths statements := by
  rw [← relocateAll_eq_map, returnsOnAllPaths_relocateAll]

theorem map_relocate_id (value : Option Expression) : value.map (Expression.relocate id) = value := by
  cases value with
  | none => rfl
  | some value => exact congrArg some value.relocate_id

mutual

theorem relocate_id : ∀ statement : Statement, statement.relocate id = statement
  | declaration declared initializer => by
    simp [relocate, declared.relocate_id, map_relocate_id]
  | typedef _ ty _ => by simp [relocate, ty.relocate_id]
  | distinct _ ty _ => by simp [relocate, ty.relocate_id]
  | block ⟨statements, _⟩ => by simp [relocate, relocateAll_id statements]
  | function declared parameters ⟨statements, _⟩ => by
    have same : parameters.map (Declaration.relocate id) = parameters := by
      rw [List.map_congr_left fun parameter _ => parameter.relocate_id]
      exact parameters.map_id'
    simp [relocate, declared.relocate_id, relocateAll_id statements, same]
  | conditional condition ⟨statements, _⟩ none _ => by
    simp [relocate, condition.relocate_id, relocateAll_id statements]
  | conditional condition ⟨statements, _⟩ (some ⟨others, _⟩) _ => by
    simp [relocate, condition.relocate_id, relocateAll_id statements, relocateAll_id others]
  | loop condition ⟨statements, _⟩ _ => by
    simp [relocate, condition.relocate_id, relocateAll_id statements]
  | ret value _ => by simp [relocate, map_relocate_id]
  | assignment target _ value _ => by simp [relocate, target.relocate_id, value.relocate_id]
  | expression value => by simp [relocate, value.relocate_id]

theorem relocateAll_id : ∀ statements : List Statement, relocateAll id statements = statements
  | [] => rfl
  | statement :: rest => by rw [relocateAll, relocate_id statement, relocateAll_id rest]

end

theorem map_relocate_eq_iff (value : Option Expression) :
    value.map (Expression.relocate move) = value.map (Expression.relocate again) ↔
      ∀ place ∈ (value.map Expression.places).getD [], move place = again place := by
  cases value with
  | none => simp
  | some value => simp [value.relocate_eq_iff]

theorem map_declarations_eq_iff (declarations : List Declaration) :
    declarations.map (Declaration.relocate move) = declarations.map (Declaration.relocate again) ↔
      ∀ place ∈ declarations.flatMap Declaration.places, move place = again place := by
  simp only [List.map_inj_left, Declaration.relocate_eq_iff, List.mem_flatMap]
  exact ⟨fun same place ⟨declared, member, within⟩ => same declared member place within,
    fun same declared member place within => same place ⟨declared, member, within⟩⟩

mutual

/-- Two moves have one outcome exactly if they agree on the places of the statement. -/
theorem relocate_eq_iff : ∀ statement : Statement,
    statement.relocate move = statement.relocate again ↔
      ∀ place ∈ statement.places, move place = again place
  | declaration declared initializer => by
    simp only [relocate, places, declaration.injEq, declared.relocate_eq_iff, map_relocate_eq_iff,
      List.mem_append, or_imp, forall_and]
  | typedef _ ty _ => by simp [relocate, places, ty.relocate_eq_iff, or_imp, forall_and]
  | distinct _ ty _ => by simp [relocate, places, ty.relocate_eq_iff, or_imp, forall_and]
  | block ⟨statements, _⟩ => by
    simp [relocate, places, relocateAll_eq_iff statements, or_imp, forall_and]
  | function declared parameters ⟨statements, _⟩ => by
    simp only [relocate, places, function.injEq, declared.relocate_eq_iff, map_declarations_eq_iff,
      Block.mk.injEq, relocateAll_eq_iff statements, List.mem_append, List.mem_singleton, or_imp,
      forall_and, forall_eq]
  | conditional condition ⟨statements, _⟩ none _ => by
    simp [relocate, places, condition.relocate_eq_iff, relocateAll_eq_iff statements, or_imp,
      forall_and, and_assoc]
  | conditional condition ⟨statements, _⟩ (some ⟨others, _⟩) _ => by
    simp [relocate, places, condition.relocate_eq_iff, relocateAll_eq_iff statements,
      relocateAll_eq_iff others, or_imp, forall_and, and_assoc]
  | loop condition ⟨statements, _⟩ _ => by
    simp [relocate, places, condition.relocate_eq_iff, relocateAll_eq_iff statements, or_imp,
      forall_and, and_assoc]
  | ret value _ => by
    simp only [relocate, places, ret.injEq, map_relocate_eq_iff, List.mem_append,
      List.mem_singleton, or_imp, forall_and, forall_eq]
  | assignment target _ value _ => by
    simp [relocate, places, target.relocate_eq_iff, value.relocate_eq_iff, or_imp, forall_and]
  | expression value => by simp [relocate, places, value.relocate_eq_iff]

theorem relocateAll_eq_iff : ∀ statements : List Statement,
    relocateAll move statements = relocateAll again statements ↔
      ∀ place ∈ placesAll statements, move place = again place
  | [] => by simp [relocateAll, placesAll]
  | statement :: rest => by
    simp [relocateAll, placesAll, relocate_eq_iff statement, relocateAll_eq_iff rest, or_imp,
      forall_and]

end

end Statement
end MiniC
