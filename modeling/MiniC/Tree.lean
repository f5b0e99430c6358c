/-
# MiniC.Tree — a file after reading

The tree of a file holds what its statements mean: every expression carries its type, and every
name the declaration that it stands for. Grouping parentheses leave no trace, and a grouped
expression keeps its own place.

The place of a binary expression, a call and an assignment is that of their first operand, callee
or target; the place of a definition of a type is that of its keyword; the place of a declaration
is that of its name.

Nothing is said twice: the function that a call calls is the type of its callee, and the initializer
of a variable stands in the statement that declares it, not in the declaration that names hold.
-/
import MiniC.Operator
import MiniC.Ty

namespace MiniC

set_option autoImplicit false

/-- A named value: a variable, a parameter or a function. -/
structure Declaration where
  name : String
  ty : Ty
  position : Position
  deriving Repr

/-- Expressions, with the types found for them. -/
inductive Expression where
  | integer (ty : Ty) (value : Nat) (position : Position)
  | name (declaration : Declaration) (spelling : String) (position : Position)
  | unary (ty : Ty) (operator : UnaryOperator) (operand : Expression) (position : Position)
  | binary (ty : Ty) (operator : BinaryOperator) (left right : Expression) (position : Position)
  | cast (ty : Ty) (operand : Expression) (position : Position)
  | call (ty : Ty) (callee : Expression) (arguments : List Expression) (position : Position)
  deriving Repr

namespace Expression

def ty : Expression → Ty
  | integer ty .. => ty
  | name declaration .. => declaration.ty
  | unary ty .. => ty
  | binary ty .. => ty
  | cast ty .. => ty
  | call ty .. => ty

def position : Expression → Position
  | integer _ _ position => position
  | name _ _ position => position
  | unary _ _ _ position => position
  | binary _ _ _ _ position => position
  | cast _ _ position => position
  | call _ _ _ position => position

/-- Whether the expression may be the target of an assignment. -/
def isAssignable : Expression → Bool
  | name .. => true
  | unary _ .dereference .. => true
  | _ => false

end Expression

/-- Statements between braces, with the place of the opening one. -/
structure Block (σ : Type) where
  statements : List σ
  position : Position
  deriving Repr

/-- Statements. -/
inductive Statement where
  | declaration (declared : Declaration) (initializer : Option Expression)
  | typedef (name : String) (ty : Ty) (position : Position)
  | distinct (name : String) (ty : Ty) (position : Position)
  | block (body : Block Statement)
  | function (declared : Declaration) (parameters : List Declaration) (body : Block Statement)
  | conditional (condition : Expression) (whenTrue : Block Statement)
      (otherwise : Option (Block Statement)) (position : Position)
  | loop (condition : Expression) (body : Block Statement) (position : Position)
  | ret (value : Option Expression) (position : Position)
  | assignment (target : Expression) (operator : AssignmentOperator) (value : Expression)
      (position : Position)
  | expression (value : Expression)
  deriving Repr

/-- What became of a source: its path and its statements. -/
structure File where
  path : String
  statements : List Statement
  deriving Repr

end MiniC
