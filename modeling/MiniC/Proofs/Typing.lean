/-
# MiniC.Proofs.Typing — when a tree is well typed

A judgement on trees, said apart from how they are read. `HasType levels suggested e ty` says that
under the open levels the expression is of the type, where the surroundings suggest a type or none;
the type that a node carries is part of the tree and has to be the one that the rules give.

* A literal has the suggested instance, which is an integer type. A declared type is suggested to
  an initializer, a return type to a returned value, the target's type to an assigned value, a
  parameter's type to an argument, the left type to a right operand and a cast's type to its
  operand. Signs, left operands and callees hand the suggestion on, `&` and `*` suggest nothing.
* A name is of the type of the declaration that it carries, which is what it stands for.
* An operator, a cast or a call relates the types of its operands as the rule says.

`Checked levels result statements after` says that a run of statements is well typed inside a
function of the given result, if any, and what is declared after it. A block, a branch, the body of
a loop and the body of a function have a level of their own, and the body of a function returns on
every path.
-/
import MiniC.Operator
import MiniC.Proofs.Levels
import MiniC.Tree.Coverage
import MiniC.Ty.Compatible

namespace MiniC

set_option autoImplicit false

/-! ## Expressions -/

/-- The expression is of the type where its surroundings suggest a type or none. -/
inductive HasType (levels : Levels) : (suggested : Option Ty) → Expression → Ty → Prop
  | integer {ty : Ty} {value : Nat} {position : Position} (integral : ty.isInteger) :
      HasType levels (some ty) (.integer ty value position) ty
  | name {suggested : Option Ty} {declaration : Declaration} {spelling : String}
      {position : Position} (found : levels.find? spelling = some declaration) :
      HasType levels suggested (.name declaration spelling position) declaration.ty
  | sign {suggested : Option Ty} {operator : UnaryOperator} {operand : Expression} {ty : Ty}
      {position : Position} (sign : operator.isSign) (typed : HasType levels suggested operand ty)
      (integral : ty.isInteger) :
      HasType levels suggested (.unary ty operator operand position) ty
  | addressOf {suggested : Option Ty} {operand : Expression} {ty : Ty} {position : Position}
      (typed : HasType levels none operand ty) :
      HasType levels suggested
        (.unary (.pointer ⟨.site position, none⟩ ty) .addressOf operand position)
        (.pointer ⟨.site position, none⟩ ty)
  | dereference {suggested : Option Ty} {operand : Expression} {tag : Tag} {ty : Ty}
      {position : Position} (typed : HasType levels none operand (.pointer tag ty)) :
      HasType levels suggested (.unary ty .dereference operand position) ty
  | arithmetic {suggested : Option Ty} {operator : BinaryOperator} {left right : Expression}
      {ty other : Ty} {position : Position} (arithmetic : operator.isArithmetic)
      (leftTyped : HasType levels suggested left ty)
      (rightTyped : HasType levels (some ty) right other) (integral : ty.isInteger)
      (otherIntegral : other.isInteger) (fits : ty.compatible other) :
      HasType levels suggested (.binary ty operator left right position) ty
  | ordering {suggested : Option Ty} {operator : BinaryOperator} {left right : Expression}
      {ty other : Ty} {position : Position} (relational : operator.isRelational)
      (leftTyped : HasType levels suggested left ty)
      (rightTyped : HasType levels (some ty) right other) (integral : ty.isInteger)
      (otherIntegral : other.isInteger) (fits : ty.compatible other) :
      HasType levels suggested (.binary Ty.bool operator left right position) Ty.bool
  | equality {suggested : Option Ty} {left right : Expression} {ty other : Ty}
      {position : Position} (leftTyped : HasType levels suggested left ty)
      (rightTyped : HasType levels (some ty) right other) (fits : ty.compatible other) :
      HasType levels suggested (.binary Ty.bool .equal left right position) Ty.bool
  | cast {suggested : Option Ty} {operand : Expression} {ty other : Ty} {position : Position}
      (typed : HasType levels (some ty) operand other)
      (fits : ty.shape = other.shape ∨ ty.size = other.size) :
      HasType levels suggested (.cast ty operand position) ty
  | call {suggested : Option Ty} {callee : Expression} {tag : Tag} {result : Ty}
      {parameters : List (Parameter Ty)} {arguments : List Expression} {position : Position}
      (calleeTyped : HasType levels suggested callee (.function tag result parameters))
      (arity : arguments.length = parameters.length)
      (typed : ∀ pair ∈ arguments.zip parameters,
        HasType levels (some pair.2.ty) pair.1 pair.1.ty)
      (fits : ∀ pair ∈ arguments.zip parameters, pair.1.ty.compatible pair.2.ty) :
      HasType levels suggested (.call result callee arguments position) result

/-! ## Statements -/

/-- The statements are well typed inside a function of the given result, if any, and leave the
levels with what they declare. -/
inductive Checked : Levels → (result : Option Ty) → List Statement → Levels → Prop
  | nil {levels : Levels} {result : Option Ty} : Checked levels result [] levels
  | append {levels between after : Levels} {result : Option Ty} {first second : List Statement}
      (before : Checked levels result first between)
      (behind : Checked between result second after) :
      Checked levels result (first ++ second) after
  | uninitialized {levels after : Levels} {result : Option Ty} {declared : Declaration}
      (bound : levels.bind? declared = some after) :
      Checked levels result [.declaration declared none] after
  | initialized {levels after : Levels} {result : Option Ty} {declared : Declaration}
      {value : Expression} {ty : Ty} (typed : HasType levels (some declared.ty) value ty)
      (fits : ty.compatible declared.ty) (bound : levels.bind? declared = some after) :
      Checked levels result [.declaration declared (some value)] after
  | inferred {levels after : Levels} {result : Option Ty} {declared : Declaration}
      {value : Expression} (typed : HasType levels none value declared.ty)
      (bound : levels.bind? declared = some after) :
      Checked levels result [.declaration declared (some value)] after
  | typedef {levels : Levels} {result : Option Ty} {name : String} {ty : Ty}
      {position : Position} : Checked levels result [.typedef name ty position] levels
  | distinct {levels : Levels} {result : Option Ty} {name : String} {ty : Ty}
      {position : Position} (named : ty.label = some name) :
      Checked levels result [.distinct name ty position] levels
  | block {levels inner : Levels} {result : Option Ty} {body : Block Statement}
      (checked : Checked (.empty :: levels) result body.statements inner) :
      Checked levels result [.block body] levels
  | function {levels known opened inner : Levels} {result : Option Ty} {declared : Declaration}
      {tag : Tag} {outcome : Ty} {parameters : List Declaration} {body : Block Statement}
      (outermost : levels.length = 1) (bound : levels.bind? declared = some known)
      (signature : declared.ty = .function tag outcome
        (parameters.map fun parameter => ⟨some parameter.name, parameter.ty, parameter.position⟩))
      (parametersBound : parameters.foldlM Levels.bind? (.empty :: known) = some opened)
      (checked : Checked opened (some outcome) body.statements inner)
      (returns : returnsOnAllPaths body.statements) :
      Checked levels result [.function declared parameters body] known
  | conditional {levels inner : Levels} {result : Option Ty} {test : Expression} {ty : Ty}
      {whenTrue : Block Statement} {position : Position}
      (typed : HasType levels (some Ty.bool) test ty) (boolean : ty.isBool)
      (checked : Checked (.empty :: levels) result whenTrue.statements inner) :
      Checked levels result [.conditional test whenTrue none position] levels
  | alternative {levels inner other : Levels} {result : Option Ty} {test : Expression} {ty : Ty}
      {whenTrue otherwise : Block Statement} {position : Position}
      (typed : HasType levels (some Ty.bool) test ty) (boolean : ty.isBool)
      (checked : Checked (.empty :: levels) result whenTrue.statements inner)
      (otherChecked : Checked (.empty :: levels) result otherwise.statements other) :
      Checked levels result [.conditional test whenTrue (some otherwise) position] levels
  | loop {levels inner : Levels} {result : Option Ty} {test : Expression} {ty : Ty}
      {body : Block Statement} {position : Position}
      (typed : HasType levels (some Ty.bool) test ty) (boolean : ty.isBool)
      (checked : Checked (.empty :: levels) result body.statements inner) :
      Checked levels result [.loop test body position] levels
  | returnValue {levels : Levels} {outcome ty : Ty} {value : Expression} {position : Position}
      (typed : HasType levels (some outcome) value ty) (yields : outcome.isVoid = false)
      (fits : ty.compatible outcome) :
      Checked levels (some outcome) [.ret (some value) position] levels
  | returnNothing {levels : Levels} {outcome : Ty} {position : Position}
      (void : outcome.isVoid) : Checked levels (some outcome) [.ret none position] levels
  | assignment {levels : Levels} {result : Option Ty} {target value : Expression} {ty other : Ty}
      {position : Position} (assignable : target.isAssignable)
      (targetTyped : HasType levels none target ty)
      (valueTyped : HasType levels (some ty) value other) (fits : other.compatible ty) :
      Checked levels result [.assignment target .assign value position] levels
  | compoundAssignment {levels : Levels} {result : Option Ty} {target value : Expression}
      {operator : AssignmentOperator} {ty other : Ty} {position : Position}
      (compound : operator ≠ .assign) (assignable : target.isAssignable)
      (targetTyped : HasType levels none target ty)
      (valueTyped : HasType levels (some ty) value other) (integral : ty.isInteger)
      (otherIntegral : other.isInteger) (fits : ty.compatible other) :
      Checked levels result [.assignment target operator value position] levels
  | expression {levels : Levels} {result : Option Ty} {value : Expression} {ty : Ty}
      (typed : HasType levels none value ty) : Checked levels result [.expression value] levels

end MiniC
