/-
# MiniC.Proofs.Unplaced — types and expressions apart from where they are written

Two readings of the same tokens yield trees that differ in places alone. `unplaced` forgets the
places of the nodes of a tree, and those where the pointers, arrays and functions in it were made,
which are made anew by every reading. It forgets neither what a name stands for nor which instance
of `void`, `bool` or an integer a type is, since these are not made by reading an expression.

What the parser asks of a type does not depend on what is forgotten: its shape, its size, whether it
is compatible with another, and what operators make of it.
-/
import MiniC.Operator.Typing
import MiniC.Tree

namespace MiniC

set_option autoImplicit false

/-! ## Types -/

/-- The tag of an instance that is made by reading, apart from where that was. -/
def Tag.unplaced (tag : Tag) : Tag :=
  ⟨.builtin, tag.label⟩

namespace Ty

mutual

/-- The type apart from where its pointers, arrays, functions and parameters are written. -/
def unplaced : Ty → Ty
  | scalar tag kind => scalar tag kind
  | pointer tag pointee => pointer tag.unplaced pointee.unplaced
  | array tag element count => array tag.unplaced element.unplaced count
  | function tag result parameters =>
    function tag.unplaced result.unplaced (unplacedAll parameters)
termination_by structural ty => ty

def unplacedAll : List (Parameter Ty) → List (Parameter Ty)
  | [] => []
  | ⟨name, ty, _⟩ :: rest => ⟨name, ty.unplaced, Position.start⟩ :: unplacedAll rest
termination_by structural parameters => parameters

end

end Ty

def Parameter.unplaced (parameter : Parameter Ty) : Parameter Ty :=
  ⟨parameter.name, parameter.ty.unplaced, Position.start⟩

namespace Ty

theorem unplacedAll_eq_map (parameters : List (Parameter Ty)) :
    unplacedAll parameters = parameters.map Parameter.unplaced := by
  induction parameters with
  | nil => rfl
  | cons parameter rest ih => rw [unplacedAll, ih]; rfl

@[simp] theorem unplaced_function (tag : Tag) (result : Ty) (parameters : List (Parameter Ty)) :
    (function tag result parameters).unplaced =
      function tag.unplaced result.unplaced (parameters.map Parameter.unplaced) := by
  rw [unplaced, unplacedAll_eq_map]

@[simp] theorem unplaced_unplaced (ty : Ty) : ty.unplaced.unplaced = ty.unplaced := by
  induction ty using induct with
  | scalar tag kind => rfl
  | pointer tag pointee ih => simp [unplaced, Tag.unplaced, ih]
  | array tag element count ih => simp [unplaced, Tag.unplaced, ih]
  | function tag result parameters result_ih parameters_ih =>
    simp only [unplaced_function, Tag.unplaced, result_ih, List.map_map, function.injEq,
      List.map_inj_left, true_and]
    intro parameter member
    simp [Parameter.unplaced, parameters_ih parameter member]

@[simp] theorem shape_unplaced (ty : Ty) : ty.unplaced.shape = ty.shape := by
  cases ty <;> simp [unplaced, shape]

@[simp] theorem size_unplaced (ty : Ty) : ty.unplaced.size = ty.size := by
  induction ty using induct with
  | scalar tag kind => rfl
  | pointer tag pointee ih => rfl
  | array tag element count ih => simp [unplaced, size, ih]
  | function tag result parameters result_ih parameters_ih => rfl

theorem compatibleAll_unplaced_of {parameters : List (Parameter Ty)}
    (each : ∀ parameter ∈ parameters, ∀ other : Ty,
      parameter.ty.unplaced.compatible other.unplaced = parameter.ty.compatible other)
    (others : List (Parameter Ty)) :
    compatibleAll (parameters.map Parameter.unplaced) (others.map Parameter.unplaced) =
      compatibleAll parameters others := by
  induction parameters generalizing others with
  | nil => cases others <;> rfl
  | cons parameter rest ih =>
    cases others with
    | nil => rfl
    | cons other others =>
      have here := each parameter List.mem_cons_self other.ty
      have later := ih (fun parameter member => each parameter (List.mem_cons_of_mem _ member))
        others
      simp only [List.map_cons, Parameter.unplaced, compatibleAll, here]
      exact congrArg _ later

@[simp] theorem compatible_unplaced (one other : Ty) :
    one.unplaced.compatible other.unplaced = one.compatible other := by
  induction one using induct generalizing other with
  | scalar tag kind => cases other <;> simp [unplaced, compatible]
  | pointer tag pointee ih => cases other <;> simp [unplaced, compatible, ih]
  | array tag element count ih => cases other <;> simp [unplaced, compatible, ih]
  | function tag result parameters result_ih parameters_ih =>
    cases other with
    | function otherTag otherResult otherParameters =>
      simp only [unplaced_function, compatible]
      exact compatibleAll_unplaced_of parameters_ih _
    | _ => simp [unplaced, compatible]

/-! ### What is alike apart from places -/

variable {one one' other other' : Ty} (same : one'.unplaced = one.unplaced)
  (same' : other'.unplaced = other.unplaced)

include same

theorem shape_eq_of_unplaced : one'.shape = one.shape := by
  rw [← shape_unplaced, same, shape_unplaced]

theorem isInteger_eq_of_unplaced : one'.isInteger = one.isInteger := by
  rw [isInteger, shape_eq_of_unplaced same, isInteger]

/-- An integer type is known by more than its place. -/
theorem eq_of_unplaced (integer : one.isInteger) : one' = one := by
  have integer' : one'.isInteger := by rw [isInteger_eq_of_unplaced same, integer]
  cases one <;> cases one' <;> simp_all [isInteger, shape, unplaced]

theorem signature?_of_unplaced {result : Ty} {parameters : List (Parameter Ty)}
    (callable : one.signature? = some (result, parameters)) :
    ∃ result' parameters', one'.signature? = some (result', parameters') ∧
      result'.unplaced = result.unplaced ∧
      parameters'.map Parameter.unplaced = parameters.map Parameter.unplaced := by
  cases one with
  | function tag result parameters =>
    cases callable
    cases one' with
    | function tag' result' parameters' =>
      simp only [unplaced_function, function.injEq] at same
      exact ⟨result', parameters', rfl, same.2⟩
    | _ => simp [unplaced] at same
  | _ => cases callable

include same'

theorem sameShape_eq_of_unplaced : one'.sameShape other' = one.sameShape other := by
  rw [sameShape, shape_eq_of_unplaced same, shape_eq_of_unplaced same', sameShape]

theorem size_beq_of_unplaced : (one'.size == other'.size) = (one.size == other.size) := by
  rw [← size_unplaced one', ← size_unplaced other', same, same', size_unplaced, size_unplaced]

theorem compatible_eq_of_unplaced : one'.compatible other' = one.compatible other := by
  rw [← compatible_unplaced, same, same', compatible_unplaced]

end Ty

/-! ## Operators -/

theorem UnaryOperator.result?_of_unplaced {operator : UnaryOperator} {site site' : Position}
    {operand operand' ty : Ty} (same : operand'.unplaced = operand.unplaced)
    (typed : operator.result? site operand = some ty) :
    ∃ ty', operator.result? site' operand' = some ty' ∧ ty'.unplaced = ty.unplaced := by
  have integer := Ty.isInteger_eq_of_unplaced same
  cases operator with
  | plus | minus =>
    simp only [result?, Option.ite_none_right_eq_some, Option.some.injEq] at typed ⊢
    obtain ⟨isInteger, rfl⟩ := typed
    exact ⟨operand', ⟨by rw [integer, isInteger], rfl⟩, same⟩
  | addressOf =>
    cases typed
    exact ⟨_, rfl, by simp [Ty.unplaced, Tag.unplaced, same]⟩
  | dereference =>
    cases operand with
    | pointer tag pointee =>
      cases typed
      cases operand' with
      | pointer tag' pointee' =>
        simp only [Ty.unplaced, Ty.pointer.injEq] at same
        exact ⟨pointee', rfl, same.2⟩
      | _ => simp [Ty.unplaced] at same
    | _ => cases typed

theorem BinaryOperator.result?_of_unplaced {operator : BinaryOperator}
    {left left' right right' : Ty} (same : left'.unplaced = left.unplaced)
    (same' : right'.unplaced = right.unplaced) :
    (operator.result? left' right').map Ty.unplaced =
      (operator.result? left right).map Ty.unplaced := by
  simp only [result?, Ty.isInteger_eq_of_unplaced same, Ty.isInteger_eq_of_unplaced same',
    Ty.compatible_eq_of_unplaced same same']
  split
  · split <;> simp [same]
  · rfl

theorem BinaryOperator.isSome_result?_of_unplaced {operator : BinaryOperator}
    {left left' right right' : Ty} (same : left'.unplaced = left.unplaced)
    (same' : right'.unplaced = right.unplaced) :
    (operator.result? left' right').isSome = (operator.result? left right).isSome := by
  simpa only [Option.isSome_map] using
    congrArg Option.isSome (operator.result?_of_unplaced same same')

/-! ## Expressions -/

namespace Expression

mutual

/-- The expression apart from where it is written. -/
def unplaced : Expression → Expression
  | integer ty value _ => integer ty.unplaced value Position.start
  | name declaration spelling _ => name declaration spelling Position.start
  | unary ty operator operand _ => unary ty.unplaced operator operand.unplaced Position.start
  | binary ty operator left right _ =>
    binary ty.unplaced operator left.unplaced right.unplaced Position.start
  | cast ty operand _ => cast ty.unplaced operand.unplaced Position.start
  | call ty callee arguments _ =>
    call ty.unplaced callee.unplaced (unplacedAll arguments) Position.start
termination_by structural expression => expression

def unplacedAll : List Expression → List Expression
  | [] => []
  | expression :: rest => expression.unplaced :: unplacedAll rest
termination_by structural expressions => expressions

end

theorem unplacedAll_eq_map (expressions : List Expression) :
    unplacedAll expressions = expressions.map unplaced := by
  induction expressions with
  | nil => rfl
  | cons expression rest ih => rw [unplacedAll, ih]; rfl

@[simp] theorem unplaced_call (ty : Ty) (callee : Expression) (arguments : List Expression)
    (position : Position) :
    (call ty callee arguments position).unplaced =
      call ty.unplaced callee.unplaced (arguments.map unplaced) Position.start := by
  rw [unplaced, unplacedAll_eq_map]

theorem unplaced_ty_unplaced (expression : Expression) :
    expression.unplaced.ty.unplaced = expression.ty.unplaced := by
  cases expression <;> simp [unplaced, ty]

@[simp] theorem isAssignable_unplaced (expression : Expression) :
    expression.unplaced.isAssignable = expression.isAssignable := by
  cases expression with
  | unary ty operator operand position => cases operator <;> rfl
  | _ => rfl

variable {one one' : Expression} (same : one'.unplaced = one.unplaced)

include same

theorem ty_of_unplaced : one'.ty.unplaced = one.ty.unplaced := by
  rw [← unplaced_ty_unplaced, same, unplaced_ty_unplaced]

theorem isAssignable_eq_of_unplaced : one'.isAssignable = one.isAssignable := by
  rw [← isAssignable_unplaced, same, isAssignable_unplaced]

end Expression

end MiniC
