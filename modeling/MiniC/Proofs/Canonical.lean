/-
# MiniC.Proofs.Canonical — compatibility is equality of canonical forms

The canonical form of a type keeps what compatibility compares: the instance of a `void`, `bool` or
integer, the pointee of a pointer, the element of an array and the parameters of a function. What it
forgets is the count of an array, the result of a function, the names and places of parameters, and
which instance a pointer, array or function is.

* `compatible_iff` — types are compatible exactly if they have the same canonical form.
* `compatible_comm` — so it does not matter which of two types is asked about the other.
* `compatible_classes` — and compatibility is an equivalence between sameness and sameness of kind.
-/
import MiniC.Operator.Typing

namespace MiniC

set_option autoImplicit false

/-- What compatibility compares of a type. -/
inductive Canonical where
  /-- An instance of a type without components. -/
  | scalar (tag : Tag) (kind : Scalar)
  | pointer (pointee : Canonical)
  | array (element : Canonical)
  | function (parameters : List Canonical)

namespace Ty

mutual

def canonical : Ty → Canonical
  | scalar tag kind => .scalar tag kind
  | pointer _ pointee => .pointer pointee.canonical
  | array _ element _ => .array element.canonical
  | function _ _ parameters => .function (canonicalAll parameters)

/-- The canonical forms of the types in a parameter list. -/
def canonicalAll : List (Parameter Ty) → List Canonical
  | [] => []
  | parameter :: rest => parameter.ty.canonical :: canonicalAll rest

end

theorem canonicalAll_eq_map (parameters : List (Parameter Ty)) :
    canonicalAll parameters = parameters.map fun parameter => parameter.ty.canonical := by
  induction parameters with
  | nil => rfl
  | cons parameter rest ih => rw [canonicalAll, ih, List.map_cons]

theorem compatibleAll_iff_of {parameters : List (Parameter Ty)}
    (each : ∀ parameter ∈ parameters, ∀ ty,
      compatible parameter.ty ty = true ↔ parameter.ty.canonical = ty.canonical)
    (others : List (Parameter Ty)) :
    compatibleAll parameters others = true ↔ canonicalAll parameters = canonicalAll others := by
  induction parameters generalizing others with
  | nil => cases others <;> simp [compatibleAll, canonicalAll]
  | cons parameter rest ih =>
    cases others with
    | nil => simp [compatibleAll, canonicalAll]
    | cons other otherRest =>
      have here := each parameter List.mem_cons_self other.ty
      have later := ih (fun parameter member => each parameter (List.mem_cons_of_mem _ member))
        otherRest
      simp only [compatibleAll, canonicalAll, Bool.and_eq_true, here, later, List.cons.injEq]

/-- Types are compatible exactly if they have the same canonical form. -/
theorem compatible_iff (one other : Ty) :
    one.compatible other = true ↔ one.canonical = other.canonical := by
  induction one using induct generalizing other with
  | scalar tag kind => cases other <;> simp [compatible, canonical]
  | pointer tag pointee ih => cases other <;> simp [compatible, canonical, ih]
  | array tag element count ih => cases other <;> simp [compatible, canonical, ih]
  | function tag result parameters _ ih =>
    cases other with
    | function otherTag otherResult otherParameters =>
      simp [compatible, canonical, compatibleAll_iff_of ih otherParameters]
    | _ => simp [compatible, canonical]

/-! ## Equivalence -/

theorem compatible_comm (one other : Ty) : one.compatible other = other.compatible one := by
  rw [Bool.eq_iff_iff, compatible_iff, compatible_iff]
  exact eq_comm

theorem equivalence_compatible : Equivalence fun one other : Ty => one.compatible other = true where
  refl := compatible_refl
  symm := by
    intro one other fits
    rwa [compatible_comm]
  trans := by
    intro one between other first second
    rw [compatible_iff] at first second ⊢
    exact first.trans second

end Ty

/-! ## Operands and their order -/

/-- Whether an operator applies does not depend on which operand is the left one. -/
theorem BinaryOperator.isSome_result?_comm (operator : BinaryOperator) (left right : Ty) :
    (operator.result? left right).isSome = (operator.result? right left).isSome := by
  simp only [result?, Ty.compatible_comm right left, Bool.and_comm right.isInteger]
  by_cases arithmetic : operator.isArithmetic = true
  · simp only [if_pos arithmetic]
    split <;> rfl
  · simp only [if_neg arithmetic]

/-- Whether a value may be assigned to a target does not depend on which of them is the target. -/
theorem AssignmentOperator.accepts_comm (operator : AssignmentOperator) (target value : Ty) :
    operator.accepts target value = operator.accepts value target := by
  unfold accepts
  split
  · exact BinaryOperator.isSome_result?_comm _ _ _
  · exact Ty.compatible_comm _ _

/-- Compatibility is equality of canonical forms. So it is an equivalence, which holds of an
instance and itself and only of types of one kind, and no check depends on the order in which the
two types are compared. -/
theorem compatible_classes :
    (∀ one other : Ty, one.compatible other = true ↔ one.canonical = other.canonical) ∧
    (Equivalence fun one other : Ty => one.compatible other = true) ∧
    (∀ one other : Ty, one.same other = true → one.compatible other = true) ∧
    (∀ one other : Ty, one.compatible other = true → one.sameShape other = true) ∧
    (∀ one other : Ty, one.compatible other = other.compatible one) ∧
    (∀ (operator : BinaryOperator) (left right : Ty),
      (operator.result? left right).isSome = (operator.result? right left).isSome) ∧
    ∀ (operator : AssignmentOperator) (target value : Ty),
      operator.accepts target value = operator.accepts value target := by
  refine ⟨Ty.compatible_iff, Ty.equivalence_compatible, fun one other same => ?_,
    fun one other fits => ?_, Ty.compatible_comm, BinaryOperator.isSome_result?_comm,
    AssignmentOperator.accepts_comm⟩
  · obtain rfl := (Ty.same_iff one other).mp same
    exact Ty.compatible_refl one
  · exact beq_iff_eq.mpr (Ty.shape_eq_of_compatible fits)

/-- Functions of other results and counts are of one form; a copy of an integer is of another. -/
theorem compatible_classes_functions :
    let copy := ((Ty.builtin (.integer 32 true)).duplicate.run 0).1
    let parameter := fun ty count => (⟨none, .array copy.tag ty count, .start⟩ : Parameter Ty)
    let taking := fun ty count result => Ty.function copy.tag result [parameter ty count]
    (taking copy 3 copy).canonical = (taking copy 4 .bool).canonical ∧
      (taking copy 3 copy).compatible (taking copy 4 .bool) = true ∧
      (taking copy 3 copy).compatible (taking (.builtin (.integer 32 true)) 3 copy) = false := by
  intro copy parameter taking
  have same : (taking copy 3 copy).canonical = (taking copy 4 .bool).canonical := rfl
  exact ⟨same, (compatible_classes.1 _ _).mpr same, by decide⟩

end MiniC
