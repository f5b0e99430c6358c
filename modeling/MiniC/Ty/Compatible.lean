/-
# MiniC.Ty.Compatible — when one type stands for another

Two equalities meet here. `void`, `bool` and integers are compatible only with their own instance,
so two integer types of one width that were made apart are not. Pointers and arrays are compatible
when their pointees or elements are, whatever the counts; functions are when they take equally
many parameters of pairwise compatible types, whatever their results.

`same` is equality of instances with all they hold.

* `same_iff` — `same` decides equality.
* `compatible_refl` — every type is compatible with itself.
* `shape_eq_of_compatible` — compatible types are of one kind.
-/
import MiniC.Ty

namespace MiniC.Ty

set_option autoImplicit false

mutual

/-- Whether both are the same instance. -/
def same : Ty → Ty → Bool
  | scalar tag kind, scalar otherTag otherKind => tag == otherTag && kind == otherKind
  | pointer tag pointee, pointer otherTag otherPointee =>
    tag == otherTag && same pointee otherPointee
  | array tag element count, array otherTag otherElement otherCount =>
    tag == otherTag && count == otherCount && same element otherElement
  | function tag result parameters, function otherTag otherResult otherParameters =>
    tag == otherTag && same result otherResult && sameAll parameters otherParameters
  | _, _ => false
termination_by structural ty => ty

/-- Whether both parameter lists are the same. -/
def sameAll : List (Parameter Ty) → List (Parameter Ty) → Bool
  | [], [] => true
  | ⟨name, ty, position⟩ :: rest, ⟨otherName, otherTy, otherPosition⟩ :: otherRest =>
    name == otherName && position == otherPosition && same ty otherTy && sameAll rest otherRest
  | _, _ => false
termination_by structural parameters => parameters

end

mutual

/-- Whether a value of the one type may stand where the other is expected. -/
def compatible : Ty → Ty → Bool
  | scalar tag kind, scalar otherTag otherKind => tag == otherTag && kind == otherKind
  | pointer _ pointee, pointer _ otherPointee => compatible pointee otherPointee
  | array _ element _, array _ otherElement _ => compatible element otherElement
  | function _ _ parameters, function _ _ otherParameters =>
    compatibleAll parameters otherParameters
  | _, _ => false
termination_by structural ty => ty

/-- Whether both parameter lists are of one length with pairwise compatible types. -/
def compatibleAll : List (Parameter Ty) → List (Parameter Ty) → Bool
  | [], [] => true
  | ⟨_, ty, _⟩ :: rest, ⟨_, otherTy, _⟩ :: otherRest =>
    compatible ty otherTy && compatibleAll rest otherRest
  | _, _ => false
termination_by structural parameters => parameters

end

/-! ## Equality of instances -/

theorem sameAll_iff_of {parameters : List (Parameter Ty)}
    (each : ∀ parameter ∈ parameters, ∀ ty, same parameter.ty ty = true ↔ parameter.ty = ty)
    (others : List (Parameter Ty)) : sameAll parameters others = true ↔ parameters = others := by
  induction parameters generalizing others with
  | nil => cases others <;> simp [sameAll]
  | cons parameter rest ih =>
    obtain ⟨name, ty, position⟩ := parameter
    cases others with
    | nil => simp [sameAll]
    | cons other otherRest =>
      obtain ⟨otherName, otherTy, otherPosition⟩ := other
      have here := each ⟨name, ty, position⟩ (by simp) otherTy
      have later := ih (fun parameter member => each parameter (by simp [member])) otherRest
      simp only at here
      simp only [sameAll, Bool.and_eq_true, beq_iff_eq, here, later, List.cons.injEq,
        Parameter.mk.injEq]
      constructor
      · rintro ⟨⟨⟨rfl, rfl⟩, rfl⟩, rfl⟩; simp
      · rintro ⟨⟨rfl, rfl, rfl⟩, rfl⟩; simp

theorem same_iff (one other : Ty) : same one other = true ↔ one = other := by
  induction one using induct generalizing other with
  | scalar tag kind => cases other <;> simp [same]
  | pointer tag pointee ih => cases other <;> simp [same, ih]
  | array tag element count ih =>
    cases other with
    | array otherTag otherElement otherCount =>
      simp only [same, Bool.and_eq_true, beq_iff_eq, ih, array.injEq]
      constructor
      · rintro ⟨⟨rfl, rfl⟩, rfl⟩; simp
      · rintro ⟨rfl, rfl, rfl⟩; simp
    | _ => simp [same]
  | function tag result parameters result_ih parameters_ih =>
    cases other with
    | function otherTag otherResult otherParameters =>
      simp only [same, Bool.and_eq_true, beq_iff_eq, result_ih,
        sameAll_iff_of parameters_ih, function.injEq, and_assoc]
    | _ => simp [same]

instance : DecidableEq Ty := fun one other =>
  decidable_of_iff (same one other = true) (same_iff one other)

/-! ## Compatibility -/

theorem compatibleAll_refl_of {parameters : List (Parameter Ty)}
    (each : ∀ parameter ∈ parameters, compatible parameter.ty parameter.ty = true) :
    compatibleAll parameters parameters = true := by
  induction parameters with
  | nil => rfl
  | cons parameter rest ih =>
    obtain ⟨name, ty, position⟩ := parameter
    have here := each ⟨name, ty, position⟩ (by simp)
    have later := ih fun parameter member => each parameter (by simp [member])
    simp only at here
    simp [compatibleAll, here, later]

@[simp] theorem compatible_refl (ty : Ty) : compatible ty ty = true := by
  induction ty using induct with
  | scalar tag kind => simp [compatible]
  | pointer tag pointee ih => simpa [compatible] using ih
  | array tag element count ih => simpa [compatible] using ih
  | function tag result parameters _ ih => simpa [compatible] using compatibleAll_refl_of ih

theorem shape_eq_of_compatible {one other : Ty} (fits : compatible one other = true) :
    one.shape = other.shape := by
  cases one <;> cases other <;> simp_all [compatible, shape]

end MiniC.Ty
