/-
# MiniC.Proofs.Relocation.Ty — types with their places moved

Types hold places in two ways: a parameter has one, and the tag of an instance tells where the
instance was made. `Ty.relocate` moves all of them. What the parser asks of a type does not depend
on them: its shape, its size and its text stay, its components move along, and where no two places
are moved to one, the same types are compatible.

`Ty.places` lists the places of a type; two moves have one outcome exactly if they agree on these.
-/
import MiniC.Operator.Typing

namespace MiniC

set_option autoImplicit false

variable {move again : Position → Position}

/-! ## Tags -/

def Origin.relocate (move : Position → Position) : Origin → Origin
  | builtin => builtin
  | site place => site (move place)
  | call number => call number

def Origin.places : Origin → List Position
  | builtin | call _ => []
  | site place => [place]

def Tag.relocate (move : Position → Position) (tag : Tag) : Tag :=
  ⟨tag.origin.relocate move, tag.label⟩

def Tag.places (tag : Tag) : List Position :=
  tag.origin.places

namespace Tag

@[simp] theorem label_relocate (tag : Tag) : (tag.relocate move).label = tag.label := rfl

theorem relocate_relocate (tag : Tag) :
    (tag.relocate move).relocate again = tag.relocate (again ∘ move) := by
  obtain ⟨_ | place | number, label⟩ := tag <;> rfl

theorem relocate_id (tag : Tag) : tag.relocate id = tag := by
  obtain ⟨_ | place | number, label⟩ := tag <;> rfl

theorem relocate_eq_iff (tag : Tag) :
    tag.relocate move = tag.relocate again ↔ ∀ place ∈ tag.places, move place = again place := by
  obtain ⟨_ | place | number, label⟩ := tag <;>
    simp [relocate, Origin.relocate, places, Origin.places]

theorem relocate_inj (apart : Function.Injective move) {one other : Tag} :
    one.relocate move = other.relocate move ↔ one = other := by
  obtain ⟨_ | place | number, label⟩ := one <;>
    obtain ⟨_ | otherPlace | otherNumber, otherLabel⟩ := other <;>
    simp [relocate, Origin.relocate, apart.eq_iff]

end Tag

/-! ## Types -/

namespace Ty

mutual

/-- The type with all its places moved. -/
def relocate (move : Position → Position) : Ty → Ty
  | scalar tag kind => scalar (tag.relocate move) kind
  | pointer tag pointee => pointer (tag.relocate move) (pointee.relocate move)
  | array tag element count => array (tag.relocate move) (element.relocate move) count
  | function tag result parameters =>
    function (tag.relocate move) (result.relocate move) (relocateAll move parameters)
termination_by structural ty => ty

def relocateAll (move : Position → Position) : List (Parameter Ty) → List (Parameter Ty)
  | [] => []
  | ⟨name, ty, position⟩ :: rest => ⟨name, ty.relocate move, move position⟩ :: relocateAll move rest
termination_by structural parameters => parameters

end

mutual

/-- The places that a type holds: where it and its components were made, and where its parameters
stand. -/
def places : Ty → List Position
  | scalar tag _ => tag.places
  | pointer tag pointee => tag.places ++ pointee.places
  | array tag element _ => tag.places ++ element.places
  | function tag result parameters => tag.places ++ (result.places ++ placesAll parameters)
termination_by structural ty => ty

def placesAll : List (Parameter Ty) → List Position
  | [] => []
  | ⟨_, ty, position⟩ :: rest => ty.places ++ position :: placesAll rest
termination_by structural parameters => parameters

end

end Ty

def Parameter.relocate (move : Position → Position) (parameter : Parameter Ty) : Parameter Ty :=
  ⟨parameter.name, parameter.ty.relocate move, move parameter.position⟩

def Parameter.places (parameter : Parameter Ty) : List Position :=
  parameter.ty.places ++ [parameter.position]

namespace Ty

theorem relocateAll_eq_map (parameters : List (Parameter Ty)) :
    relocateAll move parameters = parameters.map (Parameter.relocate move) := by
  induction parameters with
  | nil => rfl
  | cons parameter rest ih => rw [relocateAll, ih]; rfl

theorem placesAll_eq_flatMap (parameters : List (Parameter Ty)) :
    placesAll parameters = parameters.flatMap Parameter.places := by
  induction parameters with
  | nil => rfl
  | cons parameter rest ih =>
    rw [placesAll, ih, List.flatMap_cons, Parameter.places, List.append_assoc]
    rfl

@[simp] theorem relocate_function (tag : Tag) (result : Ty) (parameters : List (Parameter Ty)) :
    (function tag result parameters).relocate move =
      function (tag.relocate move) (result.relocate move)
        (parameters.map (Parameter.relocate move)) := by
  rw [relocate, relocateAll_eq_map]

/-! ## Moving twice, and not at all -/

theorem relocate_relocate (ty : Ty) :
    (ty.relocate move).relocate again = ty.relocate (again ∘ move) := by
  induction ty using induct with
  | scalar tag kind => simp [relocate, tag.relocate_relocate]
  | pointer tag pointee ih => simp [relocate, tag.relocate_relocate, ih]
  | array tag element count ih => simp [relocate, tag.relocate_relocate, ih]
  | function tag result parameters result_ih parameters_ih =>
    simp only [relocate_function, tag.relocate_relocate, result_ih, List.map_map,
      function.injEq, List.map_inj_left, true_and]
    intro parameter member
    simp [Parameter.relocate, parameters_ih parameter member]

theorem relocate_id (ty : Ty) : ty.relocate id = ty := by
  induction ty using induct with
  | scalar tag kind => simp [relocate, tag.relocate_id]
  | pointer tag pointee ih => simp [relocate, tag.relocate_id, ih]
  | array tag element count ih => simp [relocate, tag.relocate_id, ih]
  | function tag result parameters result_ih parameters_ih =>
    have same : parameters.map (Parameter.relocate id) = parameters.map id := by
      refine List.map_congr_left fun parameter member => ?_
      simp [Parameter.relocate, parameters_ih parameter member]
    rw [relocate_function, tag.relocate_id, result_ih, same, List.map_id]

/-- Two moves have one outcome exactly if they agree on the places of the type. -/
theorem relocate_eq_iff (ty : Ty) :
    ty.relocate move = ty.relocate again ↔ ∀ place ∈ ty.places, move place = again place := by
  induction ty using induct with
  | scalar tag kind => simp [relocate, places, tag.relocate_eq_iff]
  | pointer tag pointee ih =>
    simp [relocate, places, tag.relocate_eq_iff, ih, or_imp, forall_and]
  | array tag element count ih =>
    simp [relocate, places, tag.relocate_eq_iff, ih, or_imp, forall_and]
  | function tag result parameters result_ih parameters_ih =>
    have each : (∀ parameter ∈ parameters, parameter.relocate move = parameter.relocate again) ↔
        ∀ place ∈ parameters.flatMap Parameter.places, move place = again place := by
      simp only [List.mem_flatMap, Parameter.places, List.mem_append, List.mem_singleton]
      constructor
      · rintro same place ⟨parameter, member, within | rfl⟩
        · exact (parameters_ih parameter member).mp
            (congrArg Parameter.ty (same parameter member)) place within
        · exact congrArg Parameter.position (same parameter member)
      · intro same parameter member
        simp only [Parameter.relocate, Parameter.mk.injEq, true_and]
        exact ⟨(parameters_ih parameter member).mpr fun place within =>
          same place ⟨parameter, member, .inl within⟩, same _ ⟨parameter, member, .inr rfl⟩⟩
    simp [places, placesAll_eq_flatMap, tag.relocate_eq_iff, result_ih, each, or_imp, forall_and]

/-! ## What stays -/

@[simp] theorem shape_relocate (ty : Ty) : (ty.relocate move).shape = ty.shape := by
  cases ty <;> simp [relocate, shape]

@[simp] theorem isVoid_relocate (ty : Ty) : (ty.relocate move).isVoid = ty.isVoid := by
  simp [isVoid]

@[simp] theorem isBool_relocate (ty : Ty) : (ty.relocate move).isBool = ty.isBool := by
  simp [isBool]

@[simp] theorem isInteger_relocate (ty : Ty) : (ty.relocate move).isInteger = ty.isInteger := by
  simp [isInteger]

@[simp] theorem isFunction_relocate (ty : Ty) : (ty.relocate move).isFunction = ty.isFunction := by
  simp [isFunction]

@[simp] theorem sameShape_relocate (one other : Ty) :
    (one.relocate move).sameShape (other.relocate move) = one.sameShape other := by
  simp [sameShape]

@[simp] theorem size_relocate (ty : Ty) : (ty.relocate move).size = ty.size := by
  induction ty using induct with
  | scalar tag kind => cases kind <;> rfl
  | pointer tag pointee ih => rfl
  | array tag element count ih => simp [relocate, size, ih]
  | function tag result parameters result_ih parameters_ih => rfl

theorem describeAll_relocate_of {parameters : List (Parameter Ty)}
    (each : ∀ parameter ∈ parameters,
      (parameter.ty.relocate move).describe = parameter.ty.describe) :
    describeAll (parameters.map (Parameter.relocate move)) = describeAll parameters := by
  induction parameters with
  | nil => rfl
  | cons parameter rest ih =>
    rw [List.map_cons, describeAll, describeAll,
      ih fun parameter member => each parameter (List.mem_cons_of_mem _ member)]
    exact congrArg (· :: _) (each parameter List.mem_cons_self)

@[simp] theorem describe_relocate (ty : Ty) : (ty.relocate move).describe = ty.describe := by
  induction ty using induct with
  | scalar tag kind => simp [relocate, describe]
  | pointer tag pointee ih => simp [relocate, describe, ih]
  | array tag element count ih => simp [relocate, describe, ih]
  | function tag result parameters result_ih parameters_ih =>
    simp [describe, result_ih, describeAll_relocate_of parameters_ih]

/-! ## What moves along -/

theorem relocate_retag (tag : Tag) (ty : Ty) :
    (ty.retag tag).relocate move = (ty.relocate move).retag (tag.relocate move) := by
  cases ty <;> simp [relocate, relocateAll_eq_map, retag]

theorem relocate_distinctAt (place : Position) (name : String) (ty : Ty) :
    (ty.distinctAt (.site place) name).relocate move =
      (ty.relocate move).distinctAt (.site (move place)) name :=
  relocate_retag _ ty

@[simp] theorem pointee?_relocate (ty : Ty) :
    (ty.relocate move).pointee? = ty.pointee?.map (relocate move) := by
  cases ty <;> simp [relocate, pointee?]

@[simp] theorem signature?_relocate (ty : Ty) :
    (ty.relocate move).signature? = ty.signature?.map fun (result, parameters) =>
      (result.relocate move, parameters.map (Parameter.relocate move)) := by
  cases ty <;> simp [relocate, relocateAll_eq_map, signature?]

/-! ## Compatibility -/

theorem compatibleAll_relocate_of {parameters : List (Parameter Ty)}
    (each : ∀ parameter ∈ parameters, ∀ other : Ty,
      (parameter.ty.relocate move).compatible (other.relocate move) =
        parameter.ty.compatible other) (others : List (Parameter Ty)) :
    compatibleAll (parameters.map (Parameter.relocate move))
      (others.map (Parameter.relocate move)) = compatibleAll parameters others := by
  induction parameters generalizing others with
  | nil => cases others <;> rfl
  | cons parameter rest ih =>
    cases others with
    | nil => rfl
    | cons other others =>
      have later := ih (fun parameter member => each parameter (List.mem_cons_of_mem _ member))
        others
      have here := each parameter List.mem_cons_self other.ty
      simp only [List.map_cons, Parameter.relocate, compatibleAll, here]
      exact congrArg _ later

/-- Where no two places are moved to one, the same types are compatible. -/
theorem compatible_relocate (apart : Function.Injective move) (one other : Ty) :
    (one.relocate move).compatible (other.relocate move) = one.compatible other := by
  induction one using induct generalizing other with
  | scalar tag kind =>
    cases other with
    | scalar otherTag otherKind =>
      have same : (tag.relocate move == otherTag.relocate move) = (tag == otherTag) := by
        rw [Bool.eq_iff_iff, beq_iff_eq, beq_iff_eq, Tag.relocate_inj apart]
      simp [relocate, compatible, same]
    | _ => simp [relocate, compatible]
  | pointer tag pointee ih => cases other <;> simp [relocate, compatible, ih]
  | array tag element count ih => cases other <;> simp [relocate, compatible, ih]
  | function tag result parameters result_ih parameters_ih =>
    cases other with
    | function otherTag otherResult otherParameters =>
      simp only [relocate_function, compatible]
      exact compatibleAll_relocate_of parameters_ih _
    | _ => simp [relocate, compatible]

end Ty

/-! ## Operators -/

theorem UnaryOperator.result?_relocate (operator : UnaryOperator) (site : Position) (operand : Ty) :
    operator.result? (move site) (operand.relocate move) =
      (operator.result? site operand).map (Ty.relocate move) := by
  cases operator with
  | plus => by_cases integer : operand.isInteger <;> simp [result?, integer]
  | minus => by_cases integer : operand.isInteger <;> simp [result?, integer]
  | addressOf => rfl
  | dereference => exact operand.pointee?_relocate

theorem BinaryOperator.result?_relocate (apart : Function.Injective move)
    (operator : BinaryOperator) (left right : Ty) :
    operator.result? (left.relocate move) (right.relocate move) =
      (operator.result? left right).map (Ty.relocate move) := by
  simp only [result?, Ty.isInteger_relocate, Ty.compatible_relocate apart]
  split
  · split <;> rfl
  · split
    · split <;> rfl
    · split <;> rfl

theorem AssignmentOperator.accepts_relocate (apart : Function.Injective move)
    (operator : AssignmentOperator) (target value : Ty) :
    operator.accepts (target.relocate move) (value.relocate move) =
      operator.accepts target value := by
  unfold accepts
  split
  · rw [BinaryOperator.result?_relocate apart, Option.isSome_map]
  · exact Ty.compatible_relocate apart _ _

end MiniC
