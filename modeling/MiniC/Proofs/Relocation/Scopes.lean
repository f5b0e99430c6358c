/-
# MiniC.Proofs.Relocation.Scopes — scopes and errors with their places moved

What a name is bound to moves with the scopes, and whether it is bound does not depend on places.
So looking a name up, binding one, and opening and closing levels commute with moving places. An
error keeps its message; two faults are reported at no place of the source, and stay where they are.
-/
import MiniC.Proofs.Relocation.Tree

namespace MiniC

set_option autoImplicit false

variable {move again : Position → Position}

/-! ## Errors -/

namespace Fault

/-- The fault with the places of all its types moved. -/
def relocate (move : Position → Position) : Fault → Fault
  | notFunctionType ty => notFunctionType (ty.relocate move)
  | returnsNothing expected => returnsNothing (expected.relocate move)
  | initializerMismatch value declared =>
    initializerMismatch (value.relocate move) (declared.relocate move)
  | returnMismatch value declared => returnMismatch (value.relocate move) (declared.relocate move)
  | argumentMismatch number argument parameter =>
    argumentMismatch number (argument.relocate move) (parameter.relocate move)
  | assignmentMismatch operator target value =>
    assignmentMismatch operator (target.relocate move) (value.relocate move)
  | conditionNotBool condition => conditionNotBool (condition.relocate move)
  | noBinaryOperator operator left right =>
    noBinaryOperator operator (left.relocate move) (right.relocate move)
  | noUnaryOperator operator operand => noUnaryOperator operator (operand.relocate move)
  | invalidCast operand target => invalidCast (operand.relocate move) (target.relocate move)
  | notCallable ty => notCallable (ty.relocate move)
  | fault => fault

@[simp] theorem message_relocate (fault : Fault) : (fault.relocate move).message = fault.message := by
  unfold message
  cases fault <;> simp only [relocate, Ty.describe_relocate]

theorem relocate_id (fault : Fault) : fault.relocate id = fault := by
  cases fault <;> simp only [relocate, Ty.relocate_id]

/-- Whether the fault is reported at no place of the source. -/
def isPlaceless : Fault → Bool
  | outsideTokens | exhausted => true
  | _ => false

end Fault

namespace CompileError

def relocate (move : Position → Position) (error : CompileError) : CompileError :=
  ⟨error.fault.relocate move,
    if error.fault.isPlaceless then error.position else move error.position⟩

@[simp] theorem message_relocate (error : CompileError) :
    (error.relocate move).message = error.message :=
  error.fault.message_relocate

theorem relocate_id (error : CompileError) : error.relocate id = error := by
  rw [relocate, error.fault.relocate_id, id, ite_self]

theorem position_relocate {error : CompileError} (placed : error.fault.isPlaceless = false) :
    (error.relocate move).position = move error.position := by
  simp [relocate, placed]

end CompileError

/-- An outcome with its places moved; `form` moves those of a value. -/
def relocateOutcome {α : Type} (move : Position → Position) (form : α → α) :
    Except CompileError α → Except CompileError α
  | .ok value => .ok (form value)
  | .error error => .error (error.relocate move)

/-! ## One namespace -/

namespace Namespace

variable {α β : Type}

/-- The bindings of the same names in the same levels, with each value in another form. -/
def mapValues (form : α → β) (levels : Namespace α) : Namespace β :=
  levels.map fun level => level.map fun (name, value) => (name, form value)

theorem lookup_map (form : α → β) (level : List (String × α)) (name : String) :
    (level.map fun (name, value) => (name, form value)).lookup name =
      (level.lookup name).map form := by
  induction level with
  | nil => rfl
  | cons binding rest ih =>
    obtain ⟨bound, value⟩ := binding
    by_cases same : (name == bound) = true
    · simp [List.lookup_cons, same]
    · simpa [List.lookup_cons, same] using ih

theorem find?_mapValues (form : α → β) (levels : Namespace α) (name : String) :
    (levels.mapValues form).find? name = (levels.find? name).map form := by
  simp [find?, mapValues, List.findSome?_map, Function.comp_def, lookup_map, List.map_findSome?]

theorem bind_mapValues (form : α → β) (levels : Namespace α) (name : String) (value : α) :
    (levels.mapValues form).bind name (form value) =
      (levels.bind name value).map (mapValues form) := by
  cases levels with
  | nil => rfl
  | cons level outer =>
    simp only [mapValues, List.map_cons, bind, lookup_map, Option.isSome_map]
    split <;> rfl

theorem mapValues_mapValues {γ : Type} (form : α → β) (further : β → γ) (levels : Namespace α) :
    (levels.mapValues form).mapValues further = levels.mapValues (further ∘ form) := by
  simp [mapValues, Function.comp_def]

theorem mapValues_eq_iff {form other : α → β} (levels : Namespace α) :
    levels.mapValues form = levels.mapValues other ↔
      ∀ level ∈ levels, ∀ binding ∈ level, form binding.2 = other binding.2 := by
  simp [mapValues, List.map_inj_left]

end Namespace

/-! ## Both namespaces -/

namespace Scopes

/-- The scopes with all their places moved. -/
def relocate (move : Position → Position) (scopes : Scopes) : Scopes :=
  ⟨scopes.types.mapValues (Ty.relocate move), scopes.values.mapValues (Declaration.relocate move)⟩

/-- The places that what is in scope holds. -/
def places (scopes : Scopes) : List Position :=
  (scopes.types.flatten.flatMap fun binding => binding.2.places) ++
    scopes.values.flatten.flatMap fun binding => binding.2.places

theorem relocate_relocate (scopes : Scopes) :
    (scopes.relocate move).relocate again = scopes.relocate (again ∘ move) := by
  simp [relocate, Namespace.mapValues_mapValues, Function.comp_def, Ty.relocate_relocate,
    Declaration.relocate_relocate]

theorem relocate_id (scopes : Scopes) : scopes.relocate id = scopes := by
  simp [relocate, Namespace.mapValues, Ty.relocate_id, Declaration.relocate_id]

/-- Two moves have one outcome exactly if they agree on the places of the scopes. -/
theorem relocate_eq_iff (scopes : Scopes) :
    scopes.relocate move = scopes.relocate again ↔
      ∀ place ∈ scopes.places, move place = again place := by
  simp only [relocate, Scopes.mk.injEq, Namespace.mapValues_eq_iff, Ty.relocate_eq_iff,
    Declaration.relocate_eq_iff, places, List.mem_append, List.mem_flatMap, List.mem_flatten]
  constructor
  · rintro ⟨types, values⟩ place (⟨binding, ⟨level, open', bound⟩, within⟩ |
      ⟨binding, ⟨level, open', bound⟩, within⟩)
    · exact types level open' binding bound place within
    · exact values level open' binding bound place within
  · intro same
    exact ⟨fun level open' binding bound place within =>
        same place (.inl ⟨binding, ⟨level, open', bound⟩, within⟩),
      fun level open' binding bound place within =>
        same place (.inr ⟨binding, ⟨level, open', bound⟩, within⟩)⟩

@[simp] theorem depth_relocate (scopes : Scopes) : (scopes.relocate move).depth = scopes.depth := by
  simp [relocate, depth, Namespace.mapValues]

theorem relocate_push (scopes : Scopes) :
    scopes.push.relocate move = (scopes.relocate move).push := rfl

theorem relocate_pop (scopes : Scopes) :
    scopes.pop.relocate move = (scopes.relocate move).pop := by
  simp only [pop, depth_relocate]
  split
  · simp [relocate, Namespace.mapValues, List.map_tail]
  · rfl

theorem findType?_relocate (scopes : Scopes) (name : String) :
    (scopes.relocate move).findType? name = (scopes.findType? name).map (Ty.relocate move) :=
  Namespace.find?_mapValues _ _ _

theorem findValue?_relocate (scopes : Scopes) (name : String) :
    (scopes.relocate move).findValue? name =
      (scopes.findValue? name).map (Declaration.relocate move) :=
  Namespace.find?_mapValues _ _ _

theorem declare_relocate (scopes : Scopes) (declaration : Declaration) :
    (scopes.relocate move).declare (declaration.relocate move) =
      relocateOutcome move (relocate move) (scopes.declare declaration) := by
  have bound := Namespace.bind_mapValues (Declaration.relocate move) scopes.values declaration.name
    declaration
  simp only [declare, relocate, Declaration.relocate] at bound ⊢
  rw [bound]
  rcases scopes.values.bind declaration.name declaration with (_ | _) | values <;> rfl

theorem define_relocate (scopes : Scopes) (name : String) (ty : Ty) (position : Position) :
    (scopes.relocate move).define name (ty.relocate move) (move position) =
      relocateOutcome move (relocate move) (scopes.define name ty position) := by
  simp only [define, relocate, Namespace.bind_mapValues]
  rcases scopes.types.bind name ty with (_ | _) | types <;> rfl

end Scopes

end MiniC
