/-
# MiniC.Scopes — nested levels of type names and values

Names live in two namespaces, one for types and one for values. Each is a stack of levels that
open and close together, innermost first. A look-up takes the innermost level that binds the name;
a level binds a name once. The outermost level holds the built-in types and stays open.

* `Namespace.find?`, `Namespace.bind` — look-up and binding in one namespace.
* `depth_push`, `depth_pop`, `depth_declare`, `depth_define` — what the operations do to the
  number of levels.
* `pop_push` — closing a level takes back its opening.
-/
import MiniC.Fault
import MiniC.Tree

namespace MiniC

set_option autoImplicit false

/-! ## One namespace -/

/-- Levels of bindings, innermost first; in a level the newest binding first. -/
abbrev Namespace (α : Type) := List (List (String × α))

/-- Why a name cannot be bound. -/
inductive BindFault where
  | noLevel
  | taken
  deriving DecidableEq, Repr

namespace Namespace

variable {α : Type}

/-- What the innermost level that binds `name` binds it to. -/
def find? (levels : Namespace α) (name : String) : Option α :=
  levels.findSome? fun level => level.lookup name

/-- Binds `name` in the innermost level, which must not bind it yet. -/
def bind (levels : Namespace α) (name : String) (value : α) : Except BindFault (Namespace α) :=
  match levels with
  | [] => .error .noLevel
  | level :: outer =>
    if (level.lookup name).isSome then .error .taken
    else .ok (((name, value) :: level) :: outer)

theorem length_bind {levels after : Namespace α} {name : String} {value : α}
    (bound : levels.bind name value = .ok after) : after.length = levels.length := by
  unfold bind at bound
  split at bound
  · simp at bound
  · split at bound
    · simp at bound
    · simp [← Except.ok.inj bound]

theorem find?_bind {levels after : Namespace α} {name : String} {value : α}
    (bound : levels.bind name value = .ok after) (sought : String) :
    after.find? sought = if sought = name then some value else levels.find? sought := by
  unfold bind at bound
  split at bound
  · simp at bound
  · split at bound
    · simp at bound
    · rw [← Except.ok.inj bound]
      by_cases same : sought = name
      · simp [find?, same]
      · have other : (sought == name) = false := by simpa using same
        simp [find?, same, List.findSome?_cons, List.lookup_cons, other]

end Namespace

/-! ## Both namespaces -/

/-- The open levels of both namespaces. -/
structure Scopes where
  types : Namespace Ty
  values : Namespace Declaration

namespace Scopes

/-- One open level, which knows the given types; of two with one name the later counts. -/
def root (types : List (String × Ty)) : Scopes :=
  ⟨[types.reverse], [[]]⟩

/-- The number of open levels. -/
def depth (scopes : Scopes) : Nat :=
  scopes.values.length

/-- Opens a level. -/
def push (scopes : Scopes) : Scopes :=
  ⟨[] :: scopes.types, [] :: scopes.values⟩

/-- Closes the innermost level, unless it is the outermost. -/
def pop (scopes : Scopes) : Scopes :=
  if 1 < scopes.depth then ⟨scopes.types.tail, scopes.values.tail⟩ else scopes

def findType? (scopes : Scopes) (name : String) : Option Ty :=
  scopes.types.find? name

def findValue? (scopes : Scopes) (name : String) : Option Declaration :=
  scopes.values.find? name

/-- Makes the declaration known in the innermost level. -/
def declare (scopes : Scopes) (declaration : Declaration) : Except CompileError Scopes :=
  match scopes.values.bind declaration.name declaration with
  | .ok values => .ok { scopes with values }
  | .error .noLevel => .error ⟨.noOpenScope, declaration.position⟩
  | .error .taken => .error ⟨.alreadyDeclared declaration.name, declaration.position⟩

/-- Makes the type name known in the innermost level. -/
def define (scopes : Scopes) (name : String) (ty : Ty) (position : Position) :
    Except CompileError Scopes :=
  match scopes.types.bind name ty with
  | .ok types => .ok { scopes with types }
  | .error .noLevel => .error ⟨.noOpenScope, position⟩
  | .error .taken => .error ⟨.alreadyDefined name, position⟩

/-! ## Levels -/

@[simp] theorem depth_root (types : List (String × Ty)) : (root types).depth = 1 := rfl

@[simp] theorem depth_push (scopes : Scopes) : scopes.push.depth = scopes.depth + 1 := rfl

theorem depth_pop (scopes : Scopes) :
    scopes.pop.depth = if 1 < scopes.depth then scopes.depth - 1 else scopes.depth := by
  unfold pop
  split <;> simp [depth]

theorem depth_declare {scopes after : Scopes} {declaration : Declaration}
    (declared : scopes.declare declaration = .ok after) : after.depth = scopes.depth := by
  unfold declare at declared
  split at declared <;> simp only [Except.ok.injEq, reduceCtorEq] at declared
  subst declared
  exact Namespace.length_bind (by assumption)

theorem depth_define {scopes after : Scopes} {name : String} {ty : Ty} {position : Position}
    (defined : scopes.define name ty position = .ok after) : after.depth = scopes.depth := by
  unfold define at defined
  split at defined <;> simp only [Except.ok.injEq, reduceCtorEq] at defined
  subst defined
  rfl

/-- Closing a level takes back its opening. -/
@[simp] theorem pop_push {scopes : Scopes} (opened : 0 < scopes.depth) :
    scopes.push.pop = scopes := by
  have more : 1 < scopes.push.depth := by simpa using opened
  unfold pop
  rw [if_pos more]
  rfl

end Scopes

end MiniC
