/-
# MiniC.Ty — types and their instances

A type is `void`, `bool`, an integer of some width and sign, a pointer, an array or a function.
Types are made one by one: every construction yields an instance of its own, which two types share
only if one is the other. An instance is told by its tag, which records where it was made and its
name, if it is a `distinct` one. Built-in types are made nowhere; each of them is one instance. What
a source makes is told by its place there, and what calls make by their number: `Making` counts the
instances that calls have made, and every call draws the next one.

* `size` — the size in bytes, in words of sixty-four bits that stop at the largest word.
* `describe` — a type as diagnostics show it; a `distinct` type shows its name alone.
* `retag` — another instance of the same structure over the same components. `shape_retag` and
  `size_retag` say that it keeps shape and size.
* `makeScalar`, `makePointer`, `makeArray`, `makeFunction`, `duplicate`, `distinct` — the calls that
  make types, each of them `make` of one form.
* `induct` — induction over types, with the parameters of a function as the members of a list.
-/
import MiniC.Position

namespace MiniC

set_option autoImplicit false

/-- Where an instance of a type was made. -/
inductive Origin where
  | builtin
  | site (position : Position)
  /-- The call of this number made it. -/
  | call (number : Nat)
  deriving DecidableEq, Repr

/-- What tells one instance of a type from another. -/
structure Tag where
  origin : Origin
  /-- The name of a `distinct` instance. -/
  label : Option String
  deriving DecidableEq, Repr

/-- The types without components. -/
inductive Scalar where
  | void
  | bool
  | integer (bits : UInt32) (signed : Bool)
  deriving DecidableEq, Repr

/-- One entry of a parameter list. A name is optional in a bare function type; without one the
place is that of the declarator's first token. -/
structure Parameter (τ : Type) where
  name : Option String
  ty : τ
  position : Position
  deriving Repr

/-- The types. -/
inductive Ty where
  | scalar (tag : Tag) (kind : Scalar)
  | pointer (tag : Tag) (pointee : Ty)
  | array (tag : Tag) (element : Ty) (count : UInt64)
  | function (tag : Tag) (result : Ty) (parameters : List (Parameter Ty))
  deriving Repr

/-- The kinds of types, components and widths aside. -/
inductive Shape where
  | void
  | bool
  | integer
  | pointer
  | array
  | function
  deriving DecidableEq, Repr

def Scalar.shape : Scalar → Shape
  | void => .void
  | bool => .bool
  | integer .. => .integer

/-- A word for a number of any size: the largest word stands for what does not fit. -/
def clampWord (n : Nat) : UInt64 :=
  if n < UInt64.size then UInt64.ofNat n else UInt64.ofNat (UInt64.size - 1)

theorem toNat_clampWord (n : Nat) : (clampWord n).toNat = min n (UInt64.size - 1) := by
  have size : UInt64.size = 2 ^ 64 := rfl
  unfold clampWord
  split <;> simp only [UInt64.toNat_ofNat'] <;> omega

namespace Ty

/-! ## Induction -/

mutual

theorem induct {motive : Ty → Prop} (scalar : ∀ tag kind, motive (.scalar tag kind))
    (pointer : ∀ tag pointee, motive pointee → motive (.pointer tag pointee))
    (array : ∀ tag element count, motive element → motive (.array tag element count))
    (function : ∀ tag result parameters, motive result →
      (∀ parameter ∈ parameters, motive parameter.ty) →
      motive (.function tag result parameters)) :
    ∀ ty, motive ty
  | .scalar tag kind => scalar tag kind
  | .pointer tag pointee => pointer tag pointee (induct scalar pointer array function pointee)
  | .array tag element count =>
    array tag element count (induct scalar pointer array function element)
  | .function tag result parameters =>
    function tag result parameters (induct scalar pointer array function result)
      (inductAll scalar pointer array function parameters)

theorem inductAll {motive : Ty → Prop} (scalar : ∀ tag kind, motive (.scalar tag kind))
    (pointer : ∀ tag pointee, motive pointee → motive (.pointer tag pointee))
    (array : ∀ tag element count, motive element → motive (.array tag element count))
    (function : ∀ tag result parameters, motive result →
      (∀ parameter ∈ parameters, motive parameter.ty) →
      motive (.function tag result parameters)) :
    ∀ parameters : List (Parameter Ty), ∀ parameter ∈ parameters, motive parameter.ty
  | [], _, member => nomatch member
  | ⟨_, ty, _⟩ :: rest, parameter, member => by
    rcases List.mem_cons.mp member with rfl | later
    · exact induct scalar pointer array function ty
    · exact inductAll scalar pointer array function rest parameter later

end

/-! ## Instances -/

def tag : Ty → Tag
  | scalar tag _ => tag
  | pointer tag _ => tag
  | array tag .. => tag
  | function tag .. => tag

/-- The name of a `distinct` type. -/
def label (ty : Ty) : Option String :=
  ty.tag.label

/-- Another instance of the same structure over the same components. -/
def retag (tag : Tag) : Ty → Ty
  | scalar _ kind => scalar tag kind
  | pointer _ pointee => pointer tag pointee
  | array _ element count => array tag element count
  | function _ result parameters => function tag result parameters

/-- The instance that a `distinct` definition names, which is told by where it is made. -/
def distinctAt (origin : Origin) (name : String) (ty : Ty) : Ty :=
  ty.retag ⟨origin, some name⟩

@[simp] theorem tag_retag (tag : Tag) (ty : Ty) : (ty.retag tag).tag = tag := by
  cases ty <;> rfl

end Ty

/-! ## Calls that make types -/

/-- Making types counts the instances that calls have made so far. -/
abbrev Making (α : Type) : Type :=
  StateM Nat α

/-- An origin that no instance has yet. -/
def Origin.fresh : Making Origin :=
  modifyGet fun made => (.call made, made + 1)

namespace Ty

/-- A type of the given form, an instance of its own. -/
def make (label : Option String) (form : Tag → Ty) : Making Ty := do
  return form ⟨← Origin.fresh, label⟩

def makeScalar (kind : Scalar) : Making Ty :=
  make none fun tag => scalar tag kind

def makePointer (pointee : Ty) : Making Ty :=
  make none fun tag => pointer tag pointee

def makeArray (element : Ty) (count : UInt64) : Making Ty :=
  make none fun tag => array tag element count

def makeFunction (result : Ty) (parameters : List (Parameter Ty)) : Making Ty :=
  make none fun tag => function tag result parameters

/-- A new unnamed instance of the same structure over the same components. -/
def duplicate (ty : Ty) : Making Ty :=
  make none fun tag => ty.retag tag

/-- A new instance of the same structure over the same components, with a name. -/
def distinct (name : String) (ty : Ty) : Making Ty :=
  make (some name) fun tag => ty.retag tag

/-- A call makes one instance, which has the number of those before it. -/
theorem of_run_make {label : Option String} {form : Tag → Ty} {made after : Nat} {ty : Ty}
    (run : (make label form).run made = (ty, after)) :
    ty = form ⟨.call made, label⟩ ∧ after = made + 1 := by
  obtain ⟨rfl, rfl⟩ := Prod.mk.inj run
  exact ⟨rfl, rfl⟩

/-! ## Built-in types -/

/-- The one instance of a built-in type. -/
def builtin (kind : Scalar) : Ty :=
  .scalar ⟨.builtin, none⟩ kind

/-- The type of comparisons. -/
def bool : Ty := builtin .bool

/-- The names that every file knows. -/
def builtins : List (String × Ty) :=
  [("void", builtin .void), ("bool", bool), ("int8", builtin (.integer 8 true)),
   ("int16", builtin (.integer 16 true)), ("int32", builtin (.integer 32 true)),
   ("int64", builtin (.integer 64 true))]

/-! ## Structure -/

def shape : Ty → Shape
  | scalar _ kind => kind.shape
  | pointer .. => .pointer
  | array .. => .array
  | function .. => .function

/-- Whether both types are of one kind, components and widths aside. -/
def sameShape (one other : Ty) : Bool :=
  one.shape == other.shape

def isVoid (ty : Ty) : Bool := ty.shape == .void

def isBool (ty : Ty) : Bool := ty.shape == .bool

def isInteger (ty : Ty) : Bool := ty.shape == .integer

def isPointer (ty : Ty) : Bool := ty.shape == .pointer

def isFunction (ty : Ty) : Bool := ty.shape == .function

/-- What a pointer points to. -/
def pointee? : Ty → Option Ty
  | pointer _ pointee => some pointee
  | _ => none

/-- The result and the parameters of a function. -/
def signature? : Ty → Option (Ty × List (Parameter Ty))
  | function _ result parameters => some (result, parameters)
  | _ => none

@[simp] theorem shape_retag (tag : Tag) (ty : Ty) : (ty.retag tag).shape = ty.shape := by
  cases ty <;> rfl

/-! ## Size -/

/-- The size of a pointer or function in bytes. -/
def wordSize : UInt64 := 8

/-- The size in bytes. -/
def size : Ty → UInt64
  | scalar _ .void => 0
  | scalar _ .bool => 8
  | scalar _ (.integer bits _) => (bits / 8).toUInt64
  | pointer .. => wordSize
  | array _ element count => clampWord (count.toNat * element.size.toNat)
  | function .. => wordSize

@[simp] theorem size_retag (tag : Tag) (ty : Ty) : (ty.retag tag).size = ty.size := by
  match ty with
  | scalar _ .void => rfl
  | scalar _ .bool => rfl
  | scalar _ (.integer ..) => rfl
  | pointer .. => rfl
  | array .. => rfl
  | function .. => rfl

/-! ## Text -/

/-- A scalar type as diagnostics show it. -/
def describeScalar : Scalar → String
  | .void => "void"
  | .bool => "bool"
  | .integer bits true => "int" ++ toString bits
  | .integer bits false => "uint" ++ toString bits

mutual

/-- A type as diagnostics show it. -/
def describe : Ty → String
  | scalar tag kind => tag.label.getD (describeScalar kind)
  | pointer tag pointee => tag.label.getD ("pointer to " ++ pointee.describe)
  | array tag element count =>
    tag.label.getD ("array " ++ toString count ++ " of " ++ element.describe)
  | function tag result parameters =>
    tag.label.getD
      ("function (" ++ ", ".intercalate (describeAll parameters) ++ ") returning " ++
        result.describe)

/-- The types of a parameter list as diagnostics show them. -/
def describeAll : List (Parameter Ty) → List String
  | [] => []
  | parameter :: rest => parameter.ty.describe :: describeAll rest

end

end Ty

end MiniC
