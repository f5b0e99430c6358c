/-
# MiniC.Proofs.Generativity — what a copy is compatible with

A copy of a type has its structure and its parts. Copying a `void`, `bool` or integer makes
something new: compatibility looks for that one instance, at every place it compares, so a type in
which the copy is compared is compatible with none in which it is not. Copying a pointer, an array
or a function makes nothing new, since compatibility looks through its instance.

That the instance is new is what calls see to, which number the instances they make: in all that is
held when a call is made, the instances that calls made have lower numbers.

* `Compared` — that an instance is a type or is compared inside it.
* `Replaced` — that types differ by one type in place of another, compared or not.
* `Held` — the types that a program holds after its calls, and how many instances these made.
* `CopyLaw` — what a copy is compatible with, of each kind of type.
* `MakeCall.madeBefore`, `Held.madeBefore` — one call, and all calls, number what they make.
* `Ty.not_compatible_of_compared`, `Held.copyLaw` — copies without parts.
* `Replaced.compatible_eq` — copies of what has parts.
-/
import MiniC.Proofs.Built

namespace MiniC

set_option autoImplicit false

/-! ## Copies -/

/-- The call copies the type, with a name or without one. -/
inductive CopyCall (original : Ty) : Making Ty → Prop
  | duplicate : CopyCall original original.duplicate
  | distinct (name : String) : CopyCall original (original.distinct name)

/-- What a call that copies makes is the next instance. -/
theorem CopyCall.eq_retag {original copy : Ty} {call : Making Ty} {made after : Nat}
    (copies : CopyCall original call) (run : call.run made = (copy, after)) :
    after = made + 1 ∧ ∃ label, copy = original.retag ⟨.call made, label⟩ := by
  cases copies with
  | duplicate =>
    obtain ⟨same, next⟩ := Ty.of_run_make run
    exact ⟨next, none, same⟩
  | distinct name =>
    obtain ⟨same, next⟩ := Ty.of_run_make run
    exact ⟨next, some name, same⟩

namespace Ty

/-- But for its instance, a copy is what it is a copy of. -/
theorem retag_retag (tag : Tag) (ty : Ty) : (ty.retag tag).retag ty.tag = ty := by
  cases ty <;> rfl

/-- Copies of what has parts are of one canonical form with it. -/
theorem canonical_retag {ty : Ty} (composite : ty.shape ∈ [.pointer, .array, .function])
    (tag : Tag) : (ty.retag tag).canonical = ty.canonical := by
  cases ty with
  | scalar _ kind => cases kind <;> simp [shape, Scalar.shape] at composite
  | pointer | array | function => rfl

end Ty

/-! ## What is compared -/

/-- The instance is the type, or it is reached from it through pointees, elements and parameters. -/
inductive Compared (part : Ty) : Ty → Prop
  | self : Compared part part
  | pointer {tag : Tag} {pointee : Ty} (inside : Compared part pointee) :
      Compared part (.pointer tag pointee)
  | array {tag : Tag} {element : Ty} {count : UInt64} (inside : Compared part element) :
      Compared part (.array tag element count)
  | parameter {tag : Tag} {result : Ty} {parameters : List (Parameter Ty)}
      {parameter : Parameter Ty} (member : parameter ∈ parameters)
      (inside : Compared part parameter.ty) : Compared part (.function tag result parameters)

namespace Ty

/-- A canonical form tells which instances without parts are compared. -/
theorem compared_of_canonical_eq {tag : Tag} {kind : Scalar} {one other : Ty}
    (compared : Compared (.scalar tag kind) one) (same : one.canonical = other.canonical) :
    Compared (.scalar tag kind) other := by
  induction compared generalizing other with
  | self =>
    cases other with
    | scalar =>
      obtain ⟨rfl, rfl⟩ := Canonical.scalar.inj same
      exact .self
    | _ => cases same
  | pointer _ ih =>
    cases other with
    | pointer => exact .pointer (ih (Canonical.pointer.inj same))
    | _ => cases same
  | array _ ih =>
    cases other with
    | array => exact .array (ih (Canonical.array.inj same))
    | _ => cases same
  | @parameter _ _ parameters parameter member _ ih =>
    cases other with
    | function _ _ others =>
      have forms := Canonical.function.inj same
      rw [canonicalAll_eq_map, canonicalAll_eq_map] at forms
      have there : parameter.ty.canonical ∈ others.map fun other => other.ty.canonical :=
        forms ▸ List.mem_map_of_mem member
      obtain ⟨other, within, form⟩ := List.mem_map.mp there
      exact .parameter within (ih form.symm)
    | _ => cases same

/-- What is compared is among what has no parts, if it has none itself. -/
theorem mem_scalars_of_compared {part ty : Ty} (plain : part.shape ∈ [.void, .bool, .integer])
    (compared : Compared part ty) : part ∈ ty.scalars := by
  induction compared with
  | self =>
    cases part with
    | scalar => exact List.mem_cons_self
    | pointer | array | function => exact absurd plain (by simp [shape])
  | pointer _ ih | array _ ih => exact ih
  | parameter member _ ih => exact List.mem_append_right _ (mem_scalarsAll member ih)

/-- A type in which an instance without parts is compared is compatible with no other. -/
theorem not_compatible_of_compared {part one other : Ty}
    (plain : part.shape ∈ [.void, .bool, .integer]) (compared : Compared part one)
    (absent : ¬Compared part other) :
    one.compatible other = false ∧ other.compatible one = false := by
  have apart : one.compatible other = false := by
    cases part with
    | scalar =>
      exact Bool.eq_false_iff.mpr fun fits =>
        absent (compared_of_canonical_eq compared ((compatible_iff one other).mp fits))
    | pointer | array | function => exact absurd plain (by simp [shape])
  exact ⟨apart, (compatible_comm other one).trans apart⟩

end Ty

/-! ## What is replaced -/

mutual

/-- The types differ by the one type in place of the other, anywhere in them. What is made of other
parts is made anew, so the instances around may differ too. -/
inductive Replaced (old new : Ty) : Ty → Ty → Prop
  | here : Replaced old new old new
  | kept (ty : Ty) : Replaced old new ty ty
  | pointer {tag otherTag : Tag} {pointee other : Ty} (inside : Replaced old new pointee other) :
      Replaced old new (.pointer tag pointee) (.pointer otherTag other)
  | array {tag otherTag : Tag} {element other : Ty} {count : UInt64}
      (inside : Replaced old new element other) :
      Replaced old new (.array tag element count) (.array otherTag other count)
  | function {tag otherTag : Tag} {result other : Ty} {parameters others : List (Parameter Ty)}
      (returned : Replaced old new result other) (each : ReplacedAll old new parameters others) :
      Replaced old new (.function tag result parameters) (.function otherTag other others)

inductive ReplacedAll (old new : Ty) : List (Parameter Ty) → List (Parameter Ty) → Prop
  | nil : ReplacedAll old new [] []
  | cons {name : Option String} {position : Position} {ty other : Ty}
      {parameters others : List (Parameter Ty)} (first : Replaced old new ty other)
      (more : ReplacedAll old new parameters others) :
      ReplacedAll old new (⟨name, ty, position⟩ :: parameters) (⟨name, other, position⟩ :: others)

end

variable {old new : Ty}

mutual

theorem Replaced.canonical_eq (same : old.canonical = new.canonical) {one other : Ty} :
    Replaced old new one other → one.canonical = other.canonical
  | .here => same
  | .kept _ => rfl
  | .pointer inside => congrArg Canonical.pointer (inside.canonical_eq same)
  | .array inside => congrArg Canonical.array (inside.canonical_eq same)
  | .function _ each => congrArg Canonical.function (each.canonicalAll_eq same)

theorem ReplacedAll.canonicalAll_eq (same : old.canonical = new.canonical)
    {parameters others : List (Parameter Ty)} :
    ReplacedAll old new parameters others →
      Ty.canonicalAll parameters = Ty.canonicalAll others
  | .nil => rfl
  | .cons first more => by
    rw [Ty.canonicalAll, Ty.canonicalAll, first.canonical_eq same, more.canonicalAll_eq same]

end

/-- What is in the place of another of one canonical form changes nothing. -/
theorem Replaced.compatible_eq {one other : Ty} (replaced : Replaced old new one other)
    (same : old.canonical = new.canonical) (ty : Ty) :
    other.compatible ty = one.compatible ty ∧ ty.compatible other = ty.compatible one := by
  have fits : other.compatible ty = one.compatible ty := by
    rw [Bool.eq_iff_iff, Ty.compatible_iff, Ty.compatible_iff, replaced.canonical_eq same]
  exact ⟨fits, by rw [Ty.compatible_comm, fits, Ty.compatible_comm]⟩

/-! ## What copies are compatible with -/

/-- A copy is what the original is, but for its instance. If that is `void`, `bool` or an integer,
the copy is new: a type in which it is compared matches none in which it is not, and no earlier one.
If it is a pointer, an array or a function, the copy matches what it matches, and may stand for it
anywhere. -/
structure CopyLaw (original copy : Ty) (earlier : Ty → Prop) : Prop where
  retag_eq : copy.retag original.tag = original
  shape_eq : copy.shape = original.shape
  size_eq : copy.size = original.size
  apart : original.shape ∈ [.void, .bool, .integer] → ∀ one other, Compared copy one →
    ¬Compared copy other → one.compatible other = false ∧ other.compatible one = false
  new : original.shape ∈ [.void, .bool, .integer] → ∀ ty, earlier ty → ∀ one, Compared copy one →
    one.compatible ty = false ∧ ty.compatible one = false
  same : original.shape ∈ [.pointer, .array, .function] → ∀ ty,
    copy.compatible ty = original.compatible ty
  replaced : original.shape ∈ [.pointer, .array, .function] → ∀ one other,
    Replaced original copy one other → ∀ ty,
      other.compatible ty = one.compatible ty ∧ ty.compatible other = ty.compatible one

/-- It is enough that a copy without parts is compared in nothing earlier. -/
theorem copyLaw_retag {original : Ty} {tag : Tag} {earlier : Ty → Prop}
    (fresh : original.shape ∈ [.void, .bool, .integer] → ∀ ty, earlier ty →
      ¬Compared (original.retag tag) ty) : CopyLaw original (original.retag tag) earlier := by
  have apart : original.shape ∈ [.void, .bool, .integer] → ∀ one other,
      Compared (original.retag tag) one → ¬Compared (original.retag tag) other →
        one.compatible other = false ∧ other.compatible one = false := by
    intro plain one other
    rw [← original.shape_retag tag] at plain
    exact Ty.not_compatible_of_compared plain
  have replaced : original.shape ∈ [.pointer, .array, .function] → ∀ one other,
      Replaced original (original.retag tag) one other → ∀ ty,
        other.compatible ty = one.compatible ty ∧ ty.compatible other = ty.compatible one :=
    fun composite _ _ replaced => replaced.compatible_eq (Ty.canonical_retag composite tag).symm
  exact {
    retag_eq := original.retag_retag tag
    shape_eq := original.shape_retag tag
    size_eq := original.size_retag tag
    apart
    new := fun plain ty before one compared => apart plain one ty compared (fresh plain ty before)
    same := fun composite ty => (replaced composite _ _ .here ty).1
    replaced }

/-! ## What is made before -/

/-- The instances in the type that calls made are among the first so many. -/
inductive Ty.MadeBefore (made : Nat) : Ty → Prop
  | intro {ty : Ty} (own : ∀ number, ty.tag.origin = .call number → number < made)
      (parts : ∀ part ∈ ty.parts, MadeBefore made part) : MadeBefore made ty

namespace Ty.MadeBefore

variable {made : Nat} {ty part : Ty}

theorem own (before : ty.MadeBefore made) :
    ∀ number, ty.tag.origin = .call number → number < made := by
  cases before with
  | intro own => exact own

theorem parts (before : ty.MadeBefore made) : ∀ part ∈ ty.parts, part.MadeBefore made := by
  cases before with
  | intro _ parts => exact parts

/-- No call made what has its place in a source. -/
theorem of_site {place : Position} {label : Option String} (tag : ty.tag = ⟨.site place, label⟩)
    (parts : ∀ part ∈ ty.parts, part.MadeBefore made) : ty.MadeBefore made := by
  refine .intro (fun number origin => ?_) parts
  rw [tag] at origin
  cases origin

theorem mono {more : Nat} (before : ty.MadeBefore made) (le : made ≤ more) :
    ty.MadeBefore more := by
  induction before with
  | intro own _ ih =>
    exact .intro (fun number origin => Nat.lt_of_lt_of_le (own number origin) le) ih

/-- What is compared in a type was made before it. -/
theorem of_compared (compared : Compared part ty) (before : ty.MadeBefore made) :
    part.MadeBefore made := by
  induction compared with
  | self => exact before
  | pointer _ ih | array _ ih => exact ih (before.parts _ List.mem_cons_self)
  | parameter member _ ih =>
    exact ih (before.parts _ (List.mem_cons_of_mem _ (List.mem_map_of_mem member)))

/-- The next instance is compared in nothing that was made before. -/
theorem not_compared (before : ty.MadeBefore made) (next : part.tag.origin = .call made) :
    ¬Compared part ty :=
  fun compared => Nat.lt_irrefl made ((before.of_compared compared).own made next)

end Ty.MadeBefore

/-! ## Calls -/

/-- The call makes a type of what is held. -/
inductive MakeCall (held : List Ty) : Making Ty → Prop
  | scalar (kind : Scalar) : MakeCall held (Ty.makeScalar kind)
  | pointer {pointee : Ty} (known : pointee ∈ held) : MakeCall held (Ty.makePointer pointee)
  | array {element : Ty} {count : UInt64} (known : element ∈ held) :
      MakeCall held (Ty.makeArray element count)
  | function {result : Ty} {parameters : List (Parameter Ty)} (known : result ∈ held)
      (each : ∀ parameter ∈ parameters, parameter.ty ∈ held) :
      MakeCall held (Ty.makeFunction result parameters)
  | copy {original : Ty} {call : Making Ty} (known : original ∈ held)
      (copies : CopyCall original call) : MakeCall held call

/-- The types that a program holds when its calls have made so many instances. It starts with types
that no call made, takes those that a type it holds is made of, and makes further ones of them. -/
inductive Held : Nat → List Ty → Prop
  | given {types : List Ty} (uncalled : ∀ ty ∈ types, ty.MadeBefore 0) : Held 0 types
  | part {made : Nat} {types : List Ty} {whole part : Ty} (held : Held made types)
      (known : whole ∈ types) (inside : part ∈ whole.parts) : Held made (part :: types)
  | call {made after : Nat} {types : List Ty} {ty : Ty} {call : Making Ty} (held : Held made types)
      (makes : MakeCall types call) (run : call.run made = (ty, after)) : Held after (ty :: types)

section Calls

variable {made after : Nat} {types : List Ty} {ty original copy : Ty} {call : Making Ty}

/-- A call numbers the instance that it makes, and takes its parts from what is held. -/
theorem MakeCall.parts_of_run (makes : MakeCall types call) (run : call.run made = (ty, after)) :
    after = made + 1 ∧ ty.tag.origin = .call made ∧
      ∀ part ∈ ty.parts, part ∈ types ∨ ∃ whole ∈ types, part ∈ whole.parts := by
  cases makes with
  | scalar =>
    obtain ⟨rfl, rfl⟩ := Ty.of_run_make run
    exact ⟨rfl, rfl, nofun⟩
  | pointer known | array known =>
    obtain ⟨rfl, rfl⟩ := Ty.of_run_make run
    exact ⟨rfl, rfl, List.forall_mem_singleton.mpr (.inl known)⟩
  | function known each =>
    obtain ⟨rfl, rfl⟩ := Ty.of_run_make run
    refine ⟨rfl, rfl, List.forall_mem_cons.mpr ⟨.inl known, fun part member => ?_⟩⟩
    obtain ⟨parameter, within, rfl⟩ := List.mem_map.mp member
    exact .inl (each parameter within)
  | copy known copies =>
    obtain ⟨next, label, rfl⟩ := copies.eq_retag run
    refine ⟨next, by rw [Ty.tag_retag], fun part member => .inr ⟨_, known, ?_⟩⟩
    rwa [Ty.parts_retag] at member

/-- What a call makes of types that were made before was made before the next one. -/
theorem MakeCall.madeBefore (makes : MakeCall types call) (run : call.run made = (ty, after))
    (before : ∀ ty ∈ types, ty.MadeBefore made) : ty.MadeBefore after := by
  obtain ⟨rfl, next, inside⟩ := makes.parts_of_run run
  refine .intro (fun number origin => ?_) fun part member => ?_
  · rw [next] at origin
    cases origin
    exact Nat.lt_succ_self made
  · have earlier : part.MadeBefore made := by
      rcases inside part member with known | ⟨whole, known, within⟩
      · exact before part known
      · exact (before whole known).parts part within
    exact earlier.mono (Nat.le_succ made)

/-- Whatever a program has called, what it holds was made before its next call. -/
theorem Held.madeBefore (held : Held made types) : ∀ ty ∈ types, ty.MadeBefore made := by
  induction held with
  | given uncalled => exact uncalled
  | part _ known inside ih => exact List.forall_mem_cons.mpr ⟨(ih _ known).parts _ inside, ih⟩
  | @call made after types ty call _ makes run ih =>
    -- The count moves on, which leaves what was held before the call.
    obtain ⟨rfl, _, _⟩ := makes.parts_of_run run
    exact List.forall_mem_cons.mpr ⟨makes.madeBefore run ih,
      fun other member => (ih other member).mono (Nat.le_succ made)⟩

/-- What a call copies is new among all that is held. -/
theorem Held.copyLaw (held : Held made types) (copies : CopyCall original call)
    (run : call.run made = (copy, after)) :
    (∀ ty ∈ types, copy.same ty = false) ∧ CopyLaw original copy (· ∈ types) := by
  obtain ⟨_, label, rfl⟩ := copies.eq_retag run
  have next : (original.retag ⟨.call made, label⟩).tag.origin = .call made := by rw [Ty.tag_retag]
  have absent : ∀ ty ∈ types, ¬Compared (original.retag ⟨.call made, label⟩) ty :=
    fun ty member => (held.madeBefore ty member).not_compared next
  refine ⟨fun ty member => Bool.eq_false_iff.mpr fun same => ?_, copyLaw_retag fun _ => absent⟩
  obtain rfl := (Ty.same_iff _ ty).mp same
  exact absent _ member .self

end Calls

end MiniC
