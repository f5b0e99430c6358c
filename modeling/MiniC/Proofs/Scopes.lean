/-
# MiniC.Proofs.Scopes — what the scopes gain

Both namespaces open and close their levels together, so that they have equally many, and the
outermost one stays. A binding is new in the innermost level and stands in front of those that are
there already; `Namespace.bind_eq_ok` says when a name can be bound and what becomes of the levels.

`Keeps` says that every name still stands for what it stood for. Where only the outermost level is
open, no binding can hide another, so that binding keeps: `Keeps.of_values`, `Keeps.of_types`.
-/
import MiniC.Scopes

namespace MiniC

set_option autoImplicit false

/-! ## One namespace -/

namespace Namespace

variable {α : Type} {before after : Namespace α} {name : String} {value : α}

/-- Whether the innermost level binds the name. -/
def bindsInnermost (levels : Namespace α) (name : String) : Bool :=
  match levels with
  | [] => false
  | level :: _ => (level.lookup name).isSome

/-- The innermost level gains a binding of a name that it does not have, and all else stays. -/
def Gains (before : Namespace α) (name : String) (value : α) (after : Namespace α) : Prop :=
  ∃ level outer, before = level :: outer ∧ level.lookup name = none ∧
    after = ((name, value) :: level) :: outer

theorem bind_eq_ok : before.bind name value = .ok after ↔ before.Gains name value after := by
  unfold Namespace.bind Gains
  split
  · simp
  · next level outer =>
    constructor
    · intro bound
      split at bound
      · cases bound
      · next free =>
        exact ⟨level, outer, rfl, Option.not_isSome_iff_eq_none.mp free, (Except.ok.inj bound).symm⟩
    · rintro ⟨_, _, same, free, rfl⟩
      obtain ⟨rfl, rfl⟩ := List.cons.inj same
      simp [free]

theorem bind_ne_noLevel (opened : before ≠ []) : before.bind name value ≠ .error .noLevel := by
  unfold Namespace.bind
  split
  · exact absurd rfl opened
  · split <;> simp

theorem Gains.tail_eq (gains : before.Gains name value after) : after.tail = before.tail := by
  obtain ⟨level, outer, rfl, _, rfl⟩ := gains
  rfl

theorem Gains.length_eq (gains : before.Gains name value after) :
    after.length = before.length := by
  obtain ⟨level, outer, rfl, _, rfl⟩ := gains
  rfl

/-- In a single level a name that can be bound was not known. -/
theorem Gains.find?_eq_none (gains : before.Gains name value after) (single : before.length = 1) :
    before.find? name = none := by
  obtain ⟨level, outer, rfl, free, _⟩ := gains
  obtain rfl : outer = [] := List.length_eq_zero_iff.mp (Nat.succ.inj single)
  simp [find?, free]

/-- In a single level a name that is bound stays bound as it was. -/
theorem Gains.find?_eq_some (gains : before.Gains name value after) (single : before.length = 1)
    {sought : String} {found : α} (known : before.find? sought = some found) :
    after.find? sought = some found := by
  rw [find?_bind (bind_eq_ok.mpr gains)]
  split
  · next same =>
    rw [same, gains.find?_eq_none single] at known
    cases known
  · exact known

end Namespace

/-! ## Both namespaces -/

namespace Scopes

/-- Both namespaces have equally many open levels, and at least one. -/
structure Paired (scopes : Scopes) : Prop where
  opened : 0 < scopes.depth
  level : scopes.types.length = scopes.values.length

variable {scopes after : Scopes}

theorem paired_root (types : List (String × Ty)) : (root types).Paired :=
  ⟨Nat.one_pos, rfl⟩

theorem Paired.push (paired : scopes.Paired) : scopes.push.Paired :=
  ⟨Nat.succ_pos _, congrArg Nat.succ paired.level⟩

theorem Paired.pop (paired : scopes.Paired) : scopes.pop.Paired := by
  unfold Scopes.pop
  split
  · next deep =>
    refine ⟨?_, ?_⟩
    · simp only [depth, List.length_tail] at deep ⊢
      omega
    · simp only [List.length_tail, paired.level]
  · exact paired

theorem declare_eq_ok {declaration : Declaration} :
    scopes.declare declaration = .ok after ↔
      scopes.values.Gains declaration.name declaration after.values ∧
        after.types = scopes.types := by
  rw [← Namespace.bind_eq_ok, declare]
  rcases scopes.values.bind declaration.name declaration with fault | values
  · cases fault <;> simp
  · constructor
    · intro declared
      cases declared
      exact ⟨rfl, rfl⟩
    · rintro ⟨same, kept⟩
      cases same
      rw [← kept]

/-- In a single level a name that is not known can be declared. -/
theorem exists_declare {declaration : Declaration} (outermost : scopes.depth = 1)
    (free : scopes.findValue? declaration.name = none) :
    ∃ after, scopes.declare declaration = .ok after := by
  obtain ⟨level, single⟩ := List.length_eq_one_iff.mp outermost
  rw [findValue?, single, Namespace.find?, List.findSome?_singleton] at free
  exact ⟨{ scopes with values := [(declaration.name, declaration) :: level] },
    declare_eq_ok.mpr ⟨⟨level, [], single, free, rfl⟩, rfl⟩⟩

theorem define_eq_ok {name : String} {ty : Ty} {position : Position} :
    scopes.define name ty position = .ok after ↔
      scopes.types.Gains name ty after.types ∧ after.values = scopes.values := by
  rw [← Namespace.bind_eq_ok, define]
  rcases scopes.types.bind name ty with fault | types
  · cases fault <;> simp
  · constructor
    · intro defined
      cases defined
      exact ⟨rfl, rfl⟩
    · rintro ⟨same, kept⟩
      cases same
      rw [← kept]

theorem Paired.declare (paired : scopes.Paired) {declaration : Declaration}
    (declared : scopes.declare declaration = .ok after) : after.Paired := by
  obtain ⟨gains, kept⟩ := declare_eq_ok.mp declared
  refine ⟨?_, by rw [kept, paired.level, gains.length_eq]⟩
  rw [depth_declare declared]
  exact paired.opened

theorem Paired.define (paired : scopes.Paired) {name : String} {ty : Ty} {position : Position}
    (defined : scopes.define name ty position = .ok after) : after.Paired := by
  obtain ⟨gains, kept⟩ := define_eq_ok.mp defined
  refine ⟨?_, by rw [kept, gains.length_eq, paired.level]⟩
  rw [depth_define defined]
  exact paired.opened

/-- Where a level is open nothing is refused for want of one. -/
theorem Paired.declare_fault (paired : scopes.Paired) {declaration : Declaration}
    {error : CompileError} (refused : scopes.declare declaration = .error error) :
    error.fault = .alreadyDeclared declaration.name := by
  unfold Scopes.declare at refused
  split at refused
  · cases refused
  · next missing =>
    exact absurd missing (Namespace.bind_ne_noLevel (List.ne_nil_of_length_pos paired.opened))
  · cases refused
    rfl

theorem Paired.define_fault (paired : scopes.Paired) {name : String} {ty : Ty}
    {position : Position} {error : CompileError}
    (refused : scopes.define name ty position = .error error) :
    error.fault = .alreadyDefined name := by
  unfold Scopes.define at refused
  split at refused
  · cases refused
  · next missing =>
    refine absurd missing (Namespace.bind_ne_noLevel (List.ne_nil_of_length_pos ?_))
    rw [paired.level]
    exact paired.opened
  · cases refused
    rfl

/-! ## What names stand for -/

/-- Every name still stands for what it stood for. -/
structure Keeps (before after : Scopes) : Prop where
  types : ∀ {name : String} {ty : Ty}, before.findType? name = some ty →
    after.findType? name = some ty
  values : ∀ {name : String} {declaration : Declaration},
    before.findValue? name = some declaration → after.findValue? name = some declaration

theorem Keeps.refl (scopes : Scopes) : scopes.Keeps scopes :=
  ⟨id, id⟩

theorem Keeps.trans {between : Scopes} (first : scopes.Keeps between)
    (second : between.Keeps after) : scopes.Keeps after :=
  ⟨fun known => second.types (first.types known), fun known => second.values (first.values known)⟩

/-- With only the outermost level open, a new value hides nothing. -/
theorem Keeps.of_values (outermost : scopes.depth = 1) {name : String} {declaration : Declaration}
    (gains : scopes.values.Gains name declaration after.values)
    (kept : after.types = scopes.types) : scopes.Keeps after := by
  refine ⟨fun known => ?_, fun known => gains.find?_eq_some outermost known⟩
  rwa [findType?, kept]

theorem Keeps.of_types (paired : scopes.Paired) (outermost : scopes.depth = 1) {name : String}
    {ty : Ty} (gains : scopes.types.Gains name ty after.types)
    (kept : after.values = scopes.values) : scopes.Keeps after := by
  refine ⟨fun known => gains.find?_eq_some (paired.level.trans outermost) known, fun known => ?_⟩
  rwa [findValue?, kept]

end Scopes

end MiniC
