/-
# MiniC.Proofs.Levels — the declarations that are in scope

What a name stands for depends on the levels that are open where it is written. A level is a list
of declarations of pairwise different names; a name stands for the declaration of the innermost
level that has one.

This is the value namespace of `MiniC.Scopes` said once more, as lists of declarations without keys
and with the rule that a level binds a name once in the type. `find?_toNamespace` and
`bind_toNamespace_eq_ok` say that both look up and bind alike.
-/
import MiniC.Scopes

namespace MiniC

set_option autoImplicit false

/-- The declarations of one level, newest first. -/
structure Level where
  declarations : List Declaration
  distinct : (declarations.map Declaration.name).Nodup

namespace Level

def empty : Level := ⟨[], .nil⟩

/-- The declaration of a name in the level. -/
def find? (level : Level) (name : String) : Option Declaration :=
  level.declarations.find? fun declaration => declaration.name == name

/-- The level with a declaration of a name that it does not have yet. -/
def bind? (level : Level) (declaration : Declaration) : Option Level :=
  if fresh : declaration.name ∉ level.declarations.map Declaration.name then
    some ⟨declaration :: level.declarations, List.nodup_cons.mpr ⟨fresh, level.distinct⟩⟩
  else none

/-- The level with each declaration under its name. -/
def keyed (level : Level) : List (String × Declaration) :=
  level.declarations.map fun declaration => (declaration.name, declaration)

theorem name_of_find? {level : Level} {name : String} {declaration : Declaration}
    (found : level.find? name = some declaration) : declaration.name = name := by
  simpa using List.find?_some found

theorem lookup_keyed (level : Level) (name : String) :
    level.keyed.lookup name = level.find? name := by
  unfold keyed find?
  induction level.declarations with
  | nil => rfl
  | cons declaration rest ih =>
    rw [List.map_cons, List.lookup_cons, List.find?_cons, ih, Bool.beq_comm (a := name)]

theorem isSome_find?_iff (level : Level) (name : String) :
    (level.find? name).isSome ↔ name ∈ level.declarations.map Declaration.name := by
  simp [find?]

end Level

/-- The open levels, innermost first. -/
abbrev Levels := List Level

namespace Levels

/-- What a name stands for: its declaration in the innermost level that has one. -/
def find? (levels : Levels) (name : String) : Option Declaration :=
  levels.findSome? fun level => level.find? name

/-- The levels with a declaration in the innermost one, which must not have its name yet. -/
def bind? : Levels → Declaration → Option Levels
  | [], _ => none
  | level :: outer, declaration => (level.bind? declaration).map (· :: outer)

/-- The levels as a namespace. -/
def toNamespace (levels : Levels) : Namespace Declaration :=
  levels.map Level.keyed

@[simp] theorem length_toNamespace (levels : Levels) :
    levels.toNamespace.length = levels.length := by
  simp [toNamespace]

theorem name_of_find? {levels : Levels} {name : String} {declaration : Declaration}
    (found : levels.find? name = some declaration) : declaration.name = name := by
  obtain ⟨level, _, here⟩ := List.exists_of_findSome?_eq_some found
  exact Level.name_of_find? here

theorem find?_toNamespace (levels : Levels) (name : String) :
    levels.toNamespace.find? name = levels.find? name := by
  simp only [toNamespace, Namespace.find?, List.findSome?_map, Function.comp_def,
    Level.lookup_keyed, find?]

/-- Binding in the namespace succeeds exactly where binding in the levels does. -/
theorem bind_toNamespace_eq_ok {levels : Levels} {declaration : Declaration}
    {after : Namespace Declaration} :
    levels.toNamespace.bind declaration.name declaration = .ok after ↔
      ∃ bound, levels.bind? declaration = some bound ∧ after = bound.toNamespace := by
  cases levels with
  | nil => simp [toNamespace, Namespace.bind, bind?]
  | cons level outer =>
    have taken : (level.keyed.lookup declaration.name).isSome ↔
        declaration.name ∈ level.declarations.map Declaration.name := by
      rw [level.lookup_keyed, level.isSome_find?_iff]
    by_cases known : declaration.name ∈ level.declarations.map Declaration.name
    · have refused := taken.mpr known
      simp [toNamespace, Namespace.bind, bind?, Level.bind?, refused, known]
    · have free : (level.keyed.lookup declaration.name).isSome = false :=
        Bool.eq_false_iff.mpr fun found => known (taken.mp found)
      simp only [toNamespace, Namespace.bind, bind?, Level.bind?, List.map_cons, free, known,
        Bool.false_eq_true, if_false, not_false_eq_true, dite_true, Option.map_some,
        Except.ok.injEq, Option.some.injEq]
      constructor
      · rintro rfl
        exact ⟨_, rfl, rfl⟩
      · rintro ⟨_, rfl, rfl⟩
        rfl

end Levels

end MiniC
