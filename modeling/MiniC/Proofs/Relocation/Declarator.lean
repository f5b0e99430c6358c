/-
# MiniC.Proofs.Relocation.Declarator — declarators at other places

The first pass over a declarator notes indices, which are further on by the same number throughout,
and the second pass goes back to these. So a declarator follows as all other parsers do:
`follows_declarator`.
-/
import MiniC.Parser.Declarator
import MiniC.Proofs.Relocation

namespace MiniC

set_option autoImplicit false

def DeclaredName.relocate (move : Position → Position) (declared : DeclaredName) : DeclaredName :=
  ⟨declared.name, move declared.position⟩

def Declarator.relocate (move : Position → Position) (declarator : Declarator) : Declarator :=
  ⟨declarator.ty.relocate move, declarator.name.map (DeclaredName.relocate move)⟩

/-! ## The first pass -/

namespace Scan

/-- The scan with its components further on. -/
def shifted (shift : Nat) (scan : Scan) : Scan :=
  ⟨scan.components.map (· + shift), scan.depth⟩

theorem shifted_note (shift : Nat) (scan : Scan) (index : Nat) :
    (scan.note index).shifted shift = (scan.shifted shift).note (index + shift) := by
  by_cases outermost : scan.depth = 0 <;> simp [note, shifted, outermost]

end Scan

def ScanStep.shifted (shift : Nat) : ScanStep → ScanStep
  | stop => stop
  | stray => stray
  | pass scan => pass (scan.shifted shift)

theorem Scan.step_shifted (shift : Nat) (scan : Scan) (index : Nat) (kind : Kind) :
    (scan.shifted shift).step (index + shift) kind = (scan.step index kind).shifted shift := by
  have depth : (scan.shifted shift).depth = scan.depth := rfl
  unfold step
  split
  all_goals first
    | rfl
    | rw [← shifted_note]; rfl
    | rw [depth]; split <;> rfl

namespace Parser

variable {tokens tokens' : Array Token} {along : Alignment tokens tokens'}

theorem follows_scanToken (scan : Scan) :
    Follows along (Option.map (Scan.shifted along.shift)) (scanToken scan)
      (scanToken (scan.shifted along.shift)) := by
  refine follows_peek_bind fun token length => follows_bind follows_cursor fun index => ?_
  simp only [Scan.step_shifted]
  cases scan.step index token.kind with
  | stop => exact follows_pure none
  | stray => exact follows_fail rfl
  | pass next => exact follows_advance_bind fun _ _ => follows_pure (some next)

theorem follows_scanComponents :
    Follows along (List.map (· + along.shift)) scanComponents scanComponents :=
  follows_bind (follows_iterate follows_scanToken ⟨[], 0⟩) fun scan => follows_pure scan.components

/-! ## Components -/

theorem follows_isTypeName : Follows along id isTypeName isTypeName := by
  refine follows_peek_bind fun token length => ?_
  dsimp only
  split
  · refine follows_bind (follows_findType? _) fun found => ?_
    rw [Option.isSome_map]
    exact follows_pure _
  · exact follows_pure _

theorem follows_typeName : Follows along (Ty.relocate along.move) typeName typeName := by
  refine follows_peek_bind fun token length => ?_
  dsimp only
  split
  · refine follows_bind (follows_findType? _) fun found => ?_
    cases found with
    | some ty => exact follows_advance_bind fun _ _ => follows_pure ty
    | none => exact follows_fail rfl
  · exact follows_fail rfl

theorem follows_baseType (base : Option Ty) :
    Follows along (Ty.relocate along.move) (baseType base)
      (baseType (base.map (Ty.relocate along.move))) := by
  cases base with
  | some ty => exact follows_pure ty
  | none => exact follows_typeName

theorem follows_pointer (ty : Ty) :
    Follows along (Option.map (Ty.relocate along.move)) (pointer ty)
      (pointer (ty.relocate along.move)) := by
  refine follows_peek_bind fun token length => follows_bind (follows_accept _) fun found => ?_
  cases found with
  | true => exact follows_pure (some (Ty.pointer ⟨.site token.position, none⟩ ty))
  | false => exact follows_pure none

theorem follows_arraySuffix (element : Ty) :
    Follows along (Ty.relocate along.move) (arraySuffix element)
      (arraySuffix (element.relocate along.move)) := by
  refine follows_peek_bind fun opening length => follows_bind (follows_expect _ _) fun _ =>
    follows_peek_bind fun token length => ?_
  dsimp only
  split
  · split
    · exact follows_advance_bind fun _ _ => follows_bind (follows_expect _ _) fun _ =>
        follows_pure (Ty.array ⟨.site opening.position, none⟩ element _)
    · exact follows_fail rfl
  · exact follows_fail rfl

theorem follows_withName (built : Declarator) (declared : DeclaredName) :
    Follows along (Declarator.relocate along.move) (ofExcept (built.withName declared))
      (ofExcept ((built.relocate along.move).withName (declared.relocate along.move))) := by
  have same : (built.relocate along.move).name.isSome = built.name.isSome := Option.isSome_map
  simp only [Declarator.withName, same]
  split
  · exact follows_failAt rfl declared.position
  · exact follows_pure { built with name := some declared }

section Inside

variable {inner inner' : Option Ty → Parser Declarator}
  (follows : ∀ base, Follows along (Declarator.relocate along.move) (inner base)
    (inner' (base.map (Ty.relocate along.move))))

include follows

theorem follows_parameter :
    Follows along (Parameter.relocate along.move) (parameter inner) (parameter inner') := by
  refine follows_peek_bind fun first length => follows_bind (follows none) fun declared => ?_
  obtain ⟨ty, _ | ⟨name, place⟩⟩ := declared
  · exact follows_pure (Parameter.mk none ty first.position)
  · exact follows_pure (Parameter.mk (some name) ty place)

theorem follows_nextParameter (read : Array (Parameter Ty)) :
    Follows along (Option.map (Array.map (Parameter.relocate along.move)))
      (nextParameter inner read)
      (nextParameter inner' (read.map (Parameter.relocate along.move))) := by
  refine follows_bind (follows_accept _) fun found => ?_
  cases found with
  | true =>
    refine follows_bind (follows_parameter follows) fun parameter => ?_
    exact follows_pure_of_eq (congrArg some Array.map_push)
  | false => exact follows_pure none

theorem follows_parameters :
    Follows along (Array.map (Parameter.relocate along.move)) (parameters inner)
      (parameters inner') := by
  refine follows_bind (follows_check _) fun closed => ?_
  cases closed with
  | true => exact follows_pure_of_eq Array.map_empty
  | false =>
    refine follows_bind (follows_parameter follows) fun first => ?_
    rw [← List.map_singleton, ← List.map_toArray]
    exact follows_iterate (follows_nextParameter follows) #[first]

theorem follows_parameterList :
    Follows along (List.map (Parameter.relocate along.move)) (parameterList inner)
      (parameterList inner') := by
  refine follows_bind (follows_parameters follows) fun read =>
    follows_bind (follows_expect _ _) fun _ => ?_
  exact follows_pure_of_eq Array.toList_map.symm

theorem follows_parenthesized (built : Declarator) :
    Follows along (Declarator.relocate along.move) (parenthesized inner built)
      (parenthesized inner' (built.relocate along.move)) := by
  refine follows_advance_bind fun opening length => follows_bind (follows_check _) fun closed =>
    follows_bind follows_isTypeName fun typed => ?_
  dsimp only [id]
  split
  · refine follows_bind (follows_parameterList follows) fun parameters => ?_
    exact follows_pure_of_eq (congrArg (Declarator.mk · _) (Ty.relocate_function _ _ _))
  · refine follows_bind (follows (some built.ty)) fun group =>
      follows_bind (follows_expect _ _) fun _ => ?_
    obtain ⟨ty, _ | declared⟩ := group
    · exact follows_pure { built with ty }
    · exact follows_withName { built with ty } declared

theorem follows_component (built : Declarator) (start : Nat) :
    Follows along (Declarator.relocate along.move) (component inner built start)
      (component inner' (built.relocate along.move) (start + along.shift)) := by
  refine follows_bind (follows_seek start) fun _ => follows_peek_bind fun token length => ?_
  dsimp only
  split
  · exact follows_bind (follows_arraySuffix built.ty) fun ty => follows_pure { built with ty }
  · exact follows_parenthesized follows built
  · exact follows_withName built ⟨_, token.position⟩
  · exact follows_fail rfl

/-! ## Declarators -/

theorem follows_declaratorStep (base : Option Ty) :
    Follows along (Declarator.relocate along.move) (declaratorStep inner base)
      (declaratorStep inner' (base.map (Ty.relocate along.move))) :=
  follows_bind (follows_baseType base) fun ty =>
    follows_bind (follows_iterate follows_pointer ty) fun ty =>
    follows_bind follows_scanComponents fun components =>
    follows_bind follows_cursor fun stop =>
    follows_bind (follows_foldlM components (follows_component follows) ⟨ty, none⟩) fun built =>
    follows_bind (follows_seek stop) fun _ => follows_pure built

end Inside

theorem follows_declaratorAround (base : Option Ty) :
    Follows along (Declarator.relocate along.move) (declaratorAround base)
      (declaratorAround (base.map (Ty.relocate along.move))) :=
  follows_recurse (fun _ _ inner => follows_declaratorStep inner) base

theorem follows_declarator :
    Follows along (Declarator.relocate along.move) declarator declarator :=
  follows_declaratorAround none

end Parser

end MiniC
