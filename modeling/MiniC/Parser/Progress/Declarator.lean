/-
# MiniC.Parser.Progress.Declarator — why reading a declarator ends

A declarator meets itself inside a parenthesis only, and although its components are visited from
the last to the first, the cursor never goes back before the declarator.

* `yields_scanComponents` — the components lie where the first pass found them.
* `guarded_declaratorStep` — declarators inside a declarator stand behind a token.
* `declaratorAround_eq` — so a declarator is what its step makes of declarators.
-/
import MiniC.Parser.Declarator
import MiniC.Parser.Progress

namespace MiniC

set_option autoImplicit false

namespace Scan

/-- The components of a scan lie from `start` on and up to `stop`. -/
def Between (start stop : Nat) (scan : Scan) : Prop :=
  ∀ index ∈ scan.components, start ≤ index ∧ index ≤ stop

theorem between_note {start stop : Nat} {scan : Scan} (between : scan.Between start stop)
    {index : Nat} (low : start ≤ index) (high : index ≤ stop) :
    (scan.note index).Between start stop := by
  unfold note
  split
  · intro noted member
    rcases List.mem_cons.mp member with rfl | member
    · exact ⟨low, high⟩
    · exact between noted member
  · exact between

theorem between_step {start stop : Nat} {scan next : Scan} (between : scan.Between start stop)
    {index : Nat} (low : start ≤ index) (high : index ≤ stop) {kind : Kind}
    (passed : scan.step index kind = .pass next) : next.Between start stop := by
  have noted := between_note between low high
  unfold step at passed
  split at passed <;> (try split at passed) <;> cases passed <;> first | exact between | exact noted

end Scan

namespace Parser

variable {tokens : Array Token} {start : Nat}

/-! ## The first pass -/

theorem lands_scanToken (scan : Scan) :
    Lands tokens start (scanToken scan) (scanToken scan) := by
  refine lands_bind lands_peek fun token => lands_bind lands_cursor fun index => ?_
  split
  · exact lands_pure _
  · exact lands_fail _
  · exact lands_bind lands_advance fun _ => lands_pure _

theorem lands_scanComponents : Lands tokens start scanComponents scanComponents :=
  lands_bind (lands_iterate lands_scanToken _) fun _ => lands_pure _

theorem yields_scanToken {scan : Scan} (between : scan.Between start tokens.size) :
    Yields tokens start (scanToken scan) fun next =>
      ∀ found ∈ next, found.Between start tokens.size := by
  intro state after value low high result found member
  simp only [scanToken, bind_apply] at result
  rcases current : tokens[state.cursor]? with _ | token
  · simp [peek, current] at result
  · simp only [peek_apply current, cursor] at result
    rcases passed : scan.step state.cursor token.kind with _ | _ | next <;>
      simp only [passed, fail_apply _ current, bind_apply, pure_apply] at result
    · cases result
      cases member
    · cases result
    · split at result
      · cases result
        cases member
        exact Scan.between_step between low high passed
      · cases result

/-- The components lie where the first pass found them. -/
theorem yields_scanComponents :
    Yields tokens start scanComponents fun components =>
      ∀ index ∈ components, start ≤ index ∧ index ≤ tokens.size := by
  intro state after value low high result
  simp only [scanComponents, bind_apply] at result
  split at result
  · next scan after' scanned =>
    cases result
    refine yields_iterate lands_scanToken (fun _ between => yields_scanToken between) ?_ _ _ _
      low high scanned
    simp [Scan.Between]
  · cases result

/-! ## Components -/

theorem lands_isTypeName : Lands tokens start isTypeName isTypeName := by
  refine lands_bind lands_peek fun token => ?_
  split
  · exact lands_bind (lands_findType? _) fun _ => lands_pure _
  · exact lands_pure _

theorem lands_typeName : Lands tokens start typeName typeName := by
  refine lands_bind lands_peek fun token => ?_
  split
  · refine lands_bind (lands_findType? _) fun found => ?_
    split
    · exact lands_bind lands_advance fun _ => lands_pure _
    · exact lands_fail _
  · exact lands_fail _

theorem lands_baseType (base : Option Ty) : Lands tokens start (baseType base) (baseType base) := by
  cases base with
  | some ty => exact lands_pure ty
  | none => exact lands_typeName

theorem lands_pointer (ty : Ty) : Lands tokens start (pointer ty) (pointer ty) := by
  refine lands_bind lands_peek fun token => lands_bind (lands_accept _) fun found => ?_
  split <;> exact lands_pure _

theorem lands_arraySuffix (element : Ty) :
    Lands tokens start (arraySuffix element) (arraySuffix element) := by
  refine lands_bind lands_peek fun opening => lands_bind (lands_expect _ _) fun _ =>
    lands_bind lands_peek fun token => ?_
  split
  · split
    · exact lands_bind lands_advance fun _ => lands_bind (lands_expect _ _) fun _ => lands_pure _
    · exact lands_fail _
  · exact lands_fail _

variable {one other : Option Ty → Parser Declarator}

theorem lands_parameter (inner : ∀ base, Lands tokens start (one base) (other base)) :
    Lands tokens start (parameter one) (parameter other) :=
  lands_bind lands_peek fun _ => lands_bind (inner none) fun _ => lands_pure _

theorem lands_nextParameter (inner : ∀ base, Lands tokens start (one base) (other base))
    (read : Array (Parameter Ty)) :
    Lands tokens start (nextParameter one read) (nextParameter other read) := by
  refine lands_bind (lands_accept _) fun found => ?_
  split
  · exact lands_bind (lands_parameter inner) fun _ => lands_pure _
  · exact lands_pure _

theorem lands_parameters (inner : ∀ base, Lands tokens start (one base) (other base)) :
    Lands tokens start (parameters one) (parameters other) := by
  refine lands_bind (lands_check _) fun found => ?_
  split
  · exact lands_pure _
  · exact lands_bind (lands_parameter inner) fun _ => lands_iterate (lands_nextParameter inner) _

theorem lands_parameterList (inner : ∀ base, Lands tokens start (one base) (other base)) :
    Lands tokens start (parameterList one) (parameterList other) :=
  lands_bind (lands_parameters inner) fun _ => lands_bind (lands_expect _ _) fun _ => lands_pure _

/-- A group or parameter list uses declarators only behind its parenthesis. -/
theorem landsAt_parenthesized
    (inner : ∀ base, Lands tokens (start + 1) (one base) (other base)) (built : Declarator)
    {state : State} {token : Token} (current : tokens[state.cursor]? = some token)
    (opening : token.kind = .symbol .openParen) (low : start ≤ state.cursor) :
    LandsAt tokens start state (parenthesized one built) (parenthesized other built) := by
  refine landsAt_advance current (by simp [opening]) low ?_
  refine lands_bind (lands_check _) fun closed => lands_bind lands_isTypeName fun typed => ?_
  split
  · exact lands_bind (lands_parameterList inner) fun _ => lands_pure _
  · refine lands_bind (inner _) fun group => lands_bind (lands_expect _ _) fun _ => ?_
    split
    · exact lands_ofExcept _
    · exact lands_pure _

theorem lands_component (inner : ∀ base, Lands tokens (start + 1) (one base) (other base))
    (built : Declarator) {index : Nat} (low : start ≤ index) (high : index ≤ tokens.size) :
    Lands tokens start (component one built index) (component other built index) := by
  refine lands_bind (lands_seek low high) fun _ => lands_peek_bind fun token state current low => ?_
  split
  · exact (lands_bind (lands_arraySuffix _) fun _ => lands_pure _).here current low
  · next opening => exact landsAt_parenthesized inner built current opening low
  · exact (lands_ofExcept _).here current low
  · exact (lands_fail _).here current low

/-! ## Declarators -/

/-- Declarators inside a declarator stand behind a token. -/
theorem guarded_declaratorStep : Guarded declaratorStep := by
  intro one other tokens start inner base
  refine lands_bind (lands_baseType base) fun ty =>
    lands_bind (lands_iterate lands_pointer ty) fun ty =>
    lands_bind_of lands_scanComponents yields_scanComponents fun components between =>
    lands_bind_of lands_cursor yields_cursor fun stop inside => ?_
  refine lands_bind (lands_foldlM components (fun built index member => ?_) _) fun built =>
    lands_bind (lands_seek inside.1 inside.2) fun _ => lands_pure _
  exact lands_component inner built (between index member).1 (between index member).2

theorem lands_declaratorAround (base : Option Ty) :
    Lands tokens start (declaratorAround base) (declaratorAround base) :=
  lands_recurse guarded_declaratorStep base

theorem lands_declarator : Lands tokens start declarator declarator :=
  lands_declaratorAround none

/-- A declarator is what its step makes of declarators. -/
theorem declaratorAround_eq (base : Option Ty) {state : State}
    (within : state.cursor ≤ tokens.size) :
    declaratorAround base tokens state = declaratorStep declaratorAround base tokens state :=
  recurse_eq guarded_declaratorStep base within

end Parser

end MiniC
