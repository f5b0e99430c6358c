/-
# MiniC.Proofs.Agreement.Expression — declarators and expressions in scopes that agree

One lemma for each function of both grammars. Every name that is looked up stands at the token that
is looked at, the second pass over a declarator goes back to places that the first has noted, and a
declarator declares a name that it spells: `named_of_runs_declarator`.
-/
import MiniC.Proofs.Agreement
import MiniC.Proofs.Declarator.Soundness
import MiniC.Proofs.Safety.Declarator

namespace MiniC

set_option autoImplicit false

/-- What a phrase declares is a name at one of its tokens, which is told as its place. -/
theorem Spans.named {tokens : Array Token} {visible : String → Option Ty} {form : Form}
    {phrase : Phrase} {start stop : Nat} (spans : Spans tokens visible form phrase start stop) :
    match phrase with
    | .whole _ declared | .core _ declared =>
      ∀ name ∈ declared.name, ∃ index, start ≤ index ∧
        kindAt tokens index = some (.name name.name) ∧ name.position = placeAt tokens index
    | .entries _ => True := by
  induction spans with
  | star _ _ ih =>
    intro name member
    obtain ⟨index, low, here⟩ := ih name member
    exact ⟨index, Nat.le_of_succ_le low, here⟩
  | unstarred _ ih => exact ih
  | nothing => exact fun name member => nomatch member
  | name named =>
    intro name member
    cases member
    exact ⟨_, Nat.le_refl _, named, rfl⟩
  | group _ _ _ _ ih =>
    intro name member
    obtain ⟨index, low, here⟩ := ih name member
    exact ⟨index, Nat.le_of_succ_le low, here⟩
  | array _ _ _ _ _ ih => exact ih
  | emptyList _ _ _ ih => exact ih
  | list _ _ _ _ ih => exact ih
  | laterName rest named =>
    intro name member
    cases member
    exact ⟨_, rest.le, named, rfl⟩
  | @laterGroup base between ty inside outside start place stop rest _ _ _ _ _ ihRest ihInner =>
    intro name member
    cases outside with
    | none =>
      obtain ⟨index, low, here⟩ := ihInner name member
      exact ⟨index, Nat.le_trans rest.le (Nat.le_of_succ_le low), here⟩
    | some =>
      cases member
      exact ihRest _ rfl
  | stray _ _ ih => exact ih
  | last => trivial
  | more => trivial

namespace Parser

variable {tokens : Array Token} {start : Nat}

/-- What a declarator declares is a name at one of its tokens. -/
theorem named_of_runs_declarator {state after : State} {declared : Declarator}
    {name : DeclaredName} (run : Runs tokens declarator state declared after)
    (named : declared.name = some name) :
    ∃ index, state.cursor < index ∧ kindAt tokens index = some (.name name.name) ∧
      name.position = placeAt tokens index := by
  obtain ⟨⟨base, _, spans⟩, _⟩ := runs_declarator_iff.mp run
  exact spans.named name named

/-! ## Declarators -/

theorem indifferent_scanComponents : Indifferent tokens start scanComponents := by
  refine indifferent_bind (indifferent_iterate (fun scan => ?_) _) fun _ => indifferent_pure _
  refine indifferent_bind indifferent_peek fun token =>
    indifferent_bind indifferent_cursor fun index => ?_
  split
  · exact indifferent_pure _
  · exact indifferent_fail _
  · exact indifferent_bind indifferent_advance fun _ => indifferent_pure _

theorem indifferent_isTypeName : Indifferent tokens start isTypeName := by
  refine indifferent_peek_bind fun token spelled => ?_
  split
  · next name named =>
    exact indifferent_bind (indifferent_findType? (spelled name named)) fun _ => indifferent_pure _
  · exact indifferent_pure _

theorem indifferent_typeName : Indifferent tokens start typeName := by
  refine indifferent_peek_bind fun token spelled => ?_
  split
  · next name named =>
    refine indifferent_bind (indifferent_findType? (spelled name named)) fun found => ?_
    split
    · exact indifferent_bind indifferent_advance fun _ => indifferent_pure _
    · exact indifferent_fail _
  · exact indifferent_fail _

theorem indifferent_baseType (base : Option Ty) : Indifferent tokens start (baseType base) := by
  cases base with
  | none => exact indifferent_typeName
  | some ty => exact indifferent_pure ty

theorem indifferent_pointer (ty : Ty) : Indifferent tokens start (pointer ty) := by
  refine indifferent_bind indifferent_peek fun token =>
    indifferent_bind (indifferent_accept _) fun found => ?_
  split <;> exact indifferent_pure _

theorem indifferent_arraySuffix (element : Ty) :
    Indifferent tokens start (arraySuffix element) := by
  refine indifferent_bind indifferent_peek fun opening =>
    indifferent_bind (indifferent_expect _ _) fun _ => indifferent_bind indifferent_peek
    fun token => ?_
  split
  · split
    · exact indifferent_bind indifferent_advance fun _ =>
        indifferent_bind (indifferent_expect _ _) fun _ => indifferent_pure _
    · exact indifferent_fail _
  · exact indifferent_fail _

section Inside

variable {inner : Option Ty → Parser Declarator}
  (indifferent : ∀ base, Indifferent tokens start (inner base))

include indifferent

theorem indifferent_parameter : Indifferent tokens start (parameter inner) :=
  indifferent_bind indifferent_peek fun _ => indifferent_bind (indifferent none) fun _ =>
    indifferent_pure _

theorem indifferent_parameters : Indifferent tokens start (parameters inner) := by
  refine indifferent_bind (indifferent_check _) fun closed => ?_
  split
  · exact indifferent_pure _
  · refine indifferent_bind (indifferent_parameter indifferent) fun first =>
      indifferent_iterate (fun read => indifferent_bind (indifferent_accept _) fun found => ?_) _
    split
    · exact indifferent_bind (indifferent_parameter indifferent) fun _ => indifferent_pure _
    · exact indifferent_pure _

theorem indifferent_parenthesized (built : Declarator) :
    Indifferent tokens start (parenthesized inner built) := by
  refine indifferent_bind indifferent_advance fun opening =>
    indifferent_bind (indifferent_check _) fun closed =>
    indifferent_bind indifferent_isTypeName fun typed => ?_
  split
  · exact indifferent_bind (indifferent_bind (indifferent_parameters indifferent) fun _ =>
      indifferent_bind (indifferent_expect _ _) fun _ => indifferent_pure _) fun _ =>
      indifferent_pure _
  · refine indifferent_bind (indifferent _) fun group =>
      indifferent_bind (indifferent_expect _ _) fun _ => ?_
    split
    · exact indifferent_ofExcept _
    · exact indifferent_pure _

theorem indifferent_component (built : Declarator) {index : Nat} (low : start ≤ index) :
    Indifferent tokens start (component inner built index) := by
  refine indifferent_bind (indifferent_seek low) fun _ => indifferent_bind indifferent_peek
    fun token => ?_
  split
  · exact indifferent_bind (indifferent_arraySuffix _) fun _ => indifferent_pure _
  · exact indifferent_parenthesized indifferent built
  · exact indifferent_ofExcept _
  · exact indifferent_fail _

/-- The components and the end of a declarator lie behind its beginning. -/
theorem indifferent_declaratorStep (base : Option Ty) :
    Indifferent tokens start (declaratorStep inner base) := by
  refine indifferent_bind (indifferent_baseType base) fun ty =>
    indifferent_bind (indifferent_iterate indifferent_pointer ty) fun ty => ?_
  refine indifferent_bind_of (P := fun components => ∀ index ∈ components, start ≤ index)
    indifferent_scanComponents (fun state components after low run index member =>
      Nat.le_trans low (noted_of_runs run index member).1) fun components noted => ?_
  refine indifferent_bind_of (P := fun stop => start ≤ stop) indifferent_cursor
    (fun state stop after low run => (runs_cursor.mp run).1 ▸ low) fun stop low => ?_
  refine indifferent_bind (indifferent_foldlM components (fun built index member =>
    indifferent_component indifferent built (noted index member)) _) fun built => ?_
  exact indifferent_bind (indifferent_seek low) fun _ => indifferent_pure _

end Inside

theorem indifferent_declarator : Indifferent tokens start declarator :=
  indifferent_recurse (fun _ indifferent => indifferent_declaratorStep indifferent) none

/-! ## Operands -/

theorem indifferent_literal (value : Nat) (suggested : Option Ty) :
    Indifferent tokens start (literal value suggested) := by
  unfold literal
  split
  · exact indifferent_bind indifferent_advance fun _ => indifferent_pure _
  · exact indifferent_fail _

theorem indifferent_reference {spelling : String} (spelled : Spelled tokens start spelling) :
    Indifferent tokens start (reference spelling) := by
  refine indifferent_bind (indifferent_findValue? spelled) fun found => ?_
  split
  · exact indifferent_bind indifferent_advance fun _ => indifferent_pure _
  · exact indifferent_fail _

theorem indifferent_separator (index : Nat) : Indifferent tokens start (separator index) := by
  unfold separator
  split
  · exact indifferent_expect _ _
  · exact indifferent_pure _

section Inside

variable {inner : ExpressionParser}
  (indifferent : ∀ minimum suggested, Indifferent tokens start (inner minimum suggested))

include indifferent

theorem indifferent_cast (opening : Position) : Indifferent tokens start (cast inner opening) := by
  refine indifferent_bind indifferent_declarator fun declared => ?_
  split
  · exact indifferent_failAt _ _
  · refine indifferent_bind (indifferent_expect _ _) fun _ =>
      indifferent_bind (indifferent _ _) fun operand => ?_
    split
    · exact indifferent_pure _
    · exact indifferent_failAt _ _

theorem indifferent_grouped (suggested : Option Ty) :
    Indifferent tokens start (grouped inner suggested) := by
  refine indifferent_bind indifferent_advance fun opening =>
    indifferent_bind indifferent_isTypeName fun typed => ?_
  split
  · exact indifferent_cast indifferent _
  · exact indifferent_bind (indifferent _ _) fun _ =>
      indifferent_bind (indifferent_expect _ _) fun _ => indifferent_pure _

theorem indifferent_primary (suggested : Option Ty) :
    Indifferent tokens start (primary inner suggested) := by
  refine indifferent_peek_bind fun token spelled => ?_
  split
  · exact indifferent_literal _ _
  · next spelling named => exact indifferent_reference (spelled spelling named)
  · exact indifferent_grouped indifferent _
  · exact indifferent_fail _

/-! ## Calls -/

theorem indifferent_argumentsFrom (expected index : Nat) (parameters : List (Parameter Ty)) :
    Indifferent tokens start (argumentsFrom inner expected index parameters) := by
  induction parameters generalizing index with
  | nil => exact indifferent_pure _
  | cons parameter rest ih =>
    refine indifferent_bind (indifferent_check _) fun closed => ?_
    split
    · exact indifferent_fail _
    · refine indifferent_bind (indifferent_separator _) fun _ =>
        indifferent_bind (indifferent _ _) fun argument => ?_
      split
      · exact indifferent_bind (ih _) fun _ => indifferent_pure _
      · exact indifferent_failAt _ _

theorem indifferent_arguments (parameters : List (Parameter Ty)) :
    Indifferent tokens start (arguments inner parameters) := by
  refine indifferent_bind (indifferent_argumentsFrom indifferent _ _ _) fun read =>
    indifferent_bind (indifferent_check _) fun closed =>
    indifferent_bind (indifferent_check _) fun comma => ?_
  split
  · exact indifferent_fail _
  · exact indifferent_bind (indifferent_expect _ _) fun _ => indifferent_pure _

theorem indifferent_call (callee : Expression) : Indifferent tokens start (call inner callee) := by
  refine indifferent_bind (indifferent_check _) fun opening => ?_
  split
  · split
    · exact indifferent_bind indifferent_advance fun _ =>
        indifferent_bind (indifferent_arguments indifferent _) fun _ => indifferent_pure _
    · exact indifferent_fail _
  · exact indifferent_pure _

theorem indifferent_called (suggested : Option Ty) :
    Indifferent tokens start (called inner suggested) :=
  indifferent_bind (indifferent_primary indifferent suggested) fun _ =>
    indifferent_iterate (indifferent_call indifferent) _

/-! ## Operators -/

theorem indifferent_signed (operator : UnaryOperator) (suggested : Option Ty) :
    Indifferent tokens start (signed inner operator suggested) := by
  refine indifferent_bind indifferent_advance fun token =>
    indifferent_bind (indifferent _ _) fun operand => ?_
  split
  · exact indifferent_pure _
  · exact indifferent_failAt _ _

theorem indifferent_unary (suggested : Option Ty) :
    Indifferent tokens start (unary inner suggested) := by
  refine indifferent_bind indifferent_peek fun token => ?_
  split
  · exact indifferent_signed indifferent _ _
  · exact indifferent_called indifferent suggested

theorem indifferent_extended (minimum : Nat) (left : Expression) :
    Indifferent tokens start (extended inner minimum left) := by
  refine indifferent_bind indifferent_peek fun token => ?_
  split
  · split
    · exact indifferent_pure _
    · refine indifferent_bind indifferent_advance fun _ =>
        indifferent_bind (indifferent _ _) fun right => ?_
      split
      · exact indifferent_pure _
      · exact indifferent_failAt _ _
  · exact indifferent_pure _

theorem indifferent_climb (minimum : Nat) (suggested : Option Ty) :
    Indifferent tokens start (climb inner minimum suggested) :=
  indifferent_bind (indifferent_unary indifferent suggested) fun _ =>
    indifferent_iterate (indifferent_extended indifferent minimum) _

end Inside

theorem indifferent_expression (suggested : Option Ty) :
    Indifferent tokens start (expression suggested) :=
  indifferent_recurse (fun _ indifferent input =>
    indifferent_climb (fun minimum suggested => indifferent (minimum, suggested)) input.1 input.2)
    (0, suggested)

end Parser

end MiniC
