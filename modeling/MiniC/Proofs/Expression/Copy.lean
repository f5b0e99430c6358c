/-
# MiniC.Proofs.Expression.Copy — the same expression elsewhere

Where the tokens of an expression are repeated, and the same is in scope, an expression stands that
is the same apart from places: `Derives.copied`. It need not be read under the same suggestion. One
that is the same apart from places does as well, and so does any where none was needed.
-/
import MiniC.Proofs.Declarator.Copy
import MiniC.Proofs.Expression.Grammar

namespace MiniC

set_option autoImplicit false

variable {tokens tokens' : Array Token} {scopes : Scopes}

/-! ## Suggestions -/

/-- A literal that takes its type from the one suggestion takes the same from the other. -/
def Supports (one other : Option Ty) : Prop :=
  ∀ ty, one.filter Ty.isInteger = some ty → other.filter Ty.isInteger = some ty

theorem Supports.refl (suggested : Option Ty) : Supports suggested suggested :=
  fun _ found => found

theorem supports_none (suggested : Option Ty) : Supports none suggested :=
  nofun

theorem supports_of_unplaced {one other : Ty} (same : other.unplaced = one.unplaced) :
    Supports (some one) (some other) := by
  intro ty found
  obtain ⟨rfl, integer⟩ := Option.filter_eq_some_iff.mp found |>.imp_left Option.some.inj
  rw [Ty.eq_of_unplaced same integer, found]

/-! ## Phrases -/

/-- Among the other tokens the same phrase, apart from places, stands from `start` up to `stop`. -/
def Reading.Copied (tokens' : Array Token) (scopes : Scopes) (start stop : Nat) : Reading → Prop
  | above minimum suggested value => ∀ suggested', Supports suggested suggested' →
    ∃ value' : Expression, value'.unplaced = value.unplaced ∧
      Derives tokens' scopes (.above minimum suggested' value') start stop
  | single suggested value => ∀ suggested', Supports suggested suggested' →
    ∃ value' : Expression, value'.unplaced = value.unplaced ∧
      Derives tokens' scopes (.single suggested' value') start stop
  | called suggested value => ∀ suggested', Supports suggested suggested' →
    ∃ value' : Expression, value'.unplaced = value.unplaced ∧
      Derives tokens' scopes (.called suggested' value') start stop
  | arguments parameters values => ∀ parameters' : List (Parameter Ty),
    parameters'.map Parameter.unplaced = parameters.map Parameter.unplaced →
    ∃ values' : List Expression,
      values'.map Expression.unplaced = values.map Expression.unplaced ∧
      Derives tokens' scopes (.arguments parameters' values') start stop
  | further parameters values => ∀ parameters' : List (Parameter Ty),
    parameters'.map Parameter.unplaced = parameters.map Parameter.unplaced →
    ∃ values' : List Expression,
      values'.map Expression.unplaced = values.map Expression.unplaced ∧
      Derives tokens' scopes (.further parameters' values') start stop

/-- A parameter list that is the same apart from places begins with such a parameter. -/
theorem exists_cons_of_unplaced {parameter : Parameter Ty} {rest parameters : List (Parameter Ty)}
    (same : parameters.map Parameter.unplaced = (parameter :: rest).map Parameter.unplaced) :
    ∃ parameter' rest', parameters = parameter' :: rest' ∧
      parameter'.ty.unplaced = parameter.ty.unplaced ∧
      rest'.map Parameter.unplaced = rest.map Parameter.unplaced := by
  obtain ⟨parameter', rest', rfl, first, others⟩ := List.map_eq_cons_iff.mp same
  exact ⟨parameter', rest', rfl, congrArg Parameter.ty first, others⟩

/-- An expression is one wherever its tokens are repeated. -/
theorem Derives.copied {reading : Reading} {move : Nat → Nat} {start stop : Nat}
    (derives : Derives tokens scopes reading start stop)
    (copies : Copies tokens tokens' move start stop) :
    reading.Copied tokens' scopes (move start) (move stop) := by
  induction derives with
  | @literal _ _ _ start here typed =>
    intro suggested' supports
    rw [copies.add start 1 (Nat.le_refl _)]
    exact ⟨_, by simp [Expression.unplaced],
      .literal (copies.kindAt (Nat.le_refl _) (Nat.lt_succ_self _) here) (supports _ typed)⟩
  | @name _ _ _ start here known =>
    intro suggested' _
    rw [copies.add start 1 (Nat.le_refl _)]
    exact ⟨_, by simp [Expression.unplaced],
      .name (copies.kindAt (Nat.le_refl _) (Nat.lt_succ_self _) here) known⟩
  | @group _ _ start stop opening untyped inner closing ih =>
    have further := inner.le
    intro suggested' supports
    obtain ⟨value', same, derives⟩ := ih (copies.mono (by omega) (by omega)) suggested' supports
    have untyped' : ¬∃ ty, NamesType tokens' scopes.findType? (move start + 1) ty := by
      rw [← copies.add start 1 (Nat.le_refl _)]
      rintro ⟨ty, typed⟩
      exact untyped ⟨ty, (copies.namesType_iff (by omega) (by omega)).mp typed⟩
    rw [copies.add start 1 (Nat.le_refl _)] at derives
    rw [copies.add stop 1 (by omega)]
    exact ⟨value', same, .group (copies.kindAt (Nat.le_refl _) (by omega) opening) untyped' derives
      (copies.kindAt (by omega) (by omega) closing)⟩
  | @call _ _ _ _ _ start place stop before opening callable inside closing ih ihInside =>
    have further := before.le
    have furtherOn := inside.le
    intro suggested' supports
    obtain ⟨callee', same, callee⟩ := ih (copies.mono (by omega) (by omega)) suggested' supports
    obtain ⟨result', parameters', callable', sameResult, sameParameters⟩ :=
      Ty.signature?_of_unplaced (Expression.ty_of_unplaced same) callable
    obtain ⟨values', sameValues, values⟩ :=
      ihInside (copies.mono (by omega) (by omega)) parameters' sameParameters
    rw [copies.add place 1 further] at values
    rw [copies.add stop 1 (by omega)]
    exact ⟨_, by simp [same, sameResult, sameValues],
      .call callee (copies.kindAt further (by omega) opening) callable' values
        (copies.kindAt (by omega) (by omega) closing)⟩
  | noArgument =>
    intro parameters' same
    obtain rfl := List.map_eq_nil_iff.mp same
    exact ⟨[], rfl, .noArgument⟩
  | @firstArgument parameter _ _ _ start place stop first fits others ih ihOthers =>
    have further := first.le
    have furtherOn := others.le
    intro parameters' same
    obtain ⟨parameter', rest', rfl, sameTy, sameRest⟩ := exists_cons_of_unplaced same
    obtain ⟨value', sameValue, value⟩ :=
      ih (copies.mono (by omega) (by omega)) _ (supports_of_unplaced sameTy)
    obtain ⟨values', sameValues, values⟩ :=
      ihOthers (copies.mono (by omega) (by omega)) rest' sameRest
    rw [← Ty.compatible_eq_of_unplaced (Expression.ty_of_unplaced sameValue) sameTy] at fits
    exact ⟨value' :: values', by simp [sameValue, sameValues], .firstArgument value fits values⟩
  | noFurther =>
    intro parameters' same
    obtain rfl := List.map_eq_nil_iff.mp same
    exact ⟨[], rfl, .noFurther⟩
  | @nextArgument parameter _ _ _ start place stop comma next fits others ih ihOthers =>
    have further := next.le
    have furtherOn := others.le
    intro parameters' same
    obtain ⟨parameter', rest', rfl, sameTy, sameRest⟩ := exists_cons_of_unplaced same
    obtain ⟨value', sameValue, value⟩ :=
      ih (copies.mono (by omega) (by omega)) _ (supports_of_unplaced sameTy)
    obtain ⟨values', sameValues, values⟩ :=
      ihOthers (copies.mono (by omega) (by omega)) rest' sameRest
    rw [← Ty.compatible_eq_of_unplaced (Expression.ty_of_unplaced sameValue) sameTy] at fits
    rw [copies.add start 1 (Nat.le_refl _)] at value
    exact ⟨value' :: values', by simp [sameValue, sameValues],
      .nextArgument (copies.kindAt (Nat.le_refl _) (by omega) comma) value fits values⟩
  | called _ ih =>
    intro suggested' supports
    obtain ⟨value', same, derives⟩ := ih copies suggested' supports
    exact ⟨value', same, .called derives⟩
  | @cast _ base ty _ start place stop opening typed declares closing operand fits ih =>
    have further := declares.le
    have furtherOn := operand.le
    intro suggested' _
    obtain ⟨⟨ty', name'⟩, sameDeclared, spans⟩ :=
      declares.copied (copies.mono (by omega) (by omega)) base rfl
    obtain rfl : name' = none := Declarator.name_eq_none_of_unplaced sameDeclared rfl
    have sameTy : ty'.unplaced = ty.unplaced := congrArg Declarator.ty sameDeclared
    obtain ⟨value', same, value⟩ :=
      ih (copies.mono (by omega) (by omega)) _ (supports_of_unplaced sameTy)
    have sameOperand := Expression.ty_of_unplaced same
    rw [← Ty.sameShape_eq_of_unplaced sameTy sameOperand,
      ← Ty.size_beq_of_unplaced sameTy sameOperand] at fits
    have typed' := (copies.namesType_iff (by omega) (by omega)).mpr typed
    rw [copies.add start 1 (Nat.le_refl _)] at typed'
    rw [copies.add start 2 (Nat.le_refl _)] at spans
    rw [copies.add place 1 (by omega)] at value
    exact ⟨_, by simp [Expression.unplaced, sameTy, same],
      .cast (copies.kindAt (Nat.le_refl _) (by omega) opening) typed' spans
        (copies.kindAt (by omega) (by omega) closing) value fits⟩
  | @unary suggested operator _ _ start stop mark operand typed ih =>
    have further := operand.le
    intro suggested' supports
    have handed : Supports (if operator.isSign then suggested else none)
        (if operator.isSign then suggested' else none) := by
      split
      · exact supports
      · exact .refl none
    obtain ⟨value', same, value⟩ := ih (copies.mono (by omega) (by omega)) _ handed
    obtain ⟨ty', typed', sameTy⟩ :=
      UnaryOperator.result?_of_unplaced (Expression.ty_of_unplaced same) typed
    rw [copies.add start 1 (Nat.le_refl _)] at value
    exact ⟨_, by simp [Expression.unplaced, sameTy, same],
      .unary (copies.kindAt (Nat.le_refl _) (by omega) mark) value typed'⟩
  | operand _ ih =>
    intro suggested' supports
    obtain ⟨value', same, derives⟩ := ih copies suggested' supports
    exact ⟨value', same, .operand derives⟩
  | @binary _ _ operator ty left right start place stop tight before mark behind typed ih
      ihBehind =>
    have further := before.le
    have furtherOn := behind.le
    intro suggested' supports
    obtain ⟨left', sameLeft, leftDerives⟩ :=
      ih (copies.mono (by omega) (by omega)) suggested' supports
    have sameTys := Expression.ty_of_unplaced sameLeft
    obtain ⟨right', sameRight, rightDerives⟩ :=
      ihBehind (copies.mono (by omega) (by omega)) _ (supports_of_unplaced sameTys)
    obtain ⟨ty', typed', sameTy⟩ := Option.map_eq_some_iff.mp
      ((BinaryOperator.result?_of_unplaced sameTys (Expression.ty_of_unplaced sameRight)).trans
        (congrArg (Option.map Ty.unplaced) typed))
    rw [copies.add place 1 further] at rightDerives
    exact ⟨_, by simp [Expression.unplaced, sameTy, sameLeft, sameRight],
      .binary tight leftDerives (copies.kindAt further (by omega) mark) rightDerives typed'⟩

end MiniC
