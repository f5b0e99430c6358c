/-
# MiniC.Proofs.Suggestion — what a suggested type decides

A suggestion is handed on to the literal at the head of an expression: through groups, signs and
leftmost operands, but not through `&`, `*` or a cast, and not to the right operand of an operator
or to an argument, which have suggestions of their own. All that is done with it there is to give
the literal a type, if it is an integer type.

So a better suggestion settles at most what failed for want of one. `Settles` says this of two
parsers, for a suggestion that is better and for one that counts for as much (`Sharpens`).
`suggestion_decides` puts it together:

* a suggestion that is no integer type is none,
* what is read without a suggestion is read alike with any,
* and an error other than that of a literal without a type stays with any.
-/
import MiniC.Parser.Expression
import MiniC.Proofs.Lexed
import MiniC.Proofs.Success
import MiniC.Source

namespace MiniC.Parser

set_option autoImplicit false

variable {α β : Type} {tokens : Array Token} {better : Prop}

/-- The other suggestion counts for as much as the one, or, if it may be better, the one counts for
nothing. -/
def Sharpens (better : Prop) (one other : Option Ty) : Prop :=
  other.filter Ty.isInteger = one.filter Ty.isInteger ∨ better ∧ one.filter Ty.isInteger = none

theorem Sharpens.refl (suggested : Option Ty) : Sharpens better suggested suggested :=
  .inl rfl

/-- From every state both do the same, unless the other may be better and the one fails at a literal
without a type. -/
def Settles (tokens : Array Token) (better : Prop) (one other : Parser α) : Prop :=
  ∀ state, other tokens state = one tokens state ∨
    better ∧ ∃ error after, one tokens state = .error error after ∧ error.fault = .ambiguousLiteral

/-! ## Composition -/

theorem Settles.refl (parser : Parser α) : Settles tokens better parser parser :=
  fun _ => .inl rfl

/-- What goes on where the first parts stop goes on alike. -/
theorem settles_bind_left {first first' : Parser α} (second : α → Parser β)
    (before : Settles tokens better first first') :
    Settles tokens better (first >>= second) (first' >>= second) := by
  intro state
  simp only [bind_apply]
  rcases before state with same | ⟨allowed, error, after, failed, fault⟩
  · exact .inl (by rw [same])
  · exact .inr ⟨allowed, error, after, by rw [failed], fault⟩

theorem settles_bind_right (first : Parser α) {second second' : α → Parser β}
    (behind : ∀ value, Settles tokens better (second value) (second' value)) :
    Settles tokens better (first >>= second) (first >>= second') := by
  intro state
  simp only [bind_apply]
  rcases first tokens state with ⟨value, after⟩ | ⟨error, after⟩
  · exact behind value after
  · exact .inl rfl

/-! ## Where a suggestion goes -/

/-- A literal is where a suggestion counts. -/
theorem settles_literal {one other : Option Ty} (sharpens : Sharpens better one other)
    (value : Nat) : Settles tokens better (literal value one) (literal value other) := by
  unfold literal
  rcases sharpens with same | ⟨allowed, nothing⟩
  · rw [same]
    exact .refl _
  · intro state
    rw [nothing]
    rcases here : tokens[state.cursor]? with _ | token
    · -- Without a token both fail for that.
      left
      rcases other.filter Ty.isInteger with _ | ty <;> simp [advance, fail, bind_apply, peek, here]
    · exact .inr ⟨allowed, _, _, fail_apply _ here, rfl⟩

section Inside

variable {inner : ExpressionParser}
  (settles : ∀ minimum one other, Sharpens better one other →
    Settles tokens better (inner minimum one) (inner minimum other))
  {one other : Option Ty} (sharpens : Sharpens better one other)

include settles sharpens

/-- A group hands the suggestion on, a cast does not. -/
theorem settles_grouped : Settles tokens better (grouped inner one) (grouped inner other) := by
  refine settles_bind_right _ fun opening => settles_bind_right _ fun typed => ?_
  split
  · exact .refl _
  · exact settles_bind_left _ (settles 0 one other sharpens)

theorem settles_primary : Settles tokens better (primary inner one) (primary inner other) := by
  refine settles_bind_right _ fun token => ?_
  split
  · exact settles_literal sharpens _
  · exact .refl _
  · exact settles_grouped settles sharpens
  · exact .refl _

/-- Signs hand the suggestion on, `&` and `*` drop it. -/
theorem settles_signed (operator : UnaryOperator) :
    Settles tokens better (signed inner operator one) (signed inner operator other) := by
  have operand : Sharpens better (if operator.isSign then one else none)
      (if operator.isSign then other else none) := by
    split
    · exact sharpens
    · exact .refl none
  exact settles_bind_right _ fun token => settles_bind_left _ (settles unaryPrecedence _ _ operand)

theorem settles_unary : Settles tokens better (unary inner one) (unary inner other) := by
  refine settles_bind_right _ fun token => ?_
  split
  · exact settles_signed settles sharpens _
  · exact settles_bind_left _ (settles_primary settles sharpens)

theorem settles_climb (minimum : Nat) :
    Settles tokens better (climb inner minimum one) (climb inner minimum other) :=
  settles_bind_left _ (settles_unary settles sharpens)

end Inside

/-! ## Expressions -/

theorem settles_expressionAbove {one other : Option Ty} (sharpens : Sharpens better one other)
    (minimum : Nat) :
    Settles tokens better (expressionAbove minimum one) (expressionAbove minimum other) := by
  intro state
  simp only [expressionAbove, recurse_apply]
  generalize tokens.size - state.cursor + 1 = bound
  -- The induction is on the bound, which the suggestion has no part in.
  induction bound generalizing minimum one other state with
  | zero => exact .inl rfl
  | succ bound ih =>
    exact settles_climb (fun minimum one other sharpens state => ih sharpens minimum state)
      sharpens minimum state

/-- A suggestion that is no integer type counts for nothing. -/
theorem expressionAbove_eq_of_not_integer {ty : Ty} (other : ty.isInteger = false) (minimum : Nat)
    (state : State) :
    expressionAbove minimum (some ty) tokens state = expressionAbove minimum none tokens state := by
  have counts : Sharpens False none (some ty) := .inl (by simp [other])
  exact (settles_expressionAbove counts minimum state).resolve_right (·.1)

/-- What comes of an expression without a suggestion comes of it with any, unless a literal was left
without a type. -/
theorem expressionAbove_eq_or_ambiguous (suggested : Option Ty) (minimum : Nat) (state : State) :
    expressionAbove minimum suggested tokens state = expressionAbove minimum none tokens state ∨
      ∃ error after, expressionAbove minimum none tokens state = .error error after ∧
        error.fault = .ambiguousLiteral := by
  have sharpens : Sharpens True none suggested := .inr ⟨trivial, rfl⟩
  exact (settles_expressionAbove sharpens minimum state).imp_right (·.2)

/-- A literal at the head of an expression is all that a suggestion decides. -/
theorem suggestion_decides (tokens : Array Token) (state : State) (minimum : Nat) (ty : Ty) :
    (ty.isInteger = false →
      expressionAbove minimum (some ty) tokens state = expressionAbove minimum none tokens state) ∧
    (∀ value after, expressionAbove minimum none tokens state = .ok value after →
      expressionAbove minimum (some ty) tokens state = .ok value after) ∧
    (∀ error after, expressionAbove minimum none tokens state = .error error after →
      error.message ≠ "Ambiguous type for integer literal" →
      expressionAbove minimum (some ty) tokens state = .error error after) := by
  refine ⟨fun other => expressionAbove_eq_of_not_integer other minimum state, ?_, ?_⟩
  · intro value after read
    rcases expressionAbove_eq_or_ambiguous (some ty) minimum state with same | ⟨_, _, failed, _⟩
    · rw [same, read]
    · rw [read] at failed
      cases failed
  · intro error after read unambiguous
    rcases expressionAbove_eq_or_ambiguous (some ty) minimum state with
      same | ⟨_, _, failed, fault⟩
    · rw [same, read]
    · rw [read] at failed
      cases failed
      exact absurd (congrArg Fault.message fault) unambiguous

/-- Besides the built-in types, `x` is known as a value of type `int32`. -/
theorem suggestion_decides_names :
    let int32 := Ty.builtin (.integer 32 true)
    let int8 := Ty.builtin (.integer 8 true)
    let state : State := ⟨0, { Scopes.root Ty.builtins with
      values := [[("x", ⟨"x", int32, Position.start⟩)]] }, none⟩
    ∃ number sum unknown value afterSum error afterUnknown,
      tokensOf "1" = .ok number ∧ tokensOf "x - 1" = .ok sum ∧ tokensOf "-y + 1" = .ok unknown ∧
      Ty.bool.isInteger = false ∧
      expressionAbove 0 (some Ty.bool) number.toArray state =
        expressionAbove 0 none number.toArray state ∧
      expressionAbove 2 none sum.toArray state = .ok value afterSum ∧
      expressionAbove 2 (some int8) sum.toArray state = .ok value afterSum ∧
      expressionAbove 0 none unknown.toArray state = .error error afterUnknown ∧
      error.message ≠ "Ambiguous type for integer literal" ∧
      expressionAbove 0 (some int8) unknown.toArray state = .error error afterUnknown := by
  intro int32 int8 state
  have lexed : ((tokensOf "1").toOption.map fun _ => ()) = some () := by decide +kernel
  have summed : ((tokensOf "x - 1").toOption.map fun tokens =>
      match expressionAbove 2 none tokens.toArray state with
      | .ok .. => true
      | .error .. => false) = some true := by decide +kernel
  have missing : ((tokensOf "-y + 1").toOption.map fun tokens =>
      match expressionAbove 0 none tokens.toArray state with
      | .ok .. => none
      | .error error _ => some error.message) = some (some "Unable to find name 'y'") := by
    decide +kernel
  obtain ⟨number, lexedNumber, _⟩ := exists_ok_of_map_eq_some lexed
  obtain ⟨sum, lexedSum, summed⟩ := exists_ok_of_map_eq_some summed
  obtain ⟨unknown, lexedUnknown, missing⟩ := exists_ok_of_map_eq_some missing
  rcases readSum : expressionAbove 2 none sum.toArray state with
    ⟨value, afterSum⟩ | ⟨_, _⟩
  · rcases readUnknown : expressionAbove 0 none unknown.toArray state with
      ⟨_, _⟩ | ⟨error, afterUnknown⟩
    · rw [readUnknown] at missing
      cases missing
    · rw [readUnknown] at missing
      have told : error.message ≠ "Ambiguous type for integer literal" := by
        rw [Option.some.inj missing]
        decide
      exact ⟨number, sum, unknown, value, afterSum, error, afterUnknown, lexedNumber, lexedSum,
        lexedUnknown, rfl, (suggestion_decides number.toArray state 0 Ty.bool).1 rfl, readSum,
        (suggestion_decides sum.toArray state 2 int8).2.1 value afterSum readSum, readUnknown, told,
        (suggestion_decides unknown.toArray state 0 int8).2.2 error afterUnknown readUnknown told⟩
  · rw [readSum] at summed
    cases summed

end MiniC.Parser
