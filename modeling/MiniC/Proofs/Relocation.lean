/-
# MiniC.Proofs.Relocation — readings of the same tokens at other places

Two arrays are aligned if the second holds, from some index to its end, tokens of the same kinds as
the first at places that a one-to-one map tells. The parser reads them alike: where it begins with
the same in scope, up to places, it does the same, up to places, and ends with the same in scope.
It decides by kinds and by what names stand for, and it compares places only to tell instances of
types apart, which a one-to-one map keeps.

`Follows` says this of two parsers. It is kept by every way of putting parsers together:
`follows_bind`, `follows_iterate`, `follows_recurse`, `follows_foldlM`, `follows_inScope`.
-/
import MiniC.Parser.Recursion
import MiniC.Proofs.Relocation.Scopes

namespace MiniC

set_option autoImplicit false

/-- The tokens stand among others, `shift` further on and at places that `move` tells. -/
structure Alignment (tokens tokens' : Array Token) where
  move : Position → Position
  shift : Nat
  injective : Function.Injective move
  size_eq : tokens'.size = tokens.size + shift
  token : ∀ (index : Nat) (token : Token), tokens[index]? = some token →
    ∃ length, tokens'[index + shift]? = some ⟨token.kind, move token.position, length⟩

namespace Alignment

variable {tokens tokens' : Array Token} {α : Type}

/-- The state at the same token with the same in scope. -/
def state (along : Alignment tokens tokens') (state : State) : State :=
  ⟨state.cursor + along.shift, state.scopes.relocate along.move,
    state.returnType.map (Ty.relocate along.move)⟩

/-- The same result at the other places; `form` moves those of its value. -/
def result (along : Alignment tokens tokens') (form : α → α) :
    EStateM.Result CompileError State α → EStateM.Result CompileError State α
  | .ok value after => .ok (form value) (along.state after)
  | .error error after => .error (error.relocate along.move) (along.state after)

theorem token_eq_none (along : Alignment tokens tokens') {index : Nat}
    (outside : tokens[index]? = none) : tokens'[index + along.shift]? = none := by
  rw [Array.getElem?_eq_none_iff] at outside ⊢
  have := along.size_eq
  omega

end Alignment

namespace Parser

variable {tokens tokens' : Array Token} {ι σ α β : Type}

/-- The one parser does among the first tokens what the other does among the second. -/
def Follows (along : Alignment tokens tokens') (form : α → α) (parser parser' : Parser α) : Prop :=
  ∀ state, parser' tokens' (along.state state) = along.result form (parser tokens state)

variable {along : Alignment tokens tokens'} {form : α → α} {form' : β → β}

/-! ## Composition -/

theorem follows_pure (value : α) : Follows along form (pure value) (pure (form value)) :=
  fun _ => rfl

theorem follows_pure_of_eq {value value' : α} (moved : form value = value') :
    Follows along form (pure value) (pure value') :=
  moved ▸ follows_pure value

theorem follows_failAt {fault : Fault} (placed : fault.isPlaceless = false) (place : Position) :
    Follows along form (failAt fault place)
      (failAt (fault.relocate along.move) (along.move place)) := by
  intro state
  simp only [failAt, Alignment.result, CompileError.relocate, placed, Bool.false_eq_true, if_false]

theorem follows_bind {first first' : Parser α} {second second' : α → Parser β}
    (before : Follows along form first first')
    (behind : ∀ value, Follows along form' (second value) (second' (form value))) :
    Follows along form' (first >>= second) (first' >>= second') := by
  intro state
  rw [bind_apply, bind_apply, before state]
  rcases first tokens state with ⟨value, after⟩ | ⟨error, after⟩
  · exact behind value after
  · rfl

theorem follows_repeated {step step' : σ → Parser (Option σ)} {carry : σ → σ}
    (each : ∀ current, Follows along (Option.map carry) (step current) (step' (carry current)))
    (bound : Nat) (current : σ) :
    Follows along carry (repeated step bound current) (repeated step' bound (carry current)) := by
  induction bound generalizing current with
  | zero => exact fun _ => rfl
  | succ bound ih =>
    refine follows_bind (each current) fun next => ?_
    cases next with
    | none => exact follows_pure current
    | some next => exact ih next

theorem remaining_eq (along : Alignment tokens tokens') (state : State) :
    tokens'.size - (along.state state).cursor = tokens.size - state.cursor := by
  rw [along.size_eq]
  exact Nat.add_sub_add_right _ _ _

theorem follows_iterate {step step' : σ → Parser (Option σ)} {carry : σ → σ}
    (each : ∀ current, Follows along (Option.map carry) (step current) (step' (carry current)))
    (current : σ) :
    Follows along carry (iterate step current) (iterate step' (carry current)) := by
  intro state
  rw [iterate_apply, iterate_apply, remaining_eq]
  exact follows_repeated each _ current state

/-- Where uses of what is inside follow each other, so do the parsers that meet themselves. -/
theorem follows_recurse {body : (ι → Parser α) → ι → Parser α} {carry : ι → ι}
    (each : ∀ inner inner' : ι → Parser α,
      (∀ input, Follows along form (inner input) (inner' (carry input))) →
      ∀ input, Follows along form (body inner input) (body inner' (carry input)))
    (input : ι) : Follows along form (recurse body input) (recurse body (carry input)) := by
  intro state
  rw [recurse_apply, recurse_apply, remaining_eq]
  generalize tokens.size - state.cursor + 1 = bound
  induction bound generalizing input state with
  | zero => rfl
  | succ bound ih => exact each _ _ (fun input state => ih input state) input state

theorem follows_foldlM {step step' : β → ι → Parser β} {carry : ι → ι} (inputs : List ι)
    (each : ∀ current input, Follows along form' (step current input)
      (step' (form' current) (carry input))) (current : β) :
    Follows along form' (inputs.foldlM step current)
      ((inputs.map carry).foldlM step' (form' current)) := by
  induction inputs generalizing current with
  | nil => exact follows_pure current
  | cons input rest ih =>
    rw [List.map_cons, List.foldlM_cons, List.foldlM_cons]
    exact follows_bind (each current input) ih

theorem follows_mapM {step step' : ι → Parser β} {carry : ι → ι} (inputs : List ι)
    (each : ∀ input, Follows along form' (step input) (step' (carry input))) :
    Follows along (List.map form') (inputs.mapM step) ((inputs.map carry).mapM step') := by
  induction inputs with
  | nil => exact follows_pure []
  | cons input rest ih =>
    rw [List.map_cons, List.mapM_cons, List.mapM_cons]
    exact follows_bind (each input) fun value => follows_bind ih fun values =>
      follows_pure (value :: values)

theorem follows_forM {step step' : ι → Parser PUnit} {carry : ι → ι} (inputs : List ι)
    (each : ∀ input, Follows along id (step input) (step' (carry input))) :
    Follows along id (inputs.forM step) ((inputs.map carry).forM step') := by
  induction inputs with
  | nil => exact follows_pure _
  | cons input rest ih => exact follows_bind (each input) fun _ => ih

/-! ## The cursor -/

/-- Both look at tokens of one kind. -/
theorem follows_peek_bind {next next' : Token → Parser α}
    (behind : ∀ token length,
      Follows along form (next token) (next' ⟨token.kind, along.move token.position, length⟩)) :
    Follows along form (peek >>= next) (peek >>= next') := by
  intro state
  rw [bind_apply, bind_apply]
  rcases current : tokens[state.cursor]? with _ | token
  · have outside := along.token_eq_none current
    rw [peek, peek, current, show (along.state state).cursor = state.cursor + along.shift from rfl,
      outside]
    rfl
  · obtain ⟨length, there⟩ := along.token _ _ current
    replace there : tokens'[(along.state state).cursor]? = _ := there
    rw [peek_apply current, peek_apply there]
    exact behind token length state

theorem follows_cursor : Follows along (· + along.shift) cursor cursor :=
  fun _ => rfl

theorem follows_seek (index : Nat) : Follows along id (seek index) (seek (index + along.shift)) :=
  fun _ => rfl

theorem follows_advance_bind {next next' : Token → Parser α}
    (behind : ∀ token length,
      Follows along form (next token) (next' ⟨token.kind, along.move token.position, length⟩)) :
    Follows along form (advance >>= next) (advance >>= next') := by
  simp only [advance, bind_assoc]
  refine follows_peek_bind fun token length => ?_
  split
  · exact behind token length
  · simp only [bind_assoc, pure_bind]
    refine follows_bind follows_cursor fun index => ?_
    rw [Nat.add_right_comm]
    exact follows_bind (follows_seek (index + 1)) fun _ => behind token length

theorem follows_fail {fault : Fault} (placed : fault.isPlaceless = false) :
    Follows along form (fail fault) (fail (fault.relocate along.move)) :=
  follows_peek_bind fun _ _ => follows_failAt placed _

theorem follows_check (mark : Symbol) : Follows along id (check mark) (check mark) :=
  follows_peek_bind fun _ _ => follows_pure _

theorem follows_accept (mark : Symbol) : Follows along id (accept mark) (accept mark) := by
  refine follows_bind (follows_check mark) fun found => ?_
  cases found with
  | true => exact follows_advance_bind fun _ _ => follows_pure true
  | false => exact follows_pure false

theorem follows_expect (mark : Symbol) (place : Place) :
    Follows along id (expect mark place) (expect mark place) := by
  refine follows_bind (follows_accept mark) fun found => ?_
  cases found with
  | true => exact follows_pure ()
  | false => exact follows_peek_bind fun _ _ => follows_fail rfl

/-! ## Scopes and the enclosing function -/

theorem follows_findType? (name : String) :
    Follows along (Option.map (Ty.relocate along.move)) (findType? name) (findType? name) := by
  intro state
  exact congrArg (EStateM.Result.ok · _) (state.scopes.findType?_relocate name)

theorem follows_findValue? (name : String) :
    Follows along (Option.map (Declaration.relocate along.move)) (findValue? name)
      (findValue? name) := by
  intro state
  exact congrArg (EStateM.Result.ok · _) (state.scopes.findValue?_relocate name)

theorem follows_depth : Follows along id depth depth := by
  intro state
  exact congrArg (EStateM.Result.ok · _) state.scopes.depth_relocate

theorem follows_declare (declaration : Declaration) :
    Follows along id (declare declaration) (declare (declaration.relocate along.move)) := by
  intro state
  have same := @Scopes.declare_relocate along.move state.scopes declaration
  simp only [declare, Alignment.state, same]
  rcases state.scopes.declare declaration with error | scopes <;> rfl

theorem follows_define (name : String) (ty : Ty) (place : Position) :
    Follows along id (define name ty place)
      (define name (ty.relocate along.move) (along.move place)) := by
  intro state
  have same := @Scopes.define_relocate along.move state.scopes name ty place
  simp only [define, Alignment.state, same]
  rcases state.scopes.define name ty place with error | scopes <;> rfl

theorem follows_inScope {inner inner' : Parser α} (follows : Follows along form inner inner') :
    Follows along form (inScope inner) (inScope inner') := by
  intro state
  have inside := follows { state with scopes := state.scopes.push }
  simp only [Alignment.state, Scopes.relocate_push] at inside
  simp only [inScope, Alignment.state, inside]
  rcases inner tokens { state with scopes := state.scopes.push } with
      ⟨value, after⟩ | ⟨error, after⟩ <;>
    simp only [Alignment.result, Alignment.state, Scopes.relocate_pop]

theorem follows_returnType :
    Follows along (Option.map (Ty.relocate along.move)) returnType returnType :=
  fun _ => rfl

theorem follows_returning {inner inner' : Parser α} (ty : Ty)
    (follows : Follows along form inner inner') :
    Follows along form (returning ty inner) (returning (ty.relocate along.move) inner') := by
  intro state
  have inside := follows { state with returnType := some ty }
  simp only [Alignment.state, Option.map_some] at inside
  simp only [returning, Alignment.state, inside]
  rcases inner tokens { state with returnType := some ty } with
      ⟨value, after⟩ | ⟨error, after⟩ <;> rfl

end Parser

end MiniC
