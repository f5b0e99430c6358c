/-
# MiniC.Parser.Progress — parsers that keep among the tokens

How parsers that land compose. From a place on, a sequence, a repetition or a scope of such parsers
keeps the cursor at or behind that place and among the tokens, and two readings that differ only in
what they use behind further tokens do the same.

* `lands_bind`, `lands_iterate`, `lands_foldlM`, `lands_inScope` — composition.
* `Yields` — what holds of the value that a parser yields; `lands_bind_of` hands it on.
* `landsAt_advance`, `lands_expect_bind` — what follows a token may be known from the next place on
  only. This is what makes a grammar guarded.
-/
import MiniC.Parser.Recursion

namespace MiniC.Parser

set_option autoImplicit false

variable {ι σ α β : Type} {tokens : Array Token} {start : Nat}

/-! ## Composition -/

theorem lands_pure (value : α) : Lands tokens start (pure value) (pure value) :=
  fun _ low high => ⟨rfl, low, high⟩

theorem lands_bind {first first' : Parser α} {second second' : α → Parser β}
    (before : Lands tokens start first first')
    (behind : ∀ value, Lands tokens start (second value) (second' value)) :
    Lands tokens start (first >>= second) (first' >>= second') := by
  intro state low high
  obtain ⟨same, low', high'⟩ := before state low high
  rcases result : first tokens state with ⟨value, after⟩ | ⟨error, after⟩
  · rw [result] at same low' high'
    exact (behind value after low' high').of_eq (by rw [bind_apply, result])
      (by rw [bind_apply, ← same])
  · rw [result] at same low' high'
    constructor <;> rw [bind_apply, result]
    · rw [bind_apply, ← same]
    · exact low'
    · exact high'

/-- Whenever the parser begins from `start` on, `P` holds of what it yields. -/
def Yields (tokens : Array Token) (start : Nat) (parser : Parser α) (P : α → Prop) : Prop :=
  ∀ (state after : State) (value : α), start ≤ state.cursor → state.cursor ≤ tokens.size →
    parser tokens state = .ok value after → P value

/-- What follows may count on what holds of the value. -/
theorem lands_bind_of {first : Parser α} {second second' : α → Parser β} {P : α → Prop}
    (before : Lands tokens start first first) (yields : Yields tokens start first P)
    (behind : ∀ value, P value → Lands tokens start (second value) (second' value)) :
    Lands tokens start (first >>= second) (first >>= second') := by
  intro state low high
  obtain ⟨same, low', high'⟩ := before state low high
  rcases result : first tokens state with ⟨value, after⟩ | ⟨error, after⟩
  · rw [result] at low' high'
    exact (behind value (yields state after value low high result) after low' high').of_eq
      (by rw [bind_apply, result]) (by rw [bind_apply, result])
  · rw [result] at low' high'
    have run : ∀ next : α → Parser β, (first >>= next) tokens state = .error error after := by
      intro next
      rw [bind_apply, result]
    exact ⟨by rw [run, run], by rwa [run], by rwa [run]⟩

/-- What holds of the input of every turn holds of the outcome. -/
theorem yields_iterate {step : σ → Parser (Option σ)} {P : σ → Prop}
    (each : ∀ current, Lands tokens start (step current) (step current))
    (keeps : ∀ current, P current →
      Yields tokens start (step current) fun next => ∀ found ∈ next, P found)
    {current : σ} (first : P current) : Yields tokens start (iterate step current) P := by
  have bounded : ∀ (bound : Nat) (current : σ), P current →
      Yields tokens start (repeated step bound current) P := by
    intro bound
    induction bound with
    | zero => intro current _ state after value _ _ result; cases result
    | succ bound ih =>
      intro current holds state after value low high result
      rw [repeated_succ] at result
      obtain ⟨_, low', high'⟩ := each current state low high
      rcases turn : step current tokens state with ⟨_ | next, middle⟩ | ⟨error, middle⟩
      · simp only [turn, EStateM.Result.ok.injEq] at result
        exact result.1 ▸ holds
      · rw [turn] at low' high'
        simp only [turn] at result
        exact ih next (keeps current holds state middle _ low high turn next rfl) middle after value
          low' high' result
      · simp [turn] at result
  intro state after value low high result
  exact bounded _ current first state after value low high result

theorem lands_repeated {step step' : σ → Parser (Option σ)}
    (each : ∀ current, Lands tokens start (step current) (step' current)) (bound : Nat)
    (current : σ) :
    Lands tokens start (repeated step bound current) (repeated step' bound current) := by
  induction bound generalizing current with
  | zero => exact lands_failAt _ _
  | succ bound ih =>
    refine lands_bind (each current) fun next => ?_
    cases next with
    | some next => exact ih next
    | none => exact lands_pure _

theorem lands_iterate {step step' : σ → Parser (Option σ)}
    (each : ∀ current, Lands tokens start (step current) (step' current)) (current : σ) :
    Lands tokens start (iterate step current) (iterate step' current) :=
  fun state low high =>
    (lands_repeated each (tokens.size - state.cursor + 1) current state low high).of_eq rfl rfl

theorem lands_foldlM {step step' : β → ι → Parser β} (inputs : List ι)
    (each : ∀ current, ∀ input ∈ inputs, Lands tokens start (step current input)
      (step' current input)) (current : β) :
    Lands tokens start (inputs.foldlM step current) (inputs.foldlM step' current) := by
  induction inputs generalizing current with
  | nil => exact lands_pure _
  | cons input rest ih =>
    simp only [List.foldlM_cons]
    exact lands_bind (each current input (by simp)) fun next =>
      ih (fun current input member => each current input (by simp [member])) next

theorem lands_mapM {step step' : ι → Parser β} (inputs : List ι)
    (each : ∀ input ∈ inputs, Lands tokens start (step input) (step' input)) :
    Lands tokens start (inputs.mapM step) (inputs.mapM step') := by
  induction inputs with
  | nil => exact lands_pure _
  | cons input rest ih =>
    simp only [List.mapM_cons]
    exact lands_bind (each input (by simp)) fun _ =>
      lands_bind (ih fun input member => each input (by simp [member])) fun _ => lands_pure _

theorem lands_forM {step step' : ι → Parser PUnit} (inputs : List ι)
    (each : ∀ input ∈ inputs, Lands tokens start (step input) (step' input)) :
    Lands tokens start (inputs.forM step) (inputs.forM step') := by
  induction inputs with
  | nil => exact lands_pure _
  | cons input rest ih =>
    exact lands_bind (each input (by simp)) fun _ =>
      ih fun input member => each input (by simp [member])

theorem lands_inScope {inner inner' : Parser α} (lands : Lands tokens start inner inner') :
    Lands tokens start (inScope inner) (inScope inner') := by
  intro state low high
  obtain ⟨same, low', high'⟩ := lands { state with scopes := state.scopes.push } low high
  rcases result : inner tokens { state with scopes := state.scopes.push } with
      ⟨value, after⟩ | ⟨error, after⟩ <;>
    rw [result] at same low' high' <;>
    constructor <;> simp only [inScope, result, ← same] <;> assumption

theorem lands_returning {inner inner' : Parser α} (ty : Ty)
    (lands : Lands tokens start inner inner') :
    Lands tokens start (returning ty inner) (returning ty inner') := by
  intro state low high
  obtain ⟨same, low', high'⟩ := lands { state with returnType := some ty } low high
  rcases result : inner tokens { state with returnType := some ty } with
      ⟨value, after⟩ | ⟨error, after⟩ <;>
    rw [result] at same low' high' <;>
    constructor <;> simp only [returning, result, ← same] <;> assumption

/-! ## The cursor -/

theorem lands_peek : Lands tokens start peek peek := by
  intro state low high
  refine ⟨rfl, ?_, ?_⟩ <;> unfold peek <;> split <;> assumption

theorem lands_cursor : Lands tokens start cursor cursor :=
  fun _ low high => ⟨rfl, low, high⟩

theorem yields_cursor :
    Yields tokens start cursor fun index => start ≤ index ∧ index ≤ tokens.size := by
  intro state after value low high result
  cases result
  exact ⟨low, high⟩

theorem lands_seek {index : Nat} (low : start ≤ index) (high : index ≤ tokens.size) :
    Lands tokens start (seek index) (seek index) :=
  fun _ _ _ => ⟨rfl, low, high⟩

theorem lands_advance : Lands tokens start advance advance := by
  intro state low high
  rcases current : tokens[state.cursor]? with _ | token
  · have run : advance tokens state = .error ⟨.outsideTokens, Position.start⟩ state := by
      simp [advance, bind_apply, peek, current]
    exact ⟨rfl, by rwa [run], by rwa [run]⟩
  · have inside := (Array.getElem?_eq_some_iff.mp current).1
    by_cases ended : token.kind = .endOfFile
    · have run := advance_apply_of_end current ended
      exact ⟨rfl, by rwa [run], by rwa [run]⟩
    · have run := advance_apply current ended
      exact ⟨rfl, by rw [run]; exact Nat.le_succ_of_le low, by rwa [run]⟩

theorem lands_fail (fault : Fault) : Lands tokens start (fail fault : Parser α) (fail fault) :=
  lands_bind lands_peek fun _ => lands_failAt _ _

theorem lands_ofExcept (result : Except CompileError α) :
    Lands tokens start (ofExcept result) (ofExcept result) := by
  cases result with
  | error error => exact lands_failAt _ _
  | ok value => exact lands_pure _

theorem lands_check (mark : Symbol) : Lands tokens start (check mark) (check mark) :=
  lands_bind lands_peek fun _ => lands_pure _

theorem lands_accept (mark : Symbol) : Lands tokens start (accept mark) (accept mark) := by
  refine lands_bind (lands_check mark) fun found => ?_
  split
  · exact lands_bind lands_advance fun _ => lands_pure _
  · exact lands_pure _

theorem lands_expect (mark : Symbol) (place : Place) :
    Lands tokens start (expect mark place) (expect mark place) := by
  refine lands_bind (lands_accept mark) fun found => ?_
  split
  · exact lands_pure _
  · exact lands_bind lands_peek fun _ => lands_fail _

/-! ## Scopes and the enclosing function -/

theorem lands_findType? (name : String) :
    Lands tokens start (findType? name) (findType? name) :=
  fun _ low high => ⟨rfl, low, high⟩

theorem lands_findValue? (name : String) :
    Lands tokens start (findValue? name) (findValue? name) :=
  fun _ low high => ⟨rfl, low, high⟩

theorem lands_depth : Lands tokens start depth depth :=
  fun _ low high => ⟨rfl, low, high⟩

theorem lands_returnType : Lands tokens start returnType returnType :=
  fun _ low high => ⟨rfl, low, high⟩

theorem lands_declare (declaration : Declaration) :
    Lands tokens start (declare declaration) (declare declaration) := by
  intro state low high
  refine ⟨rfl, ?_, ?_⟩ <;> unfold declare <;> split <;> assumption

theorem lands_define (name : String) (ty : Ty) (position : Position) :
    Lands tokens start (define name ty position) (define name ty position) := by
  intro state low high
  refine ⟨rfl, ?_, ?_⟩ <;> unfold define <;> split <;> assumption

/-! ## Behind a token -/

/-- What is read behind a token other than the end of the file may be known from the next place
on only. -/
theorem landsAt_advance {next next' : Token → Parser α} {state : State} {token : Token}
    (current : tokens[state.cursor]? = some token) (more : token.kind ≠ .endOfFile)
    (low : start ≤ state.cursor)
    (behind : Lands tokens (start + 1) (next token) (next' token)) :
    LandsAt tokens start state (advance >>= next) (advance >>= next') := by
  have inside := (Array.getElem?_eq_some_iff.mp current).1
  obtain ⟨same, low', high'⟩ :=
    behind { state with cursor := state.cursor + 1 } (Nat.succ_le_succ low) inside
  exact (LandsAt.mk same (Nat.le_of_succ_le low') high').of_eq
    (by rw [bind_apply, advance_apply current more])
    (by rw [bind_apply, advance_apply current more])

/-- What is read after a look at the current token may depend on it. -/
theorem lands_peek_bind {next next' : Token → Parser α}
    (each : ∀ token state, tokens[state.cursor]? = some token → start ≤ state.cursor →
      LandsAt tokens start state (next token) (next' token)) :
    Lands tokens start (peek >>= next) (peek >>= next') := by
  intro state low high
  rcases current : tokens[state.cursor]? with _ | token
  · have run : ∀ parser : Token → Parser α,
        (peek >>= parser) tokens state = .error ⟨.outsideTokens, Position.start⟩ state := by
      simp [bind_apply, peek, current]
    exact ⟨by rw [run, run], by rwa [run], by rwa [run]⟩
  · exact (each token state current low).of_eq (by rw [bind_apply, peek_apply current])
      (by rw [bind_apply, peek_apply current])

/-- Parsers that land from a place on land in any state there. -/
theorem Lands.here {parser parser' : Parser α} (lands : Lands tokens start parser parser')
    {state : State} {token : Token} (current : tokens[state.cursor]? = some token)
    (low : start ≤ state.cursor) : LandsAt tokens start state parser parser' :=
  lands state low (Nat.le_of_lt (Array.getElem?_eq_some_iff.mp current).1)

theorem lands_check_bind {next next' : Bool → Parser α} (mark : Symbol)
    (each : ∀ token state, tokens[state.cursor]? = some token → start ≤ state.cursor →
      LandsAt tokens start state (next (token.kind == .symbol mark))
        (next' (token.kind == .symbol mark))) :
    Lands tokens start (check mark >>= next) (check mark >>= next') := by
  simp only [check, bind_assoc, pure_bind]
  exact lands_peek_bind each

/-- What is read behind an expected symbol may be known from the next place on only. -/
theorem lands_expect_bind {next next' : Unit → Parser α} (mark : Symbol) (place : Place)
    (behind : Lands tokens (start + 1) (next ()) (next' ())) :
    Lands tokens start (expect mark place >>= next) (expect mark place >>= next') := by
  simp only [expect, accept, bind_assoc]
  refine lands_check_bind mark fun token state current low => ?_
  split
  · next found =>
    simp only [bind_assoc, pure_bind]
    refine landsAt_advance current (fun ended => ?_) low behind
    simp [ended] at found
  · have run : ∀ rest : Unit → Parser α,
        ((peek >>= fun found => (fail (.missing mark place found.kind) : Parser Unit)) >>= rest)
          tokens state = .error ⟨.missing mark place token.kind, token.position⟩ state := by
      intro rest
      simp only [bind_apply, peek_apply current, fail_apply _ current]
    have inside := Nat.le_of_lt (Array.getElem?_eq_some_iff.mp current).1
    simp only [pure_bind, Bool.false_eq_true, if_false]
    exact ⟨by rw [run, run], by rwa [run], by rwa [run]⟩

end MiniC.Parser
