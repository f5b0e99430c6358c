/-
# MiniC.Proofs.Lookahead — how far ahead a success looks

What a parser that succeeds has done depends on the tokens that it took and, at most, on the one it
stopped at. So it does the same among other tokens that agree with the first that far.

* `Glances` — a parser that may look at the token it stops at, and no further.
* `Stops` — one that looks at no token behind those it took, except to see whether it is `else`.

What follows a glance has to take the token that was looked at for the whole to be of the second
kind: `stops_bind_of_glances`. Nothing is said of failures, which may look at any token.
-/
import MiniC.Proofs.Declarator.Soundness

namespace MiniC

set_option autoImplicit false

/-- Before `stop` the same tokens stand in both, and the second are not fewer. -/
structure Agree (tokens tokens' : Array Token) (stop : Nat) : Prop where
  same : ∀ index < stop, tokens'[index]? = tokens[index]?
  size_le : tokens.size ≤ tokens'.size

/-- Before `stop` the same tokens stand in both, and no `else` has come to stand there. -/
structure Continues (tokens tokens' : Array Token) (stop : Nat) : Prop
    extends Agree tokens tokens' stop where
  free : kindAt tokens' stop = some (.keyword .otherwise) →
    kindAt tokens stop = some (.keyword .otherwise)

section

variable {tokens tokens' : Array Token} {stop : Nat}

theorem Agree.mono {earlier : Nat} (agree : Agree tokens tokens' stop) (le : earlier ≤ stop) :
    Agree tokens tokens' earlier :=
  ⟨fun index less => agree.same index (Nat.lt_of_lt_of_le less le), agree.size_le⟩

theorem Agree.kindAt_eq (agree : Agree tokens tokens' stop) {index : Nat} (less : index < stop) :
    kindAt tokens' index = kindAt tokens index := by
  rw [kindAt, kindAt, agree.same index less]

theorem Agree.placeAt_eq (agree : Agree tokens tokens' stop) {index : Nat} (less : index < stop) :
    placeAt tokens' index = placeAt tokens index := by
  rw [placeAt, placeAt, agree.same index less]

/-- Where the token that follows is the same, it is no new `else`. -/
theorem Agree.continues (agree : Agree tokens tokens' (stop + 1)) : Continues tokens tokens' stop :=
  ⟨agree.mono (Nat.le_succ stop), fun there => by
    rwa [← agree.kindAt_eq (Nat.lt_succ_self stop)]⟩

theorem Continues.mono {earlier : Nat} (continues : Continues tokens tokens' stop)
    (le : earlier ≤ stop) : Continues tokens tokens' earlier := by
  rcases Nat.eq_or_lt_of_le le with rfl | less
  · exact continues
  · exact (continues.toAgree.mono less).continues

end

namespace Parser

variable {tokens tokens' : Array Token} {ι σ α β : Type} {least : Nat} {given : Nat → Prop}

/-- A success takes at least `least` tokens, and where `given` is true of the place that it stops
at, the other parser succeeds alike among the other tokens. -/
def Keeps (tokens tokens' : Array Token) (least : Nat) (given : Nat → Prop)
    (parser parser' : Parser α) : Prop :=
  ∀ (state after : State) (value : α), Runs tokens parser state value after →
    state.cursor + least ≤ after.cursor ∧
      (given after.cursor → Runs tokens' parser' state value after)

/-- A success depends on the tokens up to the one it stops at. -/
abbrev Glances (tokens tokens' : Array Token) (parser parser' : Parser α) : Prop :=
  Keeps tokens tokens' 0 (fun stop => Agree tokens tokens' (stop + 1)) parser parser'

/-- A success depends on the tokens before the one it stops at, and on that for being no `else`. -/
abbrev Stops (tokens tokens' : Array Token) (least : Nat) (parser parser' : Parser α) : Prop :=
  Keeps tokens tokens' least (Continues tokens tokens') parser parser'

/-! ## Composition -/

theorem keeps_bind {first first' : Parser α} {second second' : α → Parser β} {more : Nat}
    {givenThen : Nat → Prop} (before : Keeps tokens tokens' least given first first')
    (behind : ∀ value, Keeps tokens tokens' more givenThen (second value) (second' value))
    (enough : ∀ between after, between + more ≤ after → givenThen after → given between) :
    Keeps tokens tokens' (least + more) givenThen (first >>= second) (first' >>= second') := by
  intro state after result run
  obtain ⟨value, between, here, there⟩ := runs_bind.mp run
  obtain ⟨low, same⟩ := before _ _ _ here
  obtain ⟨high, sameThen⟩ := behind value _ _ _ there
  exact ⟨by omega, fun holds =>
    runs_bind.mpr ⟨value, between, same (enough _ _ high holds), sameThen holds⟩⟩

theorem glances_bind {first first' : Parser α} {second second' : α → Parser β}
    (before : Glances tokens tokens' first first')
    (behind : ∀ value, Glances tokens tokens' (second value) (second' value)) :
    Glances tokens tokens' (first >>= second) (first' >>= second') :=
  keeps_bind before behind fun _ _ le agree => agree.mono (Nat.succ_le_succ le)

/-- What is looked at is taken then. -/
theorem stops_bind_of_glances {first first' : Parser α} {second second' : α → Parser β}
    (before : Glances tokens tokens' first first')
    (behind : ∀ value, Stops tokens tokens' 1 (second value) (second' value)) :
    Stops tokens tokens' 1 (first >>= second) (first' >>= second') := by
  have both := keeps_bind before behind fun _ _ le continues => continues.toAgree.mono le
  rwa [Nat.zero_add] at both

theorem stops_bind {first first' : Parser α} {second second' : α → Parser β}
    (before : Stops tokens tokens' least first first')
    (behind : ∀ value, Stops tokens tokens' 0 (second value) (second' value)) :
    Stops tokens tokens' least (first >>= second) (first' >>= second') :=
  keeps_bind before behind fun _ _ le continues => continues.mono le

/-- What does not look at the token it stops at may as well. -/
theorem Keeps.glances {parser parser' : Parser α}
    (stops : Stops tokens tokens' least parser parser') :
    Glances tokens tokens' parser parser' := by
  intro state after value run
  obtain ⟨low, same⟩ := stops state after value run
  exact ⟨by omega, fun agree => same agree.continues⟩

theorem keeps_pure (value : α) : Keeps tokens tokens' 0 given (pure value) (pure value) := by
  intro state after result run
  obtain ⟨rfl, rfl⟩ := runs_pure.mp run
  exact ⟨Nat.le_refl _, fun _ => run⟩

theorem keeps_failAt {parser : Parser α} (fault : Fault) (place : Position) :
    Keeps tokens tokens' least given (failAt fault place) parser :=
  fun _ _ _ run => absurd run not_runs_failAt

theorem keeps_fail {parser : Parser α} (fault : Fault) :
    Keeps tokens tokens' least given (fail fault) parser :=
  fun _ _ _ run => absurd run not_runs_fail

/-- A parser that looks at no token. -/
theorem keeps_of_eq {parser : Parser α} (stays : ∀ state after value,
      Runs tokens parser state value after → after.cursor = state.cursor)
    (same : ∀ state, parser tokens state = parser tokens' state) :
    Keeps tokens tokens' 0 given parser parser := by
  intro state after value run
  refine ⟨Nat.le_of_eq (stays _ _ _ run).symm, fun _ => ?_⟩
  rwa [Runs, ← same]

/-! ## Repetition and recursion -/

/-- A bound that does not stop the first repetition does not stop the second. -/
theorem glances_repeated {step step' : σ → Parser (Option σ)}
    (each : ∀ current, Glances tokens tokens' (step current) (step' current)) {bound bound' : Nat}
    (le : bound ≤ bound') (current : σ) :
    Glances tokens tokens' (repeated step bound current) (repeated step' bound' current) := by
  induction bound generalizing bound' current with
  | zero => exact keeps_failAt _ _
  | succ bound ih =>
    cases bound' with
    | zero => exact absurd le (Nat.not_succ_le_zero _)
    | succ bound' =>
      refine glances_bind (each current) fun next => ?_
      cases next with
      | some next => exact ih (Nat.le_of_succ_le_succ le) next
      | none => exact keeps_pure current

theorem glances_iterate {step step' : σ → Parser (Option σ)}
    (each : ∀ current, Glances tokens tokens' (step current) (step' current)) (current : σ) :
    Glances tokens tokens' (iterate step current) (iterate step' current) := by
  intro state after value run
  have low := (glances_repeated each (Nat.le_refl _) current state after value run).1
  refine ⟨low, fun agree => ?_⟩
  have le : tokens.size - state.cursor + 1 ≤ tokens'.size - state.cursor + 1 := by
    have := agree.size_le
    omega
  exact (glances_repeated each le current state after value run).2 agree

/-- A bound that does not stop the first recursion does not stop the second. -/
theorem keeps_nested {body : (ι → Parser α) → ι → Parser α}
    (each : ∀ inner inner' : ι → Parser α,
      (∀ input, Keeps tokens tokens' least given (inner input) (inner' input)) →
      ∀ input, Keeps tokens tokens' least given (body inner input) (body inner' input))
    {bound bound' : Nat} (le : bound ≤ bound') (input : ι) :
    Keeps tokens tokens' least given (nested body bound input) (nested body bound' input) := by
  induction bound generalizing bound' input with
  | zero => exact keeps_failAt _ _
  | succ bound ih =>
    cases bound' with
    | zero => exact absurd le (Nat.not_succ_le_zero _)
    | succ bound' => exact each _ _ (fun input => ih (Nat.le_of_succ_le_succ le) input) input

theorem keeps_recurse {body : (ι → Parser α) → ι → Parser α}
    (sizes : ∀ stop, given stop → tokens.size ≤ tokens'.size)
    (each : ∀ inner inner' : ι → Parser α,
      (∀ input, Keeps tokens tokens' least given (inner input) (inner' input)) →
      ∀ input, Keeps tokens tokens' least given (body inner input) (body inner' input))
    (input : ι) : Keeps tokens tokens' least given (recurse body input) (recurse body input) := by
  intro state after value run
  have low := (keeps_nested each (Nat.le_refl _) input state after value run).1
  refine ⟨low, fun holds => ?_⟩
  have le : tokens.size - state.cursor + 1 ≤ tokens'.size - state.cursor + 1 := by
    have := sizes _ holds
    omega
  exact (keeps_nested each le input state after value run).2 holds

theorem stops_mapM {step : ι → Parser β} (inputs : List ι)
    (each : ∀ input, Stops tokens tokens' 0 (step input) (step input)) :
    Stops tokens tokens' 0 (inputs.mapM step) (inputs.mapM step) := by
  induction inputs with
  | nil => exact keeps_pure []
  | cons input rest ih =>
    rw [List.mapM_cons]
    exact stops_bind (each input) fun _ => stops_bind ih fun _ => keeps_pure _

theorem stops_forM {step : ι → Parser PUnit} (inputs : List ι)
    (each : ∀ input, Stops tokens tokens' 0 (step input) (step input)) :
    Stops tokens tokens' 0 (inputs.forM step) (inputs.forM step) := by
  induction inputs with
  | nil => exact keeps_pure _
  | cons input rest ih => exact stops_bind (each input) fun _ => ih

/-! ## The cursor -/

theorem glances_peek : Glances tokens tokens' peek peek := by
  intro state after token run
  obtain ⟨here, rfl⟩ := runs_peek.mp run
  refine ⟨Nat.le_refl _, fun agree => runs_peek.mpr ⟨?_, rfl⟩⟩
  rw [agree.same _ (Nat.lt_succ_self _), here]

theorem glances_advance : Glances tokens tokens' advance advance := by
  refine glances_bind glances_peek fun token => ?_
  split
  · exact keeps_pure token
  · intro state after result run
    obtain ⟨index, _, counted, run⟩ := runs_bind.mp run
    obtain ⟨rfl, rfl⟩ := runs_cursor.mp counted
    obtain ⟨_, _, moved, done⟩ := runs_bind.mp run
    obtain rfl := runs_seek.mp moved
    obtain ⟨rfl, rfl⟩ := runs_pure.mp done
    exact ⟨Nat.le_succ _, fun _ => rfl⟩

theorem glances_check (mark : Symbol) : Glances tokens tokens' (check mark) (check mark) :=
  glances_bind glances_peek fun _ => keeps_pure _

theorem glances_accept (mark : Symbol) : Glances tokens tokens' (accept mark) (accept mark) := by
  refine glances_bind (glances_check mark) fun found => ?_
  split
  · exact glances_bind glances_advance fun _ => keeps_pure _
  · exact keeps_pure _

/-- An expected symbol is taken. -/
theorem stops_expect (mark : Symbol) (place : Place) :
    Stops tokens tokens' 1 (expect mark place) (expect mark place) := by
  intro state after result run
  obtain ⟨here, rfl⟩ := runs_expect.mp run
  refine ⟨Nat.le_refl _, fun continues => runs_expect.mpr ⟨?_, rfl⟩⟩
  rw [continues.toAgree.kindAt_eq (Nat.lt_succ_self _), here]

/-! ## Scopes and the enclosing function -/

theorem keeps_findType? (name : String) :
    Keeps tokens tokens' 0 given (findType? name) (findType? name) :=
  keeps_of_eq (fun _ _ _ run => by rw [(runs_findType?.mp run).2]) fun _ => rfl

theorem keeps_findValue? (name : String) :
    Keeps tokens tokens' 0 given (findValue? name) (findValue? name) :=
  keeps_of_eq (fun _ _ _ run => by rw [(runs_findValue?.mp run).2]) fun _ => rfl

theorem keeps_depth : Keeps tokens tokens' 0 given depth depth :=
  keeps_of_eq (fun _ _ _ run => by rw [(runs_depth.mp run).2]) fun _ => rfl

theorem keeps_returnType : Keeps tokens tokens' 0 given returnType returnType :=
  keeps_of_eq (fun _ _ _ run => by rw [(runs_returnType.mp run).2]) fun _ => rfl

theorem keeps_declare (declaration : Declaration) :
    Keeps tokens tokens' 0 given (declare declaration) (declare declaration) := by
  refine keeps_of_eq (fun _ _ _ run => ?_) fun _ => rfl
  obtain ⟨_, _, rfl⟩ := runs_declare.mp run
  rfl

theorem keeps_define (name : String) (ty : Ty) (place : Position) :
    Keeps tokens tokens' 0 given (define name ty place) (define name ty place) := by
  refine keeps_of_eq (fun _ _ _ run => ?_) fun _ => rfl
  obtain ⟨_, _, rfl⟩ := runs_define.mp run
  rfl

theorem keeps_inScope {inner inner' : Parser α}
    (keeps : Keeps tokens tokens' least given inner inner') :
    Keeps tokens tokens' least given (inScope inner) (inScope inner') := by
  intro state after value run
  obtain ⟨closing, inside, rfl⟩ := runs_inScope.mp run
  obtain ⟨low, same⟩ := keeps _ _ _ inside
  exact ⟨low, fun holds => runs_inScope.mpr ⟨closing, same holds, rfl⟩⟩

theorem keeps_returning (ty : Ty) {inner inner' : Parser α}
    (keeps : Keeps tokens tokens' least given inner inner') :
    Keeps tokens tokens' least given (returning ty inner) (returning ty inner') := by
  intro state after value run
  obtain ⟨closing, inside, rfl⟩ := runs_returning.mp run
  obtain ⟨low, same⟩ := keeps _ _ _ inside
  exact ⟨low, fun holds => runs_returning.mpr ⟨closing, same holds, rfl⟩⟩

end Parser

/-! ## Declarators -/

namespace Spans

variable {tokens tokens' : Array Token} {visible : String → Option Ty}

theorem namesType_of_agree {index stop : Nat} (agree : Agree tokens tokens' stop)
    (less : index < stop) {ty : Ty} :
    NamesType tokens' visible index ty ↔ NamesType tokens visible index ty := by
  rw [NamesType, NamesType, agree.kindAt_eq less]

theorem opensList_of_agree {index stop : Nat} (agree : Agree tokens tokens' stop)
    (less : index < stop) :
    OpensList tokens' visible index ↔ OpensList tokens visible index := by
  rw [OpensList, OpensList, agree.kindAt_eq less]
  exact or_congr Iff.rfl (exists_congr fun _ => namesType_of_agree agree less)

/-- A phrase is one among other tokens that agree up to its end. -/
theorem of_agree {form : Form} {phrase : Phrase} {start stop : Nat}
    (spans : Spans tokens visible form phrase start stop) (agree : Agree tokens tokens' stop) :
    Spans tokens' visible form phrase start stop := by
  induction spans with
  | star star rest ih =>
    have further := rest.le
    have inner := ih agree
    rw [← agree.placeAt_eq (by omega)] at inner
    exact .star ((agree.kindAt_eq (by omega)).trans star) inner
  | unstarred _ ih => exact .unstarred (ih agree)
  | nothing => exact .nothing
  | name named =>
    rw [← agree.placeAt_eq (by omega)]
    exact .name ((agree.kindAt_eq (by omega)).trans named)
  | group opening grouping inner closing ih =>
    have further := inner.le
    exact .group ((agree.kindAt_eq (by omega)).trans opening)
      (mt (opensList_of_agree agree (by omega)).mp grouping) (ih (agree.mono (by omega)))
      ((agree.kindAt_eq (by omega)).trans closing)
  | array rest opening counted fits closing ih =>
    have before := ih (agree.mono (by omega))
    rw [← agree.placeAt_eq (by omega)] at before
    exact .array before ((agree.kindAt_eq (by omega)).trans opening)
      ((agree.kindAt_eq (by omega)).trans counted) fits ((agree.kindAt_eq (by omega)).trans closing)
  | emptyList rest opening closing ih =>
    have before := ih (agree.mono (by omega))
    rw [← agree.placeAt_eq (by omega)] at before
    exact .emptyList before ((agree.kindAt_eq (by omega)).trans opening)
      ((agree.kindAt_eq (by omega)).trans closing)
  | list rest opening entries closing ih entries_ih =>
    have further := entries.le
    have before := ih (agree.mono (by omega))
    rw [← agree.placeAt_eq (by omega)] at before
    exact .list before ((agree.kindAt_eq (by omega)).trans opening)
      (entries_ih (agree.mono (by omega))) ((agree.kindAt_eq (by omega)).trans closing)
  | laterName rest named ih =>
    rw [← agree.placeAt_eq (by omega)]
    exact .laterName (ih (agree.mono (by omega))) ((agree.kindAt_eq (by omega)).trans named)
  | laterGroup rest opening grouping inner closing once ih inner_ih =>
    have further := inner.le
    exact .laterGroup (ih (agree.mono (by omega))) ((agree.kindAt_eq (by omega)).trans opening)
      (mt (opensList_of_agree agree (by omega)).mp grouping) (inner_ih (agree.mono (by omega)))
      ((agree.kindAt_eq (by omega)).trans closing) once
  | stray rest skipped ih =>
    refine .stray (ih (agree.mono (by omega))) ?_
    rwa [agree.kindAt_eq (by omega)]
  | last typed declares ih =>
    have further := declares.le
    rw [← agree.placeAt_eq (by omega)]
    exact .last ((namesType_of_agree agree (by omega)).mpr typed) (ih agree)
  | more typed declares comma others ih others_ih =>
    have further := declares.le
    have end' := others.le
    rw [← agree.placeAt_eq (by omega)]
    exact .more ((namesType_of_agree agree (by omega)).mpr typed) (ih (agree.mono (by omega)))
      ((agree.kindAt_eq (by omega)).trans comma) (others_ih agree)

end Spans

namespace Parser

variable {tokens tokens' : Array Token}

/-- However far its first pass looks, a declarator depends on no token behind the one that ends
it. -/
theorem glances_declarator : Glances tokens tokens' declarator declarator := by
  intro state after declared run
  obtain ⟨⟨base, typed, spans⟩, ends, moved⟩ := runs_declarator_iff.mp run
  have further := spans.le
  refine ⟨by omega, fun agree => runs_declarator_iff.mpr ⟨⟨base, ?_, ?_⟩, ?_, moved⟩⟩
  · exact (Spans.namesType_of_agree agree (by omega)).mpr typed
  · exact spans.of_agree (agree.mono (Nat.le_succ _))
  · rwa [EndsAt, agree.kindAt_eq (Nat.lt_succ_self _)]

theorem glances_isTypeName : Glances tokens tokens' isTypeName isTypeName := by
  refine glances_bind glances_peek fun token => ?_
  split
  · exact glances_bind (keeps_findType? _) fun _ => keeps_pure _
  · exact keeps_pure _

end Parser

end MiniC
