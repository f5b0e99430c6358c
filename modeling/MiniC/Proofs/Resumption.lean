/-
# MiniC.Proofs.Resumption — a lexer goes on from where it stands

Whatever a lexer has been asked for, and whether or not it found faults, it stands behind a
beginning of its source, and it has nothing in mind but where that is. So what it yields from there
on is what a fresh lexer yields of the text that is left, at places that go on from its own. A call
reads at least one character, unless only a gap is left; then it yields the end of the file, and
goes on doing so.

* `Lexer.after` — the lexer behind calls, failed ones included.
* `Lexer.answer_of_atEnd`, `Lexer.length_answer_lt` — what one call does, at the end and before it.
* `Lexer.length_le_of_outcomes` — how many calls there can be before the end.
* `Position.onward` — a place of what is left as one of the whole; `Lexer.outcomes_relocate` — what
  moving a lexer does to its outcomes.
* `lexer_resumes` — all of it, for every lexer that comes of calls.
-/
import MiniC.Proofs.Accuracy
import MiniC.Proofs.Bytes
import MiniC.Proofs.Translation

namespace MiniC

set_option autoImplicit false

namespace Lexer

/-- The end of the file is among the tokens. -/
def Ends (outcome : Except CompileError (List Token)) : Prop :=
  ∃ tokens, outcome = .ok tokens ∧ ∃ token ∈ tokens, token.kind = .endOfFile

variable {lexer : Lexer}

/-- The lexer behind calls, whether or not they failed. -/
def after (lexer : Lexer) : List Call → Lexer
  | [] => lexer
  | call :: calls => (lexer.answer call).2.after calls

/-! ## One call -/

theorem skip_zero (lexer : Lexer) : lexer.skip 0 = lexer := rfl

theorem upTo_snd (count : Nat) (lexer : Lexer) :
    ∃ passed, (upTo count lexer).2 = lexer.skip passed := by
  induction count generalizing lexer with
  | zero => exact ⟨0, (skip_zero lexer).symm⟩
  | succ count ih =>
    have first := lexer.next_snd
    rw [upTo]
    rcases result : lexer.next with ⟨error | token, behind⟩ <;> rw [result] at first <;>
      dsimp only at first ⊢
    · exact ⟨_, first⟩
    · split
      · exact ⟨_, first⟩
      · obtain ⟨passed, rest⟩ := ih behind
        exact ⟨_, by rw [rest, first, skip_skip]⟩

/-- A call passes some characters and does nothing else to the lexer. -/
theorem answer_snd (lexer : Lexer) (call : Call) :
    ∃ passed, (lexer.answer call).2 = lexer.skip passed := by
  cases call with
  | next => exact ⟨_, lexer.next_snd⟩
  | tokenize => exact upTo_snd _ lexer

/-- The token at the end of a file. -/
def lastToken (lexer : Lexer) : Token :=
  ⟨.endOfFile, lexer.position.after lexer.rest, 0⟩

/-- The lexer behind all of its text. -/
def ended (lexer : Lexer) : Lexer :=
  ⟨[], lexer.position.after lexer.rest⟩

theorem next_of_atEnd (done : lexer.AtEnd) : lexer.next = (.ok lexer.lastToken, lexer.ended) := by
  have first := next_fst_of_atEnd done
  have passed : lexer.rest.length ≤ gapLength lexer.rest := List.drop_eq_nil_iff.mp done
  have all : lexer.rest.length ≤ lexer.nextLength :=
    Nat.le_trans passed (Nat.le_add_right _ _)
  refine Prod.ext first ?_
  rw [next_snd, skip, List.drop_eq_nil_of_le all, List.take_of_length_le all]
  rfl

/-- Where only a gap is left, every call yields the end of the file and passes what is left. -/
theorem answer_of_atEnd (done : lexer.AtEnd) (call : Call) :
    lexer.answer call = (.ok [lexer.lastToken], lexer.ended) := by
  cases call with
  | next => rw [answer, next_of_atEnd done]; rfl
  | tokenize => rw [answer, tokenize_eq, next_of_atEnd done]; rfl

/-- Elsewhere every call reads on. -/
theorem length_answer_lt (more : ¬lexer.AtEnd) (call : Call) :
    (lexer.answer call).2.rest.length < lexer.rest.length := by
  have first := length_next_lt more
  cases call with
  | next => exact first
  | tokenize =>
    rw [answer, tokenize_eq]
    rcases result : lexer.next with ⟨error | token, behind⟩ <;> rw [result] at first <;> dsimp only
    · exact first
    · split
      · exact first
      · obtain ⟨passed, rest⟩ := upTo_snd (behind.rest.length + 1) behind
        rw [tokenize, rest, rest_skip, List.length_drop]
        exact Nat.lt_of_le_of_lt (Nat.sub_le _ _) first

/-- What is read counts in the offset. -/
theorem offset_lt_of_skip {passed : Nat}
    (shorter : (lexer.skip passed).rest.length < lexer.rest.length) :
    lexer.position.offset < (lexer.skip passed).position.offset := by
  have read : lexer.rest.take passed ≠ [] := by
    intro none
    have whole := List.take_append_drop passed lexer.rest
    rw [none, List.nil_append] at whole
    rw [rest_skip, whole] at shorter
    exact Nat.lt_irrefl _ shorter
  obtain ⟨c, others, first⟩ := List.exists_cons_of_ne_nil read
  have some := c.utf8Size_pos
  rw [skip, Position.offset_after, first, byteLength_cons]
  omega

/-! ## Calls one after the other -/

theorem atEnd_ended (lexer : Lexer) : lexer.ended.AtEnd :=
  List.drop_nil

theorem answer_ended (lexer : Lexer) (call : Call) :
    lexer.ended.answer call = (.ok [lexer.lastToken], lexer.ended) :=
  answer_of_atEnd (atEnd_ended lexer) call

theorem ended_after (lexer : Lexer) (calls : List Call) : lexer.ended.after calls = lexer.ended := by
  induction calls with
  | nil => rfl
  | cons call calls ih =>
    rw [after, answer_ended, ih]

theorem ended_outcomes (lexer : Lexer) (calls : List Call) :
    ∀ outcome ∈ lexer.ended.outcomes calls, outcome = .ok [lexer.lastToken] := by
  induction calls with
  | nil => exact fun _ member => (List.not_mem_nil member).elim
  | cons call calls ih =>
    rw [outcomes, answer_ended]
    exact List.forall_mem_cons.mpr ⟨rfl, ih⟩

/-- Before the end of the file is yielded, there are no more calls than characters. -/
theorem length_le_of_outcomes (calls : List Call)
    (going : ∀ outcome ∈ lexer.outcomes calls, ¬Ends outcome) :
    calls.length ≤ lexer.rest.length := by
  induction calls generalizing lexer with
  | nil => exact Nat.zero_le _
  | cons call calls ih =>
    obtain ⟨here, later⟩ := List.forall_mem_cons.mp going
    -- At the end the call would have yielded the end of the file.
    have more : ¬lexer.AtEnd := by
      intro done
      rw [answer_of_atEnd done] at here
      exact here ⟨_, rfl, _, List.mem_cons_self, rfl⟩
    exact Nat.le_trans (Nat.succ_le_succ (ih later)) (length_answer_lt more call)

theorem Within.after {source : List Char} (within : lexer.Within source) (calls : List Call) :
    (lexer.after calls).Within source := by
  induction calls generalizing lexer with
  | nil => exact within
  | cons call calls ih => exact ih (within.answer call).1

/-! ## Calls at another place -/

theorem answer_relocate {move : Position → Position} (carried : lexer.Carried move) (call : Call) :
    (lexer.relocate move).answer call =
      (relocateOutcome move (List.map (Token.relocate move)) (lexer.answer call).1,
        (lexer.answer call).2.relocate move) := by
  cases call with
  | next =>
    rw [answer, answer, next_relocate carried]
    cases lexer.next.1 <;> rfl
  | tokenize => exact tokenize_relocate carried

/-- What a lexer yields at another place, it yields here at places that are moved along. -/
theorem outcomes_relocate {move : Position → Position} (carried : lexer.Carried move)
    (calls : List Call) :
    (lexer.relocate move).outcomes calls =
      (lexer.outcomes calls).map (relocateOutcome move (List.map (Token.relocate move))) := by
  induction calls generalizing lexer with
  | nil => rfl
  | cons call calls ih =>
    obtain ⟨passed, behind⟩ := lexer.answer_snd call
    have further : (lexer.answer call).2.Carried move := by
      rw [behind]
      exact carried.skip passed
    rw [outcomes, outcomes, answer_relocate carried, ih further, List.map_cons]

end Lexer

/-! ## What is left -/

/-- A place of a text that stands at `base`: lines go on from there, and so do the columns of the
first one. -/
def Position.onward (base place : Position) : Position :=
  ⟨base.offset + place.offset, base.line + (place.line - 1),
    if place.line = 1 then base.column + (place.column - 1) else place.column⟩

theorem Position.onward_start (base : Position) : base.onward start = base := rfl

theorem Position.onward_after (base : Position) (text : List Char) {place : Position}
    (lines : 0 < place.line) (columns : 0 < place.column) :
    base.onward (place.after text) = (base.onward place).after text := by
  induction text generalizing place with
  | nil => rfl
  | cons c text ih =>
    have step : base.onward (place.step c) = (base.onward place).step c := by
      obtain ⟨offset, line, column⟩ := place
      dsimp only at lines columns
      unfold Position.step
      split <;> simp only [onward, Position.mk.injEq]
      · rw [if_neg (by omega)]
        omega
      · refine ⟨by omega, trivial, ?_⟩
        split <;> omega
    rw [after_cons, after_cons, ← step]
    refine ih ?_ ?_ <;> unfold Position.step <;> split
    · exact Nat.succ_pos _
    · exact lines
    · exact Nat.one_pos
    · exact Nat.succ_pos _

/-- A fresh lexer of what is left is the lexer itself, but for where it stands. -/
theorem Lexer.relocate_ofSource (lexer : Lexer) :
    (Lexer.ofSource (String.ofList lexer.rest)).relocate lexer.position.onward = lexer := by
  rw [ofSource, relocate, String.toList_ofList, Position.onward_start]

theorem Lexer.carried_onward (source : String) (base : Position) :
    (Lexer.ofSource source).Carried base.onward :=
  fun text => base.onward_after text Nat.one_pos Nat.one_pos

namespace Lexer

/-- What is left is a gap exactly if no word stands behind the longest one. -/
theorem atEnd_iff (lexer : Lexer) : lexer.AtEnd ↔ Gap lexer.rest [] := by
  constructor
  · intro done
    have measured := gap_gapLength lexer.rest
    have all := List.drop_eq_nil_iff.mp done
    rw [List.take_of_length_le all, List.drop_eq_nil_of_le all] at measured
    exact measured
  · intro gap
    exact List.drop_eq_nil_of_le (Nat.le_of_eq gap.gapLength_eq.symm)

end Lexer

/-- However a lexer has come to where it stands, it stands behind a beginning of its source, at a
boundary between characters. If it has a gap in front of it only, it yields the end of the file and
goes on doing so, the same token every time, and stays where it then is; if not, a call of `next`
moves it on, to a token that is not the end of the file or to a fault. So no more calls than
characters come before the end, and all that comes is what comes of the text that is left. -/
theorem lexer_resumes (source : String) (calls : List Lexer.Call) :
    let lexer := (Lexer.ofSource source).after calls
    (∃ read, source.toList = read ++ lexer.rest ∧ lexer.position = Position.start.after read ∧
      lexer.position.offset = (String.ofList read).utf8ByteSize) ∧
    (Gap lexer.rest [] →
      ∃ token last, token.kind = .endOfFile ∧ lexer.next = (.ok token, last) ∧ ∀ more,
        last.after more = last ∧ ∀ outcome ∈ last.outcomes more, outcome = .ok [token]) ∧
    (¬Gap lexer.rest [] →
      (∀ token, lexer.next.1 = .ok token → token.kind ≠ .endOfFile) ∧
      lexer.position.offset < lexer.next.2.position.offset) ∧
    (∀ more, (∀ outcome ∈ lexer.outcomes more, ¬Lexer.Ends outcome) →
      more.length ≤ lexer.rest.length) ∧
    ∀ more, lexer.outcomes more =
      ((Lexer.ofSource (String.ofList lexer.rest)).outcomes more).map
        (relocateOutcome lexer.position.onward
          (List.map (Token.relocate lexer.position.onward))) := by
  intro lexer
  refine ⟨?_, fun gap => ?_, fun noGap => ⟨fun token found ended => ?_, ?_⟩,
    fun more => Lexer.length_le_of_outcomes more, fun more => ?_⟩
  · obtain ⟨read, whole, place⟩ := (Lexer.within_ofSource source).after calls
    refine ⟨read, whole, place, ?_⟩
    rw [place, Position.offset_after, utf8ByteSize_ofList]
    exact Nat.zero_add _
  · have done := lexer.atEnd_iff.mpr gap
    exact ⟨lexer.lastToken, lexer.ended, rfl, Lexer.next_of_atEnd done, fun more =>
      ⟨lexer.ended_after more, lexer.ended_outcomes more⟩⟩
  · exact noGap (lexer.atEnd_iff.mp (Lexer.atEnd_of_next found ended))
  · have shorter := Lexer.length_next_lt fun done => noGap (lexer.atEnd_iff.mp done)
    rw [Lexer.next_snd] at shorter ⊢
    exact Lexer.offset_lt_of_skip shorter
  · have moved := Lexer.outcomes_relocate
      (Lexer.carried_onward (String.ofList lexer.rest) lexer.position) more
    rwa [Lexer.relocate_ofSource] at moved

/-- Behind the digit at which a literal fails, what is left is read as it is on its own. -/
theorem lexer_resumes_digit :
    let lexer := (Lexer.ofSource "0b12 ü\nx").after [.tokenize]
    let fresh := Lexer.ofSource (String.ofList lexer.rest)
    let calls := [Lexer.Call.next, .next, .tokenize]
    (lexer.rest, lexer.position) = (['2', ' ', 'ü', '\n', 'x'], ⟨3, 1, 4⟩) ∧
    (lexer.outcomes calls).map Except.toOption =
      [some [⟨.integer 2, ⟨3, 1, 4⟩, 1⟩], none,
        some [⟨.name "x", ⟨8, 2, 1⟩, 1⟩, ⟨.endOfFile, ⟨9, 2, 2⟩, 0⟩]] ∧
    (fresh.outcomes calls).map Except.toOption =
      [some [⟨.integer 2, ⟨0, 1, 1⟩, 1⟩], none,
        some [⟨.name "x", ⟨5, 2, 1⟩, 1⟩, ⟨.endOfFile, ⟨6, 2, 2⟩, 0⟩]] ∧
    lexer.outcomes calls = (fresh.outcomes calls).map
      (relocateOutcome lexer.position.onward (List.map (Token.relocate lexer.position.onward))) := by
  intro lexer fresh calls
  exact ⟨by decide +kernel, by decide +kernel, by decide +kernel,
    (lexer_resumes "0b12 ü\nx" [.tokenize]).2.2.2.2 calls⟩

end MiniC
