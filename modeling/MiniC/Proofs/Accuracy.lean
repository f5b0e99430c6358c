/-
# MiniC.Proofs.Accuracy — a place counts the text before it

A place of a source is accurate if some part of the source stands before it, whose bytes the offset
counts, whose line feeds the line counts, and behind whose last line feed the column counts the
characters. A lexer stands behind what it has read, whatever it was asked for and whether or not it
found a fault, so that every place it tells is accurate.

* `accurate_after` — the place behind any beginning of the source is accurate.
* `accurate_of_outcomes` — the places of all tokens and errors that a lexer yields are.
* `pairwise_offset_of_tokensOf` — tokens stand at places of their own, one behind the other.
-/
import MiniC.Proofs.Segmentation

namespace MiniC

set_option autoImplicit false

/-- What stands behind the last line feed of a text, or all of it where there is none. -/
def LastLine (text line : List Char) : Prop :=
  '\n' ∉ line ∧ (text = line ∨ ∃ earlier, text = earlier ++ '\n' :: line)

/-- The place is that of a character of the source, or of its end. -/
def Accurate (source : List Char) (place : Position) : Prop :=
  ∃ before after line, source = before ++ after ∧ place.offset = byteLength before ∧
    place.line = 1 + before.count '\n' ∧ LastLine before line ∧ place.column = 1 + line.length

/-! ## The place behind a text -/

theorem exists_lastLine (text : List Char) : ∃ line, LastLine text line := by
  induction text with
  | nil => exact ⟨[], nofun, .inl rfl⟩
  | cons c text ih =>
    obtain ⟨line, one, rfl | ⟨earlier, rfl⟩⟩ := ih
    · by_cases lineFeed : c = '\n'
      · exact ⟨text, one, .inr ⟨[], by rw [lineFeed]; rfl⟩⟩
      · refine ⟨c :: text, ?_, .inl rfl⟩
        rw [List.mem_cons, not_or]
        exact ⟨fun same => lineFeed same.symm, one⟩
    · exact ⟨line, one, .inr ⟨c :: earlier, rfl⟩⟩

/-- A text without a line feed moves the column on. -/
theorem Position.column_after {text : List Char} (one : '\n' ∉ text) (p : Position) :
    (p.after text).column = p.column + text.length := by
  induction text generalizing p with
  | nil => rfl
  | cons c text ih =>
    rw [List.mem_cons, not_or] at one
    rw [after_cons, ih one.2, step, if_neg fun same => one.1 same.symm, List.length_cons]
    exact Nat.add_right_comm _ _ _

/-- Behind a line feed, columns count from it. -/
theorem Position.column_after_lineFeed {line : List Char} (one : '\n' ∉ line) (p : Position)
    (earlier : List Char) : (p.after (earlier ++ '\n' :: line)).column = 1 + line.length := by
  rw [after_append, after_cons, column_after one, step, if_pos rfl]

/-- The place behind any beginning of the source is accurate. -/
theorem accurate_after (before after : List Char) :
    Accurate (before ++ after) (Position.start.after before) := by
  obtain ⟨line, one, last⟩ := exists_lastLine before
  refine ⟨before, after, line, rfl, ?_, Position.line_after _ _, ⟨one, last⟩, ?_⟩
  · simp [Position.offset_after, Position.start]
  · obtain rfl | ⟨earlier, rfl⟩ := last
    · exact Position.column_after one _
    · exact Position.column_after_lineFeed one _ _

/-! ## Lexers -/

/-- What a lexer may be asked for. -/
inductive Lexer.Call where
  | next
  | tokenize
  deriving DecidableEq, Repr

namespace Lexer

/-- What comes of a call, and the lexer behind it. -/
def answer (lexer : Lexer) : Call → Except CompileError (List Token) × Lexer
  | .next => (lexer.next.1.map fun token => [token], lexer.next.2)
  | .tokenize => lexer.tokenize

/-- What comes of calls one after the other, whether or not those before failed. -/
def outcomes (lexer : Lexer) : List Call → List (Except CompileError (List Token))
  | [] => []
  | call :: calls => (lexer.answer call).1 :: (lexer.answer call).2.outcomes calls

/-- The lexer stands behind a beginning of the source. -/
def Within (source : List Char) (lexer : Lexer) : Prop :=
  ∃ read, source = read ++ lexer.rest ∧ lexer.position = Position.start.after read

end Lexer

/-- The places that an outcome of a lexer tells. -/
def lexedPlaces : Except CompileError (List Token) → List Position
  | .ok tokens => tokens.map Token.position
  | .error error => [error.position]

namespace Lexer

variable {source : List Char} {lexer : Lexer}

theorem Within.accurate (within : lexer.Within source) : Accurate source lexer.position := by
  obtain ⟨read, rfl, place⟩ := within
  rw [place]
  exact accurate_after read lexer.rest

theorem Within.skip (within : lexer.Within source) (count : Nat) :
    (lexer.skip count).Within source := by
  obtain ⟨read, whole, place⟩ := within
  refine ⟨read ++ lexer.rest.take count, ?_, ?_⟩
  · rw [rest_skip, List.append_assoc, List.take_append_drop, whole]
  · rw [Position.after_append, ← place]
    rfl

theorem Within.next (within : lexer.Within source) : lexer.next.2.Within source := by
  rw [next_snd]
  exact within.skip _

/-- The place that a call of `next` tells is where the lexer stood, or how far it came. -/
theorem Within.accurate_next (within : lexer.Within source) :
    ∀ place ∈ lexedPlaces (lexer.next.1.map fun token => [token]), Accurate source place := by
  have word := within.skip (gapLength lexer.rest)
  have stop := word.skip (lexeme (lexer.skip (gapLength lexer.rest)).rest).1
  intro place member
  simp only [Lexer.next] at member
  split at member
  · obtain rfl := List.mem_singleton.mp member
    exact word.accurate
  · next fault _ =>
    obtain rfl := List.mem_singleton.mp member
    rcases fault with c | (⟨digit, base⟩ | _)
    · exact word.accurate
    · exact stop.accurate
    · exact word.accurate

theorem Within.upTo (within : lexer.Within source) (count : Nat) :
    (lexer.upTo count).2.Within source ∧
      ∀ place ∈ lexedPlaces (lexer.upTo count).1, Accurate source place := by
  induction count generalizing lexer with
  | zero => exact ⟨within, nofun⟩
  | succ count ih =>
    have here := within.accurate_next
    have behind := within.next
    rw [Lexer.upTo]
    rcases result : lexer.next with ⟨error | token, after⟩ <;> rw [result] at here behind
    · exact ⟨behind, here⟩
    · dsimp only
      split
      · exact ⟨behind, here⟩
      · obtain ⟨stop, later⟩ := ih behind
        refine ⟨stop, ?_⟩
        rcases others : (Lexer.upTo count after).1 with error | tokens <;> rw [others] at later
        · exact later
        · exact List.forall_mem_cons.mpr ⟨here _ (List.mem_singleton.mpr rfl), later⟩

theorem Within.answer (within : lexer.Within source) (call : Call) :
    (lexer.answer call).2.Within source ∧
      ∀ place ∈ lexedPlaces (lexer.answer call).1, Accurate source place := by
  cases call with
  | next => exact ⟨within.next, within.accurate_next⟩
  | tokenize =>
    have read := within.upTo (lexer.rest.length + 1)
    rw [← tokenize] at read
    exact read

/-- The places of all tokens and errors are accurate, whatever the lexer is asked for. -/
theorem Within.outcomes (within : lexer.Within source) (calls : List Call) :
    ∀ outcome ∈ lexer.outcomes calls, ∀ place ∈ lexedPlaces outcome, Accurate source place := by
  induction calls generalizing lexer with
  | nil =>
    intro outcome member
    cases List.not_mem_nil member
  | cons call calls ih =>
    obtain ⟨behind, here⟩ := within.answer call
    intro outcome member
    rcases List.mem_cons.mp member with rfl | later
    · exact here
    · exact ih behind outcome later

theorem within_ofSource (source : String) : (Lexer.ofSource source).Within source.toList :=
  ⟨[], rfl, rfl⟩

end Lexer

/-- Whatever a lexer of a source is asked for, the places that it tells are accurate. -/
theorem accurate_of_outcomes (source : String) (calls : List Lexer.Call) :
    ∀ outcome ∈ (Lexer.ofSource source).outcomes calls, ∀ place ∈ lexedPlaces outcome,
      Accurate source.toList place :=
  (Lexer.within_ofSource source).outcomes calls

theorem accurate_of_tokensOf (source : String) :
    ∀ place ∈ lexedPlaces (tokensOf source), Accurate source.toList place :=
  ((Lexer.within_ofSource source).answer .tokenize).2

/-! ## Tokens one behind the other -/

/-- The tokens of a segmentation stand one behind the other, between where it begins and where it
ends. -/
theorem Segments.pairwise_offset {read text reached rest : List Char} {tokens : List Token}
    (segments : Segments read text tokens reached rest) :
    byteLength read ≤ byteLength reached ∧
      (∀ token ∈ tokens, byteLength read ≤ token.position.offset ∧
        token.position.offset < byteLength reached) ∧
      tokens.Pairwise fun one other => one.position.offset < other.position.offset := by
  induction segments with
  | nil => exact ⟨Nat.le_refl _, nofun, .nil⟩
  | @cons read gap word text reached rest kind tokens longestGap longestWord spells more ih =>
    obtain ⟨further, later, ordered⟩ := ih
    have some : 0 < byteLength word := by
      obtain ⟨c, others, rfl⟩ := List.exists_cons_of_ne_nil longestWord.formed.ne_nil
      exact Nat.lt_of_lt_of_le c.utf8Size_pos (Nat.le_add_right _ _)
    have place : (Position.start.after (read ++ gap)).offset = byteLength read + byteLength gap := by
      simp [Position.offset_after, Position.start]
    simp only [byteLength_append] at further later
    refine ⟨by omega, List.forall_mem_cons.mpr ⟨?_, fun token member => ?_⟩,
      List.pairwise_cons.mpr ⟨fun token member => ?_, ordered⟩⟩
    · dsimp only
      omega
    · have := later token member
      omega
    · have := later token member
      dsimp only
      omega

/-- Tokens stand at places of their own, one behind the other. -/
theorem pairwise_offset_of_tokensOf {source : String} {tokens : List Token}
    (found : tokensOf source = .ok tokens) :
    tokens.Pairwise fun one other => one.position.offset < other.position.offset := by
  obtain ⟨segments, ended⟩ := tokensOf_eq_ok_iff.mp found
  obtain ⟨_, before, ordered⟩ := segments.pairwise_offset
  refine List.pairwise_append.mpr ⟨ordered, List.pairwise_singleton _ _, fun token member last => ?_⟩
  rw [List.mem_singleton]
  rintro rfl
  have whole := segments.append_eq
  have := (before token member).2
  rw [List.nil_append] at whole
  simp only [Position.offset_after, whole, byteLength_append]
  omega

end MiniC
