/-
# MiniC.Token.Lexer — from text to tokens

A lexer is the text still to be read and the place where it begins. One call of `next` passes the
gap, reads the word behind it and yields a token, or the fault that stands there; it can go on
after either. At the end of the text `next` yields the end of the file as often as it is called.

After a fault the lexer stands past an unknown character, and at the digit where a literal failed.
An unknown character and a literal that is too large are reported where they begin, a digit that
is too big where it stands.

* `rest_next` — what `next` leaves is a suffix of what it was given.
* `length_next_lt` — `next` reads something unless it yields the end of the file.
* `tokenize_eq` — `tokenize` is `next` repeated up to the end of the file or the first fault.
-/
import MiniC.Fault
import MiniC.Text.Gap

namespace MiniC

set_option autoImplicit false

/-- The text still to be read, and the place of its first character. -/
structure Lexer where
  rest : List Char
  position : Position
  deriving Repr

namespace Lexer

/-- The lexer at the beginning of `source`. -/
def ofSource (source : String) : Lexer :=
  ⟨source.toList, Position.start⟩

/-- The lexer `count` characters further on. -/
def skip (lexer : Lexer) (count : Nat) : Lexer :=
  ⟨lexer.rest.drop count, lexer.position.after (lexer.rest.take count)⟩

/-- The place that a fault is reported at, of a word from `start` to `stop`. -/
def faultPlace (start stop : Position) : LexicalFault → Position
  | .literal (.digitTooBig ..) => stop
  | .literal .tooLarge => start
  | .unknownCharacter _ => start

/-- The next token or fault, and the lexer behind it. -/
def next (lexer : Lexer) : Except CompileError Token × Lexer :=
  let word := lexer.skip (gapLength lexer.rest)
  let (count, kind) := lexeme word.rest
  let after := word.skip count
  match kind with
  | .ok kind => (.ok ⟨kind, word.position, byteLength (word.rest.take count)⟩, after)
  | .error fault =>
    (.error ⟨.lexical fault, faultPlace word.position after.position fault⟩, after)

/-- At most `count` tokens, up to the end of the file or the first fault. -/
def upTo : (count : Nat) → Lexer → Except CompileError (List Token) × Lexer
  | 0, lexer => (.ok [], lexer)
  | count + 1, lexer =>
    match lexer.next with
    | (.error error, after) => (.error error, after)
    | (.ok token, after) =>
      if token.kind = .endOfFile then (.ok [token], after)
      else
        let (tokens, stop) := upTo count after
        (tokens.map (token :: ·), stop)

/-- All tokens up to the end of the file, which is the last of them, or the first fault. -/
def tokenize (lexer : Lexer) : Except CompileError (List Token) × Lexer :=
  upTo (lexer.rest.length + 1) lexer

/-! ## What reading leaves -/

@[simp] theorem rest_skip (lexer : Lexer) (count : Nat) :
    (lexer.skip count).rest = lexer.rest.drop count := rfl

theorem skip_skip (lexer : Lexer) (count more : Nat) :
    (lexer.skip count).skip more = lexer.skip (count + more) := by
  simp only [skip, List.drop_drop, Lexer.mk.injEq, true_and]
  rw [← Position.after_append, ← List.take_add]

/-- The characters that one call of `next` passes. -/
def nextLength (lexer : Lexer) : Nat :=
  gapLength lexer.rest + (lexeme (lexer.rest.drop (gapLength lexer.rest))).1

theorem next_snd (lexer : Lexer) : lexer.next.2 = lexer.skip lexer.nextLength := by
  simp only [next, nextLength]
  split <;> simp [skip_skip]

theorem rest_next (lexer : Lexer) :
    lexer.next.2.rest = lexer.rest.drop lexer.nextLength := by
  simp [next_snd]

theorem nextLength_le (lexer : Lexer) : lexer.nextLength ≤ lexer.rest.length := by
  have gap := gapLength_le lexer.rest
  have word := lexeme_le (lexer.rest.drop (gapLength lexer.rest))
  simp only [List.length_drop] at word
  simp only [nextLength]
  omega

/-- Whether only a gap is left. -/
def AtEnd (lexer : Lexer) : Prop :=
  lexer.rest.drop (gapLength lexer.rest) = []

/-- What `next` yields once only a gap is left. -/
theorem next_fst_of_atEnd {lexer : Lexer} (done : lexer.AtEnd) :
    lexer.next.1 = .ok ⟨.endOfFile, lexer.position.after lexer.rest, 0⟩ := by
  have whole : lexer.rest.take (gapLength lexer.rest) = lexer.rest := by
    rw [List.take_of_length_le]
    exact List.drop_eq_nil_iff.mp done
  unfold AtEnd at done
  simp [next, skip, done, whole, lexeme]

theorem nextLength_pos {lexer : Lexer} (more : ¬lexer.AtEnd) : 0 < lexer.nextLength := by
  have word := lexeme_pos more
  simp only [nextLength]
  omega

theorem length_next_lt {lexer : Lexer} (more : ¬lexer.AtEnd) :
    lexer.next.2.rest.length < lexer.rest.length := by
  have := nextLength_pos more
  have := nextLength_le lexer
  simp only [rest_next, List.length_drop]
  omega

/-- Only the empty text spells the end of the file. -/
theorem eq_nil_of_lexeme {text : List Char} (ended : (lexeme text).2 = .ok .endOfFile) :
    text = [] := by
  unfold lexeme at ended
  split at ended
  · rfl
  · next c rest =>
    split at ended
    · rcases read : (Literal.read (c :: rest)).2 with fault | value <;>
        simp only [Prod.map_snd, read] at ended <;> cases ended
    · split at ended
      · exact absurd (Except.ok.inj ended) (Kind.ofWord_ne_endOfFile _)
      · split at ended <;> simp at ended

theorem atEnd_of_next {lexer : Lexer} {token : Token} (found : lexer.next.1 = .ok token)
    (ended : token.kind = .endOfFile) : lexer.AtEnd := by
  apply eq_nil_of_lexeme
  simp only [next, rest_skip] at found
  split at found
  · next kind read =>
    simp only [Except.ok.injEq] at found
    subst found
    simp only at ended
    rw [read, ended]
  · simp at found

theorem kind_of_atEnd {lexer : Lexer} {token : Token} (found : lexer.next.1 = .ok token)
    (done : lexer.AtEnd) : token.kind = .endOfFile := by
  rw [next_fst_of_atEnd done] at found
  rw [← Except.ok.inj found]

/-! ## All tokens -/

/-- A bound past the number of characters is no bound. -/
theorem upTo_eq_upTo {count other : Nat} {lexer : Lexer} (enough : lexer.rest.length < count)
    (otherEnough : lexer.rest.length < other) : upTo count lexer = upTo other lexer := by
  induction count generalizing lexer other with
  | zero => exact absurd enough (Nat.not_lt_zero _)
  | succ count ih =>
    cases other with
    | zero => exact absurd otherEnough (Nat.not_lt_zero _)
    | succ other =>
      rw [upTo, upTo]
      rcases result : lexer.next with ⟨error | token, after⟩
      · rfl
      · by_cases ended : token.kind = .endOfFile
        · simp [ended]
        · have shorter := length_next_lt fun done =>
            ended (kind_of_atEnd (congrArg Prod.fst result) done)
          simp only [result] at shorter
          have same : upTo count after = upTo other after := ih (by omega) (by omega)
          simp only [ended, if_false, same]

/-- `tokenize` is `next` repeated up to the end of the file or the first fault. -/
theorem tokenize_eq (lexer : Lexer) :
    lexer.tokenize =
      match lexer.next with
      | (.error error, after) => (.error error, after)
      | (.ok token, after) =>
        if token.kind = .endOfFile then (.ok [token], after)
        else (after.tokenize.1.map (token :: ·), after.tokenize.2) := by
  rw [tokenize, upTo]
  rcases result : lexer.next with ⟨error | token, after⟩
  · rfl
  · by_cases ended : token.kind = .endOfFile
    · simp [ended]
    · have shorter := length_next_lt fun done =>
        ended (kind_of_atEnd (congrArg Prod.fst result) done)
      simp only [result] at shorter
      simp only [ended, if_false, tokenize]
      rw [upTo_eq_upTo shorter (Nat.lt_succ_self _)]

end Lexer

/-- The tokens of a source. -/
def tokensOf (source : String) : Except CompileError (List Token) :=
  (Lexer.ofSource source).tokenize.1

end MiniC
