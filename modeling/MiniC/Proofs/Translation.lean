/-
# MiniC.Proofs.Translation — a lexer at another place

What a lexer reads depends on the text in front of it and not on where that stands. A map of places
that goes along with reading from the lexer's place on takes what it yields there to what a lexer of
the same text yields at the other place.

* `tokenize_relocate` — all tokens, or the first fault, at the other place.
* `Position.below` — the place of a text once another one stands above it; `tokenize_below` — what
  that does to the tokens of the text.
-/
import MiniC.Proofs.Relocation.Scopes
import MiniC.Proofs.Segmentation

namespace MiniC

set_option autoImplicit false

variable {move : Position → Position}

/-- The token at the place that `move` tells. -/
def Token.relocate (move : Position → Position) (token : Token) : Token :=
  { token with position := move token.position }

namespace Lexer

/-- The lexer of the same text at the place that `move` tells. -/
def relocate (move : Position → Position) (lexer : Lexer) : Lexer :=
  ⟨lexer.rest, move lexer.position⟩

/-- The map goes along with reading from the lexer's place on. -/
def Carried (move : Position → Position) (lexer : Lexer) : Prop :=
  ∀ text, move (lexer.position.after text) = (move lexer.position).after text

variable {lexer : Lexer}

theorem Carried.skip (carried : lexer.Carried move) (count : Nat) :
    (lexer.skip count).Carried move := by
  intro text
  have whole := carried (lexer.rest.take count ++ text)
  rw [Position.after_append, Position.after_append, ← carried (lexer.rest.take count)] at whole
  exact whole

theorem skip_relocate (carried : lexer.Carried move) (count : Nat) :
    (lexer.relocate move).skip count = (lexer.skip count).relocate move :=
  congrArg (Lexer.mk _) (carried (lexer.rest.take count)).symm

theorem faultPlace_relocate (start stop : Position) (fault : LexicalFault) :
    faultPlace (move start) (move stop) fault = move (faultPlace start stop fault) := by
  rcases fault with c | (⟨digit, base⟩ | _) <;> rfl

/-! ## Reading at another place -/

theorem next_relocate (carried : lexer.Carried move) :
    (lexer.relocate move).next =
      (relocateOutcome move (Token.relocate move) lexer.next.1, lexer.next.2.relocate move) := by
  have word := skip_relocate carried (gapLength lexer.rest)
  have behind := skip_relocate (carried.skip (gapLength lexer.rest))
  simp only [next]
  rw [show (lexer.relocate move).rest = lexer.rest from rfl, word, behind]
  rw [show ((lexer.skip (gapLength lexer.rest)).relocate move).rest =
    (lexer.skip (gapLength lexer.rest)).rest from rfl]
  rcases lexeme (lexer.skip (gapLength lexer.rest)).rest with ⟨count, fault | kind⟩
  · exact congrArg (fun place => (Except.error (CompileError.mk (.lexical fault) place), _))
      (faultPlace_relocate _ _ fault)
  · rfl

theorem upTo_relocate (carried : lexer.Carried move) (count : Nat) :
    upTo count (lexer.relocate move) =
      (relocateOutcome move (List.map (Token.relocate move)) (upTo count lexer).1,
        (upTo count lexer).2.relocate move) := by
  induction count generalizing lexer with
  | zero => rfl
  | succ count ih =>
    have further : lexer.next.2.Carried move := by
      rw [next_snd]
      exact carried.skip _
    rw [upTo, upTo, next_relocate carried]
    rcases result : lexer.next with ⟨error | token, after⟩
    · rfl
    · rw [result] at further
      have later := ih further
      by_cases ended : token.kind = .endOfFile
      · simp [relocateOutcome, Token.relocate, ended]
      · simp only [relocateOutcome, Token.relocate, ended, if_false, later]
        cases (upTo count after).1 <;> rfl

/-- All tokens of a text, or the first fault in it, at another place. -/
theorem tokenize_relocate (carried : lexer.Carried move) :
    (lexer.relocate move).tokenize =
      (relocateOutcome move (List.map (Token.relocate move)) lexer.tokenize.1,
        lexer.tokenize.2.relocate move) :=
  upTo_relocate carried _

end Lexer

/-! ## Below another text -/

/-- The place of a text once another text and a line feed stand in front of it. -/
def Position.below (text : List Char) (place : Position) : Position :=
  ⟨byteLength text + 1 + place.offset, text.count '\n' + 1 + place.line, place.column⟩

theorem Position.below_after (text read : List Char) (place : Position) :
    (place.after read).below text = (place.below text).after read := by
  induction read generalizing place with
  | nil => rfl
  | cons c read ih =>
    rw [after_cons, after_cons, ih]
    congr 1
    unfold step
    split <;> simp [below, Nat.add_assoc]

/-- A text begins at the first column below another one. -/
theorem Position.after_lineFeed (text : List Char) :
    start.after (text ++ ['\n']) = start.below text := by
  have bytes := offset_after start text
  have lines := line_after start text
  have single : '\n'.utf8Size = 1 := rfl
  rw [after_append, after_cons, after_nil, step, if_pos rfl, bytes, lines, single, below]
  simp [start, Nat.add_comm]

/-- The tokens of a text below another one. -/
theorem Lexer.tokenize_below (text more : List Char) :
    (behind (text ++ ['\n']) more).tokenize.1 =
      relocateOutcome (Position.below text) (List.map (Token.relocate (Position.below text)))
        (behind [] more).tokenize.1 := by
  have above : (behind [] more).Carried (Position.below text) :=
    fun read => Position.below_after _ read _
  rw [behind, Position.after_lineFeed]
  exact congrArg Prod.fst (tokenize_relocate above)

end MiniC
