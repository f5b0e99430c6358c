/-
# MiniC.Token.Lexeme — the one word at the beginning of a text

What a word is follows from its first character. A decimal digit opens an integer literal; a
letter or an underscore opens a name or keyword, the longest run of ASCII letters, digits and
underscores; anything else has to be a symbol, of two characters where one fits and of one
otherwise.

* `lexeme` — how many characters are read at the beginning of a text, and the kind they spell.
* `lexeme_le` — no more is read than there is.
* `lexeme_pos` — something is read, fault or not, unless the text is empty.
-/
import MiniC.Token
import MiniC.Token.Literal

namespace MiniC

set_option autoImplicit false

/-- Why no word can be read. -/
inductive LexicalFault where
  | unknownCharacter (c : Char)
  | literal (fault : Literal.Fault)
  deriving DecidableEq, Repr

/-- Whether a name may begin with `c`. -/
def isNameStart (c : Char) : Bool :=
  c.isAlpha || c == '_'

/-- Whether a name may go on with `c`. -/
def isNameChar (c : Char) : Bool :=
  c.isAlphanum || c == '_'

/-- The kind that a run of name characters spells. -/
def Kind.ofWord (word : String) : Kind :=
  ((Keyword.ofSpelling? word).map Kind.keyword).getD (.name word)

/-- The longest symbol that begins with `first`, by what follows it. -/
def Symbol.longest? (first : Char) (rest : List Char) : Option Symbol :=
  (ofSpelling? (first :: rest.take 1)).or (ofSpelling? [first])

/-- The word at the beginning of a text: how many characters are read, and the kind they spell. -/
def lexeme : List Char → Nat × Except LexicalFault Kind
  | [] => (0, .ok .endOfFile)
  | c :: rest =>
    if c.isDigit then (Literal.read (c :: rest)).map id fun value =>
      (value.map Kind.integer).mapError LexicalFault.literal
    else if isNameStart c then
      let word := (c :: rest).takeWhile isNameChar
      (word.length, .ok (Kind.ofWord (String.ofList word)))
    else
      match Symbol.longest? c rest with
      | some symbol => (symbol.spelling.length, .ok (.symbol symbol))
      | none => (1, .error (.unknownCharacter c))

/-! ## What is read -/

theorem Symbol.longest?_spelling {first : Char} {rest : List Char} {symbol : Symbol}
    (found : longest? first rest = some symbol) :
    symbol.spelling = first :: rest.take 1 ∨ symbol.spelling = [first] := by
  unfold longest? at found
  rcases Option.or_eq_some_iff.mp found with two | ⟨_, one⟩
  · exact .inl (spelling_of_ofSpelling? two)
  · exact .inr (spelling_of_ofSpelling? one)

theorem Kind.ofWord_ne_endOfFile (word : String) : ofWord word ≠ .endOfFile := by
  unfold ofWord
  cases Keyword.ofSpelling? word <;> simp

theorem lexeme_le (text : List Char) : (lexeme text).1 ≤ text.length := by
  unfold lexeme
  split
  · simp
  · next c rest =>
    split
    · exact Literal.read_le (c :: rest)
    · split
      · exact (List.takeWhile_prefix isNameChar).length_le
      · split
        · next symbol found =>
          rcases Symbol.longest?_spelling found with spelling | spelling <;>
            simp only [spelling, List.length_cons, List.length_take, List.length_nil] <;> omega
        · simp

theorem isNameChar_of_isNameStart {c : Char} (opens : isNameStart c = true) :
    isNameChar c = true := by
  simp only [isNameStart, isNameChar, Char.isAlphanum, Bool.or_eq_true] at opens ⊢
  exact opens.imp_left .inl

/-- A digit of any base opens a literal. -/
theorem Literal.read_pos {c : Char} (decimal : c.isDigit = true) (rest : List Char) :
    0 < (read (c :: rest)).1 := by
  have known : ∃ digit, digitValue? c = some digit ∧ digit < 10 := by
    refine ⟨c.toNat - '0'.toNat, by simp [digitValue?, decimal], ?_⟩
    simp only [Char.isDigit, Bool.and_eq_true, decide_eq_true_eq, UInt32.le_iff_toNat_le] at decimal
    have upper : c.val.toNat ≤ 57 := decimal.2
    have zero : '0'.val.toNat = 48 := rfl
    simp only [Char.toNat]
    omega
  obtain ⟨digit, value, small⟩ := known
  have plain : splitBase (c :: rest) = (0, 10) → 0 < (read (c :: rest)).1 := by
    intro split
    have noSeparator : c ≠ '_' := by rintro rfl; simp [Char.isDigit] at decimal
    have fits : ¬maxLiteral < digit := by simp only [maxLiteral]; omega
    simp [read, split, readDigits, noSeparator, value, show ¬10 ≤ digit by omega, fits]
  unfold splitBase at plain
  split at plain
  · next letter more eq =>
    obtain ⟨rfl, rfl⟩ := List.cons.inj eq
    split at plain
    · next base named =>
      simp only [read, splitBase, named]
      omega
    · exact plain rfl
  · exact plain rfl

theorem lexeme_pos {text : List Char} (more : text ≠ []) : 0 < (lexeme text).1 := by
  unfold lexeme
  split
  · exact absurd rfl more
  · next c rest =>
    split
    · next decimal => exact Literal.read_pos decimal rest
    · split
      · next opens => simp [isNameChar_of_isNameStart opens]
      · split
        · next symbol found =>
          rcases Symbol.longest?_spelling found with spelling | spelling <;> simp [spelling]
        · exact Nat.one_pos

end MiniC
