/-
# MiniC.Proofs.Numeral — literals stand for the number that is written

Where the lexer comes to a decimal digit, the literal is the longest run of letters, digits and
underscores that begins there. `Written` takes it apart into what names its base and its digits;
`ranks` reads these off, without the underscores, and `positional` says what number they stand for.
A literal is valid if its base has all of its digits and the number is less than two to the
sixty-third.

The lexer adds up digits from the left and gives up at the first one that does not fit, because of
the base or because of the size; `next_literal` says that this is the number, or else the first
digit up to which the literal is not valid.
-/
import MiniC.Proofs.Segmentation

namespace MiniC

set_option autoImplicit false

namespace Literal

/-! ## The number that is written -/

/-- A literal is written in the base that its first two characters name, or else in base ten. What
stands behind them are its digits. -/
inductive Written : (word opening : List Char) → (base : Nat) → (text : List Char) → Prop
  | binary {text : List Char} : Written ('0' :: 'b' :: text) ['0', 'b'] 2 text
  | octal {text : List Char} : Written ('0' :: 'o' :: text) ['0', 'o'] 8 text
  | decimal {text : List Char} : Written ('0' :: 'd' :: text) ['0', 'd'] 10 text
  | hexadecimal {text : List Char} : Written ('0' :: 'x' :: text) ['0', 'x'] 16 text
  | bare {word : List Char}
      (unnamed : ∀ letter ∈ ['b', 'o', 'd', 'x'], ∀ text, word ≠ '0' :: letter :: text) :
      Written word [] 10 word

/-- The digits of base thirty-six in their order. -/
def numerals : List Char := "0123456789abcdefghijklmnopqrstuvwxyz".toList

/-- What a letter or digit counts, in upper or lower case. -/
def rank (c : Char) : Nat := numerals.idxOf c.toLower

/-- The digits of a text; underscores are none. -/
def ranks (text : List Char) : List Nat := (text.filter (· ≠ '_')).map rank

/-- The number that digits stand for, the first of them being the most significant. -/
def positional (base : Nat) : (digits : List Nat) → Nat
  | [] => 0
  | digit :: rest => digit * Nat.pow base rest.length + positional base rest

/-- The base has all digits of the text, and the number is one of sixty-three bits. -/
structure Valid (base : Nat) (text : List Char) : Prop where
  digit_lt : ∀ digit ∈ ranks text, digit < base
  number_lt : positional base (ranks text) < Nat.pow 2 63

/-! ## Digits -/

/-- The range of the letters and digits is small enough to be looked through. -/
theorem toNat_lt_of_isAlphanum {c : Char} (inside : c.isAlphanum = true) : c.toNat < 128 := by
  rcases Bool.or_eq_true_iff.mp inside with letter | decimal
  · rcases Bool.or_eq_true_iff.mp letter with upper | lower
    · have : c.val.toNat ≤ 90 := (of_decide_eq_true upper).2
      exact Nat.lt_of_le_of_lt this (by decide)
    · have : c.val.toNat ≤ 122 := of_decide_eq_true (Bool.and_eq_true_iff.mp lower).2
      exact Nat.lt_of_le_of_lt this (by decide)
  · have : c.val.toNat ≤ 57 := of_decide_eq_true (Bool.and_eq_true_iff.mp decimal).2
    exact Nat.lt_of_le_of_lt this (by decide)

theorem digitValue?_eq_rank {c : Char} (inside : c.isAlphanum = true) :
    digitValue? c = some (rank c) := by
  have all : ∀ code < 128, (Char.ofNat code).isAlphanum = true →
      digitValue? (Char.ofNat code) = some (rank (Char.ofNat code)) := by decide +kernel
  have found := all c.toNat (toNat_lt_of_isAlphanum inside)
  rw [Char.ofNat_toNat] at found
  exact found inside

theorem digits_eq_ranks {text : List Char} (run : ∀ c ∈ text, isNameChar c = true) :
    digits text = ranks text := by
  induction text with
  | nil => rfl
  | cons c text ih =>
    have later := ih fun d member => run d (List.mem_cons_of_mem _ member)
    by_cases separator : c = '_'
    · subst separator
      exact later
    · have inside : c.isAlphanum = true := by
        simpa [isNameChar, separator] using run c List.mem_cons_self
      rw [digits_cons_of_some (digitValue?_eq_rank inside), later, ranks, ranks,
        List.filter_cons_of_pos (by simpa using separator), List.map_cons]

/-- Adding up digits from the left comes to the number that they stand for. -/
theorem valueFrom_eq (base value : Nat) (digits : List Nat) :
    valueFrom base value digits =
      value * Nat.pow base digits.length + positional base digits := by
  induction digits generalizing value with
  | nil => exact (Nat.mul_one value).symm
  | cons digit rest ih =>
    have power : Nat.pow base (rest.length + 1) = base * Nat.pow base rest.length := Nat.pow_succ'
    calc valueFrom base value (digit :: rest)
        = valueFrom base (value * base + digit) rest := rfl
      _ = (value * base + digit) * Nat.pow base rest.length + positional base rest := ih _
      _ = value * Nat.pow base (rest.length + 1) +
            (digit * Nat.pow base rest.length + positional base rest) := by
          rw [power, Nat.add_mul, Nat.mul_assoc, Nat.add_assoc]

theorem valueOf_eq {text : List Char} (run : ∀ c ∈ text, isNameChar c = true) (base : Nat) :
    valueOf base text = positional base (ranks text) := by
  rw [valueOf, valueFrom_eq, digits_eq_ranks run, Nat.zero_mul, Nat.zero_add]

theorem valid_iff_fits {base : Nat} {text : List Char} (run : ∀ c ∈ text, isNameChar c = true) :
    Valid base text ↔ Fits base text := by
  have number : valueFrom base 0 (digits text) = positional base (ranks text) := valueOf_eq run base
  have largest : maxLiteral + 1 = Nat.pow 2 63 := rfl
  constructor
  · rintro ⟨digit_lt, number_lt⟩
    exact ⟨by rwa [digits_eq_ranks run], by omega⟩
  · rintro ⟨digit_lt, value_le⟩
    exact ⟨by rwa [← digits_eq_ranks run], by omega⟩

theorem Written.split {word opening text : List Char} {base : Nat}
    (written : Written word opening base text) : Split word opening base text := by
  cases written with
  | binary | octal | decimal | hexadecimal => exact .named rfl
  | bare unnamed =>
    refine .plain fun letter text same => Option.eq_none_iff_forall_ne_some.mpr fun base names => ?_
    refine unnamed letter ?_ text same
    unfold namedBase? at names
    split at names <;> cases names <;> simp

/-- A text remains one of digits of the base with a further digit of the base, unless its value
gets too large. -/
theorem fits_append_digit_iff {base digit : Nat} {c : Char} (value : digitValue? c = some digit)
    {text : List Char} (fits : Fits base text) :
    Fits base (text ++ [c]) ↔ digit < base ∧ valueOf base (text ++ [c]) ≤ maxLiteral := by
  have further : digits (text ++ [c]) = digits text ++ [digit] := by
    rw [digits_append, digits_cons_of_some value, digits_nil]
  constructor
  · rintro ⟨digit_lt, value_le⟩
    exact ⟨digit_lt digit (by simp [further]), value_le⟩
  · rintro ⟨small, value_le⟩
    refine ⟨fun other member => ?_, value_le⟩
    rw [further, List.mem_append, List.mem_singleton] at member
    rcases member with member | rfl
    · exact fits.digit_lt other member
    · exact small

/-- A text that is not valid has a first digit up to which it is not. -/
theorem exists_of_not_valid {base : Nat} {text : List Char}
    (run : ∀ c ∈ text, isNameChar c = true) (invalid : ¬Valid base text) :
    ∃ good c rest, text = good ++ c :: rest ∧ digitValue? c = some (rank c) ∧ Valid base good ∧
      ¬Valid base (good ++ [c]) := by
  rcases @fitsFrom_or_fails base 0 (Nat.zero_le maxLiteral) text run with
    fits | ⟨good, c, rest, digit, rfl, fits, value, fails⟩
  · exact absurd ((valid_iff_fits run).mpr fits) invalid
  · have before : ∀ d ∈ good, isNameChar d = true := fun d member =>
      run d (List.mem_append_left _ member)
    have here : ∀ d ∈ [c], isNameChar d = true := fun d member => by
      obtain rfl := List.mem_singleton.mp member
      exact run d (by simp)
    have known : digitValue? c = some (rank c) := by
      refine digitValue?_eq_rank (Bool.not_eq_false _ ▸ fun outside => ?_)
      rw [(digitValue?_eq_none_iff c).mpr outside] at value
      cases value
    refine ⟨good, c, rest, rfl, known, (valid_iff_fits before).mpr fits, fun valid => ?_⟩
    have whole := (valid_iff_fits (List.forall_mem_append.mpr ⟨before, here⟩)).mp valid
    obtain ⟨small, room⟩ := (fits_append_digit_iff value fits).mp whole
    rw [valueOf_append_digit value] at room
    rcases fails with big | ⟨_, large⟩
    · exact absurd small (Nat.not_lt.mpr big)
    · exact absurd room (Nat.not_le.mpr large)

end Literal

/-! ## What the lexer makes of it -/

/-- Where the word behind a gap begins with a decimal digit, it is a literal that ends with its run
of letters, digits and underscores. If it is valid the lexer yields its number and passes all of it.
If not the lexer stops at the first digit up to which it is not valid, and reports that digit if the
base does not have it and the literal, for its size, otherwise. -/
theorem next_literal {read gap opening text rest : List Char} {c : Char} {others : List Char}
    {base : Nat} (longestGap : Longest Gap gap (c :: others ++ rest)) (decimal : c.isDigit = true)
    (run : ∀ d ∈ others, isNameChar d = true) (ends : EndsRun rest)
    (written : Literal.Written (c :: others) opening base text) :
    let start := read ++ gap
    let outcome := (Lexer.behind read (gap ++ (c :: others ++ rest))).next
    (Literal.Valid base text →
      outcome = (.ok ⟨.integer (Literal.positional base (Literal.ranks text)),
          Position.start.after start, byteLength (c :: others)⟩,
        Lexer.behind (start ++ (c :: others)) rest)) ∧
    (¬Literal.Valid base text →
      ∃ good digit more, text = good ++ digit :: more ∧ digit ≠ '_' ∧
        Literal.Valid base good ∧ ¬Literal.Valid base (good ++ [digit]) ∧
        outcome.2 = Lexer.behind (start ++ (opening ++ good)) (digit :: more ++ rest) ∧
        (base ≤ Literal.rank digit →
          outcome.1 = .error ⟨.lexical (.literal (.digitTooBig digit base)),
            Position.start.after (start ++ (opening ++ good))⟩) ∧
        (Literal.rank digit < base →
          outcome.1 = .error ⟨.lexical (.literal .tooLarge), Position.start.after start⟩)) := by
  intro start outcome
  have split := written.split
  have all : ∀ d ∈ c :: others, isNameChar d = true :=
    List.forall_mem_cons.mpr ⟨isNameChar_of_isDigit decimal, run⟩
  have inside : ∀ d ∈ text, isNameChar d = true := fun d member =>
    all d (by rw [split.append_eq]; exact List.mem_append_right _ member)
  have longestWord : LongestWord (c :: others) rest :=
    longestWord_of_endsRun (.literal decimal run) (isNameChar_of_isDigit decimal) ends
  refine ⟨fun valid => ?_, fun invalid => ?_⟩
  · have hasValue := Literal.HasValue.intro split ((Literal.valid_iff_fits inside).mp valid)
    rw [Literal.valueOf_eq inside] at hasValue
    exact Lexer.next_of_spells longestGap longestWord (.integer decimal run hasValue)
  · obtain ⟨good, digit, more, rfl, value, valid, fails⟩ :=
      Literal.exists_of_not_valid inside invalid
    have upTo : ∀ d ∈ good ++ [digit], isNameChar d = true := fun d member =>
      inside d (by rw [List.append_cons]; exact List.mem_append_left _ member)
    have fits := (Literal.valid_iff_fits (List.forall_mem_append.mp upTo).1).mp valid
    have separator : digit ≠ '_' := by
      rintro rfl
      cases value
    have whole : c :: others ++ rest = opening ++ good ++ (digit :: more ++ rest) := by
      rw [split.append_eq]
      simp
    have stops : ∀ fault, Literal.FailsBehind (c :: others) (opening ++ good) fault →
        outcome = (.error ⟨.lexical (.literal fault),
            (LexicalFault.literal fault).place start (opening ++ good)⟩,
          Lexer.behind (start ++ (opening ++ good)) (digit :: more ++ rest)) := by
      intro fault failsBehind
      have refused : Fails (c :: others ++ rest) (opening ++ good) (.literal fault) :=
        .literal decimal longestWord failsBehind
      rw [whole] at longestGap refused
      have next := @Lexer.next_of_fails read _ _ _ _ longestGap refused
      rwa [← whole] at next
    have big (le : base ≤ Literal.rank digit) := stops _ (.digitTooBig split fits value le)
    have large (less : Literal.rank digit < base) := by
      refine stops _ (.tooLarge split fits value less (Nat.lt_of_not_le fun le => fails ?_))
      exact (Literal.valid_iff_fits upTo).mpr
        ((Literal.fits_append_digit_iff value fits).mpr ⟨less, le⟩)
    refine ⟨good, digit, more, rfl, separator, valid, fails, ?_, fun le => by rw [big le]; rfl,
      fun less => by rw [large less]; rfl⟩
    rcases Nat.lt_or_ge (Literal.rank digit) base with less | le
    · rw [large less]
    · rw [big le]

/-- The largest number, in digits of both cases and with underscores, behind a comment. -/
theorem next_literal_largest :
    let gap := " // 8\n".toList
    let literal := "0x_7FFF_ffff_FFFF_FFFF".toList
    (Lexer.behind [] (gap ++ (literal ++ [';']))).next =
      (.ok ⟨.integer (Nat.pow 2 63 - 1), ⟨6, 2, 1⟩, 22⟩, Lexer.behind (gap ++ literal) [';']) := by
  intro gap literal
  have digits : literal = '0' :: 'x' :: "_7FFF_ffff_FFFF_FFFF".toList := by decide +kernel
  have valid : Literal.Valid 16 "_7FFF_ffff_FFFF_FFFF".toList :=
    ⟨by decide +kernel, by decide +kernel⟩
  have ends : EndsRun [';'] := by
    intro c first
    cases first
    decide
  have outcome := (@next_literal [] gap _ _ [';'] _ _ _ (longest_gap_iff.mpr (by decide +kernel))
    (by decide) (List.all_eq_true.mp (by decide +kernel)) ends .hexadecimal).1 valid
  rw [digits]
  exact outcome

end MiniC
