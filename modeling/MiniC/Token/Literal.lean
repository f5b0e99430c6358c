/-
# MiniC.Token.Literal — integer literals

A literal begins with a decimal digit. A leading `0b`, `0o`, `0d` or `0x` sets the base to two,
eight, ten or sixteen; without one the base is ten. Every letter or digit that follows is a digit,
`a` and `A` counting ten up to `z` and `Z` counting thirty-five, and an underscore separates digit
groups without a value of its own. An empty run of digits is zero.

Two things can go wrong, and the first of them in reading order decides: a digit that the base
does not have, and a value past `maxLiteral`. Either way reading stops at that digit.

`readWord` reads with signed words of sixty-four bits: a product or a sum that leaves the word makes
the value too large, and a letter or digit without a value counts what one likes.

* `readDigits_le` — no more is read than the text holds.
* `digitValue?_eq_none_iff` — exactly the ASCII letters and digits have a value.
* `readDigits_value_le` — a value that is read is at most `maxLiteral`.
* `readWord_eq` — signed words read what `read` does, whatever a digit without a value counts.
-/

namespace MiniC.Literal

set_option autoImplicit false

/-- Why a literal cannot be read. -/
inductive Fault where
  | digitTooBig (digit : Char) (base : Nat)
  | tooLarge
  deriving DecidableEq, Repr

/-- The largest value of a literal, that of a signed word of sixty-four bits. -/
def maxLiteral : Nat := 0x7FFF_FFFF_FFFF_FFFF

/-- The value of a letter or digit in the largest base, thirty-six. -/
def digitValue? (c : Char) : Option Nat :=
  if c.isDigit then some (c.toNat - '0'.toNat)
  else if c.isLower then some (c.toNat - 'a'.toNat + 10)
  else if c.isUpper then some (c.toNat - 'A'.toNat + 10)
  else none

/-- The base that the letter after a leading zero names. -/
def namedBase? : Char → Option Nat
  | 'b' => some 2
  | 'o' => some 8
  | 'd' => some 10
  | 'x' => some 16
  | _ => none

/-- The length of the leading part that names the base, and the base. -/
def splitBase : List Char → Nat × Nat
  | '0' :: letter :: _ =>
    match namedBase? letter with
    | some base => (2, base)
    | none => (0, 10)
  | _ => (0, 10)

/-- Reads digits onto `value`: how many characters are read, and what they come to. -/
def readDigits (base : Nat) : (value : Nat) → List Char → Nat × Except Fault Nat
  | value, [] => (0, .ok value)
  | value, c :: rest =>
    if c = '_' then (readDigits base value rest).map (· + 1) id
    else
      match digitValue? c with
      | none => (0, .ok value)
      | some digit =>
        if base ≤ digit then (0, .error (.digitTooBig c base))
        else if maxLiteral < value * base + digit then (0, .error .tooLarge)
        else (readDigits base (value * base + digit) rest).map (· + 1) id

/-- Reads the literal at the beginning of `text`: how many characters are read, and its value. -/
def read (text : List Char) : Nat × Except Fault Nat :=
  let (named, base) := splitBase text
  let (digits, value) := readDigits base 0 (text.drop named)
  (named + digits, value)

/-! ## Reading with signed words -/

/-- The number, if it is one of a signed word of sixty-four bits. -/
def checked (number : Int) : Option Int :=
  if -(maxLiteral + 1 : Int) ≤ number ∧ number ≤ maxLiteral then some number else none

/-- A further digit behind a value, unless the product or the sum leaves the word. -/
def accumulate (base : Nat) (value digit : Int) : Option Int := do
  checked ((← checked (value * base)) + digit)

/-- The value of a letter or digit, or else the fallback. -/
def digitOr (fallback : Int) (c : Char) : Int :=
  match digitValue? c with
  | some digit => digit
  | none => fallback

/-- Reads digits onto `value`, one letter or digit after the other. -/
def readWordDigits (fallback : Int) (base : Nat) :
    (value : Int) → List Char → Nat × Except Fault Int
  | value, [] => (0, .ok value)
  | value, c :: rest =>
    if c = '_' then (readWordDigits fallback base value rest).map (· + 1) id
    else if c.isAlphanum then
      if base ≤ digitOr fallback c then (0, .error (.digitTooBig c base))
      else
        match accumulate base value (digitOr fallback c) with
        | none => (0, .error .tooLarge)
        | some next => (readWordDigits fallback base next rest).map (· + 1) id
    else (0, .ok value)

/-- Reads the literal at the beginning of `text` with signed words. -/
def readWord (fallback : Int) (text : List Char) : Nat × Except Fault Int :=
  let (named, base) := splitBase text
  let (digits, value) := readWordDigits fallback base 0 (text.drop named)
  (named + digits, value)

/-- The same result with its value in a signed word. -/
def inWord : Except Fault Nat → Except Fault Int
  | .ok value => .ok value
  | .error fault => .error fault

/-! ## What reading keeps -/

theorem digitValue?_eq_none_iff (c : Char) : digitValue? c = none ↔ c.isAlphanum = false := by
  unfold digitValue? Char.isAlphanum Char.isAlpha
  split <;> rename_i digit
  · simp [digit]
  · split <;> rename_i lower
    · simp [lower]
    · split <;> rename_i upper <;> simp_all

theorem digitValue?_lt {c : Char} {digit : Nat} (found : digitValue? c = some digit) :
    digit < 36 := by
  unfold digitValue? at found
  split at found
  · next decimal =>
    simp only [Char.isDigit, Bool.and_eq_true, decide_eq_true_eq, UInt32.le_iff_toNat_le] at decimal
    have upper : c.val.toNat ≤ 57 := decimal.2
    have zero : '0'.val.toNat = 48 := rfl
    simp only [Option.some.injEq, Char.toNat] at found
    omega
  · split at found
    · next lower =>
      have within : (decide ('a'.val ≤ c.val) && decide (c.val ≤ 'z'.val)) = true := lower
      simp only [Bool.and_eq_true, decide_eq_true_eq, UInt32.le_iff_toNat_le] at within
      have upper : c.val.toNat ≤ 122 := within.2
      have least : 'a'.val.toNat = 97 := rfl
      simp only [Option.some.injEq, Char.toNat] at found
      omega
    · split at found
      · next capital =>
        have within : decide ('A'.val ≤ c.val ∧ c.val ≤ 'Z'.val) = true := capital
        simp only [decide_eq_true_eq, UInt32.le_iff_toNat_le] at within
        have upper : c.val.toNat ≤ 90 := within.2
        have least : 'A'.val.toNat = 65 := rfl
        simp only [Option.some.injEq, Char.toNat] at found
        omega
      · simp at found

theorem readDigits_le (base value : Nat) (text : List Char) :
    (readDigits base value text).1 ≤ text.length := by
  fun_induction readDigits base value text <;> simp_all

theorem readDigits_value_le {base value : Nat} {text : List Char} (start : value ≤ maxLiteral)
    {result : Nat} (read : (readDigits base value text).2 = .ok result) :
    result ≤ maxLiteral := by
  fun_induction readDigits base value text <;> simp_all

theorem splitBase_le (text : List Char) : (splitBase text).1 ≤ text.length := by
  unfold splitBase
  split
  · split <;> simp
  · simp

theorem read_le (text : List Char) : (read text).1 ≤ text.length := by
  have digits := readDigits_le (splitBase text).2 0 (text.drop (splitBase text).1)
  have named := splitBase_le text
  simp only [List.length_drop] at digits
  simp only [read]
  omega

/-! ## Signed words change nothing -/

theorem exists_digitValue? {c : Char} (inside : c.isAlphanum = true) :
    ∃ digit, digitValue? c = some digit ∧ digit < 36 := by
  rcases found : digitValue? c with _ | digit
  · rw [(digitValue?_eq_none_iff c).mp found] at inside
    cases inside
  · exact ⟨digit, rfl, digitValue?_lt found⟩

theorem isAlphanum_of_digitValue? {c : Char} {digit : Nat} (found : digitValue? c = some digit) :
    c.isAlphanum = true := by
  rcases outside : c.isAlphanum with _ | _
  · rw [(digitValue?_eq_none_iff c).mpr outside] at found
    cases found
  · rfl

theorem digitOr_of_some {c : Char} {digit : Nat} (found : digitValue? c = some digit)
    (fallback : Int) : digitOr fallback c = digit := by
  rw [digitOr, found]

theorem checked_of_le {number : Nat} (le : number ≤ maxLiteral) :
    checked number = some (number : Int) :=
  if_pos ⟨by omega, by omega⟩

theorem checked_of_lt {number : Nat} (lt : maxLiteral < number) : checked number = none :=
  if_neg fun within => by omega

/-- Product and sum stay in the word exactly if the sum does. -/
theorem accumulate_eq (base value digit : Nat) :
    accumulate base value digit =
      if maxLiteral < value * base + digit then none
      else some ((value * base + digit : Nat) : Int) := by
  have product : (value : Int) * base = (value * base : Nat) := (Int.natCast_mul ..).symm
  have sum : ((value * base : Nat) : Int) + digit = (value * base + digit : Nat) :=
    (Int.natCast_add ..).symm
  rw [accumulate, product]
  by_cases small : value * base ≤ maxLiteral
  · rw [checked_of_le small, Option.bind_eq_bind, Option.bind_some, sum]
    split
    · next large => exact checked_of_lt large
    · next fits => exact checked_of_le (Nat.le_of_not_lt fits)
  · rw [checked_of_lt (Nat.lt_of_not_le small), if_pos (by omega)]
    rfl

/-- Whatever the fallback is, digits are read to the same end. -/
theorem readWordDigits_eq (fallback : Int) (base value : Nat) (text : List Char) :
    readWordDigits fallback base value text = (readDigits base value text).map id inWord := by
  induction text generalizing value with
  | nil => rfl
  | cons c rest ih =>
    rw [readWordDigits, readDigits]
    by_cases separator : c = '_'
    · rw [if_pos separator, if_pos separator, ih]
      rfl
    · rw [if_neg separator, if_neg separator]
      rcases found : digitValue? c with _ | digit
      · rw [(digitValue?_eq_none_iff c).mp found]
        rfl
      · rw [if_pos (isAlphanum_of_digitValue? found), digitOr_of_some found, accumulate_eq]
        simp only [Int.ofNat_le]
        by_cases big : base ≤ digit
        · rw [if_pos big, if_pos big]
          rfl
        · rw [if_neg big, if_neg big]
          by_cases large : maxLiteral < value * base + digit
          · rw [if_pos large, if_pos large]
            rfl
          · rw [if_neg large, if_neg large]
            simp only [ih]
            rfl

/-- No literal is read otherwise with signed words, and none comes out less than zero. -/
theorem readWord_eq (fallback : Int) (text : List Char) :
    readWord fallback text = (read text).map id inWord := by
  rw [readWord, read]
  exact congrArg (Prod.map _ id) (readWordDigits_eq fallback (splitBase text).2 0 _)

end MiniC.Literal
