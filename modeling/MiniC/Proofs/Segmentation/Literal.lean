/-
# MiniC.Proofs.Segmentation.Literal — what a literal comes to

The value of a literal, said without the function that reads it. Its text is a base and digits in
that base; every letter and digit is a digit of base thirty-six, and underscores have no value. The
literal is valid if the base has all of its digits and their value is at most `maxLiteral`.

A literal that is not valid fails at the first digit up to which it is not: because the base does
not have that digit, or because the value gets too large there.

* `read_of_value`, `read_of_fault` — the reader finds the value, or the fault and its place.
* `value_or_fault` — every literal has a value or a fault.
-/
import MiniC.Token.Lexeme

namespace MiniC

set_option autoImplicit false

/-- A run of name characters ends in front of this text. -/
def EndsRun (rest : List Char) : Prop :=
  ∀ c ∈ rest.head?, isNameChar c = false

namespace Literal

/-! ## Digits and their value -/

/-- The digits of a text, underscores left out. -/
def digits (text : List Char) : List Nat :=
  text.filterMap digitValue?

/-- The value of further digits behind a value. -/
def valueFrom (base value : Nat) (digits : List Nat) : Nat :=
  digits.foldl (fun value digit => value * base + digit) value

/-- The digits of the text may stand behind a value. -/
structure FitsFrom (base value : Nat) (text : List Char) : Prop where
  digit_lt : ∀ digit ∈ digits text, digit < base
  value_le : valueFrom base value (digits text) ≤ maxLiteral

/-- The value of digits. -/
def valueOf (base : Nat) (text : List Char) : Nat :=
  valueFrom base 0 (digits text)

/-- The text is one of digits of the base whose value is not too large. -/
def Fits (base : Nat) (text : List Char) : Prop :=
  FitsFrom base 0 text

/-- A literal is what names its base, if anything does, and its digits. -/
inductive Split : (word named : List Char) → (base : Nat) → (text : List Char) → Prop
  | named {letter : Char} {base : Nat} {text : List Char}
      (names : namedBase? letter = some base) :
      Split ('0' :: letter :: text) ['0', letter] base text
  | plain {word : List Char}
      (unnamed : ∀ letter text, word = '0' :: letter :: text → namedBase? letter = none) :
      Split word [] 10 word

/-- The literal has a value. -/
inductive HasValue (word : List Char) : Nat → Prop
  | intro {named text : List Char} {base : Nat} (split : Split word named base text)
      (fits : Fits base text) : HasValue word (valueOf base text)

/-- The literal fails behind some of its characters. -/
inductive FailsBehind (word : List Char) : (read : List Char) → Fault → Prop
  | digitTooBig {named good rest : List Char} {base digit : Nat} {c : Char}
      (split : Split word named base (good ++ c :: rest)) (fits : Fits base good)
      (value : digitValue? c = some digit) (big : base ≤ digit) :
      FailsBehind word (named ++ good) (.digitTooBig c base)
  | tooLarge {named good rest : List Char} {base digit : Nat} {c : Char}
      (split : Split word named base (good ++ c :: rest)) (fits : Fits base good)
      (value : digitValue? c = some digit) (small : digit < base)
      (large : maxLiteral < valueOf base (good ++ [c])) :
      FailsBehind word (named ++ good) .tooLarge

/-! ## Name characters -/

/-- A name character without a value is an underscore. -/
theorem eq_underscore_of_isNameChar {c : Char} (inside : isNameChar c = true)
    (none : digitValue? c = none) : c = '_' := by
  simpa [isNameChar, (digitValue?_eq_none_iff c).mp none] using inside

theorem digitValue?_of_not_isNameChar {c : Char} (outside : isNameChar c = false) :
    digitValue? c = none ∧ c ≠ '_' := by
  simp only [isNameChar, Bool.or_eq_false_iff, beq_eq_false_iff_ne] at outside
  exact ⟨(digitValue?_eq_none_iff c).mpr outside.1, outside.2⟩

@[simp] theorem digits_nil : digits [] = [] := rfl

theorem digits_append (text more : List Char) : digits (text ++ more) = digits text ++ digits more :=
  List.filterMap_append

theorem digits_cons_of_some {c : Char} {digit : Nat} (value : digitValue? c = some digit)
    (text : List Char) : digits (c :: text) = digit :: digits text := by
  rw [digits, List.filterMap_cons, value]
  rfl

theorem valueOf_append_digit {base digit : Nat} {c : Char} (value : digitValue? c = some digit)
    (text : List Char) : valueOf base (text ++ [c]) = valueOf base text * base + digit := by
  rw [valueOf, digits_append, digits_cons_of_some value, digits_nil, valueFrom, List.foldl_append]
  rfl

/-- Further digits do not make a value smaller. -/
theorem le_valueFrom {base : Nat} (pos : 0 < base) (value : Nat) (digits : List Nat) :
    value ≤ valueFrom base value digits := by
  induction digits generalizing value with
  | nil => exact Nat.le_refl _
  | cons digit digits ih =>
    calc value ≤ value * base := Nat.le_mul_of_pos_right value pos
      _ ≤ value * base + digit := Nat.le_add_right _ _
      _ ≤ valueFrom base value (digit :: digits) := ih (value * base + digit)

theorem FitsFrom.cons {base value digit : Nat} {c : Char} {text : List Char}
    (found : digitValue? c = some digit) (fits : FitsFrom base value (c :: text)) :
    digit < base ∧ FitsFrom base (value * base + digit) text := by
  obtain ⟨digit_lt, value_le⟩ := fits
  rw [digits_cons_of_some found] at digit_lt value_le
  exact ⟨digit_lt digit List.mem_cons_self,
    fun other member => digit_lt other (List.mem_cons_of_mem _ member), value_le⟩

theorem FitsFrom.of_cons {base value digit : Nat} {c : Char} {text : List Char}
    (found : digitValue? c = some digit) (small : digit < base)
    (fits : FitsFrom base (value * base + digit) text) : FitsFrom base value (c :: text) := by
  obtain ⟨digit_lt, value_le⟩ := fits
  constructor <;> rw [digits_cons_of_some found]
  · intro other member
    rcases List.mem_cons.mp member with rfl | member
    · exact small
    · exact digit_lt other member
  · exact value_le

/-! ## Reading digits -/

/-- A character with a value is a digit of the literal. -/
theorem readDigits_digit {base value digit : Nat} {c : Char} (found : digitValue? c = some digit)
    (rest : List Char) :
    readDigits base value (c :: rest) =
      if base ≤ digit then (0, .error (.digitTooBig c base))
      else if maxLiteral < value * base + digit then (0, .error .tooLarge)
      else (readDigits base (value * base + digit) rest).map (· + 1) id := by
  have separator : c ≠ '_' := by
    rintro rfl
    cases found
  rw [readDigits, if_neg separator, found]

/-- Digits that may stand behind the value are read on to what follows them. -/
theorem readDigits_append {base : Nat} (pos : 0 < base) {text : List Char}
    (run : ∀ c ∈ text, isNameChar c = true) {value : Nat} (fits : FitsFrom base value text)
    (more : List Char) :
    readDigits base value (text ++ more) =
      (readDigits base (valueFrom base value (digits text)) more).map (· + text.length) id := by
  induction text generalizing value with
  | nil => rfl
  | cons c text ih =>
    have later : ∀ d ∈ text, isNameChar d = true := fun d member =>
      run d (List.mem_cons_of_mem _ member)
    rcases found : digitValue? c with _ | digit
    · obtain rfl := eq_underscore_of_isNameChar (run c List.mem_cons_self) found
      rw [List.cons_append, readDigits, if_pos rfl,
        ih later ⟨fits.digit_lt, fits.value_le⟩]
      rfl
    · obtain ⟨small, behind⟩ := fits.cons found
      have room : value * base + digit ≤ maxLiteral :=
        Nat.le_trans (le_valueFrom pos _ _) behind.value_le
      rw [List.cons_append, readDigits_digit found, if_neg (Nat.not_le.mpr small),
        if_neg (Nat.not_lt.mpr room), ih later behind, digits_cons_of_some found]
      rfl

theorem readDigits_of_endsRun {rest : List Char} (ends : EndsRun rest) (base value : Nat) :
    readDigits base value rest = (0, .ok value) := by
  cases rest with
  | nil => rfl
  | cons c rest =>
    obtain ⟨none, separator⟩ := digitValue?_of_not_isNameChar (ends c rfl)
    rw [readDigits, if_neg separator, none]

/-- Digits may stand behind a value, or there is a first one up to which they may not. -/
theorem fitsFrom_or_fails {base value : Nat} (within : value ≤ maxLiteral) {text : List Char}
    (run : ∀ c ∈ text, isNameChar c = true) :
    FitsFrom base value text ∨
      ∃ good c rest digit, text = good ++ c :: rest ∧ FitsFrom base value good ∧
        digitValue? c = some digit ∧
        (base ≤ digit ∨
          digit < base ∧ maxLiteral < valueFrom base value (digits good) * base + digit) := by
  induction text generalizing value with
  | nil => exact .inl ⟨by simp, within⟩
  | cons c text ih =>
    have later : ∀ d ∈ text, isNameChar d = true := fun d member =>
      run d (List.mem_cons_of_mem _ member)
    rcases found : digitValue? c with _ | digit
    · obtain rfl := eq_underscore_of_isNameChar (run c List.mem_cons_self) found
      rcases ih within later with fits | ⟨good, d, rest, digit, rfl, fits, fails⟩
      · exact .inl ⟨fits.digit_lt, fits.value_le⟩
      · exact .inr ⟨'_' :: good, d, rest, digit, rfl, ⟨fits.digit_lt, fits.value_le⟩, fails⟩
    · rcases Nat.lt_or_ge digit base with small | big
      · rcases Nat.lt_or_ge maxLiteral (value * base + digit) with large | room
        · exact .inr ⟨[], c, text, digit, rfl, ⟨by simp, within⟩, found, .inr ⟨small, large⟩⟩
        · rcases ih room later with fits | ⟨good, d, rest, other, rfl, fits, value, fails⟩
          · exact .inl (fits.of_cons found small)
          · refine .inr ⟨c :: good, d, rest, other, rfl, fits.of_cons found small, value, ?_⟩
            rwa [digits_cons_of_some found]
      · exact .inr ⟨[], c, text, digit, rfl, ⟨by simp, within⟩, found, .inl big⟩

/-! ## Bases -/

theorem exists_split (word : List Char) : ∃ named base text, Split word named base text := by
  by_cases marked : ∃ letter text base, word = '0' :: letter :: text ∧ namedBase? letter = some base
  · obtain ⟨letter, text, base, rfl, names⟩ := marked
    exact ⟨_, base, text, .named names⟩
  · refine ⟨[], 10, word, .plain fun letter text same => ?_⟩
    exact Option.eq_none_iff_forall_ne_some.mpr fun base names =>
      marked ⟨letter, text, base, same, names⟩

theorem namedBase?_pos {letter : Char} {base : Nat} (names : namedBase? letter = some base) :
    0 < base ∧ isNameChar letter = true := by
  unfold namedBase? at names
  split at names <;> cases names <;> decide

/-- What follows a literal does not name its base. -/
theorem namedBase?_of_append {word rest more : List Char} {letter : Char} (ends : EndsRun rest)
    (unnamed : ∀ letter text, word = '0' :: letter :: text → namedBase? letter = none)
    (same : word ++ rest = '0' :: letter :: more) : namedBase? letter = none := by
  match word with
  | [] =>
    rw [List.nil_append] at same
    exact absurd (ends '0' (by rw [same]; rfl)) (by decide)
  | [first] =>
    simp only [List.cons_append, List.nil_append, List.cons.injEq] at same
    refine Option.eq_none_iff_forall_ne_some.mpr fun base names => ?_
    have outside := ends letter (by rw [same.2]; rfl)
    rw [(namedBase?_pos names).2] at outside
    cases outside
  | first :: second :: others =>
    simp only [List.cons_append, List.cons.injEq] at same
    obtain ⟨rfl, rfl, _⟩ := same
    exact unnamed _ _ rfl

theorem Split.append_eq {word named text : List Char} {base : Nat}
    (split : Split word named base text) : word = named ++ text := by
  cases split <;> rfl

theorem Split.base_pos {word named text : List Char} {base : Nat}
    (split : Split word named base text) : 0 < base := by
  cases split with
  | named names => exact (namedBase?_pos names).1
  | plain => decide

/-- A literal begins with its base, whatever follows the literal. -/
theorem Split.splitBase_eq {word named text rest : List Char} {base : Nat}
    (split : Split word named base text) (ends : EndsRun rest) :
    splitBase (word ++ rest) = (named.length, base) := by
  cases split with
  | named names =>
    simp only [List.cons_append, splitBase, names]
    rfl
  | plain unnamed =>
    unfold splitBase
    split
    · next same => rw [namedBase?_of_append ends unnamed same]; rfl
    · rfl

/-! ## Reading literals -/

/-- A literal is read as its digits are. -/
theorem read_of_split {word named text rest : List Char} {base : Nat}
    (split : Split word named base text) (ends : EndsRun rest) :
    read (word ++ rest) = (readDigits base 0 (text ++ rest)).map (named.length + ·) id := by
  have found := split.splitBase_eq ends
  obtain rfl := split.append_eq
  have behind : (named ++ text ++ rest).drop named.length = text ++ rest := by
    rw [List.append_assoc, List.drop_left]
  simp only [read, found, behind]
  rfl

/-- The reader finds the value of a literal. -/
theorem read_of_value {word rest : List Char} {value : Nat}
    (run : ∀ c ∈ word, isNameChar c = true) (hasValue : HasValue word value)
    (ends : EndsRun rest) : read (word ++ rest) = (word.length, .ok value) := by
  obtain ⟨split, fits⟩ := hasValue
  obtain rfl := split.append_eq
  rw [read_of_split split ends,
    readDigits_append split.base_pos (fun c member => run c (List.mem_append_right _ member)) fits,
    readDigits_of_endsRun ends]
  simp [valueOf]

/-- The reader finds the fault of a literal, and stops there. -/
theorem read_of_fault {word good rest : List Char} {fault : Fault}
    (run : ∀ c ∈ word, isNameChar c = true) (fails : FailsBehind word good fault)
    (ends : EndsRun rest) : read (word ++ rest) = (good.length, .error fault) := by
  cases fails with
  | digitTooBig split fits value big =>
    obtain rfl := split.append_eq
    rw [read_of_split split ends, List.append_assoc,
      readDigits_append split.base_pos (fun c member => run c (by simp [member])) fits,
      List.cons_append,
      readDigits_digit value, if_pos big]
    simp
  | tooLarge split fits value small large =>
    obtain rfl := split.append_eq
    rw [valueOf_append_digit value] at large
    rw [read_of_split split ends, List.append_assoc,
      readDigits_append split.base_pos (fun c member => run c (by simp [member])) fits,
      List.cons_append,
      readDigits_digit value, if_neg (Nat.not_le.mpr small), if_pos (by exact large)]
    simp

/-- Every literal has a value or a fault. -/
theorem value_or_fault {word : List Char} (run : ∀ c ∈ word, isNameChar c = true) :
    (∃ value, HasValue word value) ∨ ∃ read fault, FailsBehind word read fault := by
  obtain ⟨named, base, text, split⟩ := exists_split word
  obtain rfl := split.append_eq
  rcases @fitsFrom_or_fails base 0 (Nat.zero_le maxLiteral) text
      (fun c member => run c (List.mem_append_right named member)) with
    fits | ⟨good, c, rest, digit, rfl, fits, value, big | ⟨small, large⟩⟩
  · exact .inl ⟨_, split, fits⟩
  · exact .inr ⟨_, _, .digitTooBig split fits value big⟩
  · refine .inr ⟨_, _, .tooLarge split fits value small ?_⟩
    rwa [valueOf_append_digit value]

end Literal

end MiniC
