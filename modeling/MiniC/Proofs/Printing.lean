/-
# MiniC.Proofs.Printing — what is printed is read back

Tokens are printed as texts of their kinds, with separators around them. A name, a keyword and a
symbol have one text; an integer has many, in four bases, with zeros in front, digits in lower or
upper case and underscores among them. A separator is white space and comments that end in a line
feed. Between two tokens stands one that is not empty, and behind a slash it does not begin with a
comment.

Each text so printed is the longest word at its place and each separator the longest gap, since no
word goes on with the first character of a separator.

* `Kind.PrintsAs`, `Separator`, `Printed` — the texts of kinds, of separators and of token lists.
* `Kind.exists_printsAs_integer`, `exists_printed` — numbers can be printed in each base, and lists
  of kinds that can be printed can be printed.
* `tokensOf_printed` — however they are printed, they are what is read.
-/
import MiniC.Proofs.Numeral

namespace MiniC

set_option autoImplicit false

/-! ## Texts of numbers -/

namespace Literal

/-- The digit of base thirty-six that counts `digit`, in lower case. -/
def numeral (digit : Nat) : Char := numerals.getD digit '0'

/-- The text shows the digits in their order, each of them in lower or upper case, and underscores
anywhere. -/
inductive Shows (base : Nat) : (text : List Char) → (digits : List Nat) → Prop
  | nil : Shows base [] []
  | separator {text : List Char} {digits : List Nat} (more : Shows base text digits) :
      Shows base ('_' :: text) digits
  | digit {c : Char} {text : List Char} {digit : Nat} {digits : List Nat} (small : digit < base)
      (shown : c = numeral digit ∨ c = (numeral digit).toUpper) (more : Shows base text digits) :
      Shows base (c :: text) (digit :: digits)

/-- The texts of a number: with its base named in front, or in base ten with a digit in front. -/
inductive PrintsAs (value : Nat) : List Char → Prop
  | named {letter : Char} {base : Nat} {text : List Char} {digits : List Nat}
      (names : (letter, base) ∈ [('b', 2), ('o', 8), ('d', 10), ('x', 16)])
      (shows : Shows base text digits) (number : positional base digits = value) :
      PrintsAs value ('0' :: letter :: text)
  | bare {c : Char} {text : List Char} {digits : List Nat} (first : c ≠ '_')
      (shows : Shows 10 (c :: text) digits) (number : positional 10 digits = value) :
      PrintsAs value (c :: text)

/-- What reading a digit in either case comes to. -/
theorem digitValue?_of_numeral {digit : Nat} (small : digit < 36) {c : Char}
    (shown : c = numeral digit ∨ c = (numeral digit).toUpper) :
    digitValue? c = some digit ∧ isNameChar c = true := by
  have all : ((List.range 36).all fun digit => [numeral digit, (numeral digit).toUpper].all
      fun c => digitValue? c == some digit && isNameChar c) = true := by
    decide +kernel
  have one := List.all_eq_true.mp all digit (List.mem_range.mpr small)
  have both := List.all_eq_true.mp one c (by simpa using shown)
  rwa [Bool.and_eq_true, beq_iff_eq] at both

/-- No digit of base ten is a letter. -/
theorem isDigit_of_numeral {digit : Nat} (small : digit < 10) {c : Char}
    (shown : c = numeral digit ∨ c = (numeral digit).toUpper) :
    c.isDigit = true ∧ namedBase? c = none := by
  have all : ((List.range 10).all fun digit => [numeral digit, (numeral digit).toUpper].all
      fun c => c.isDigit && namedBase? c == none) = true := by
    decide +kernel
  have one := List.all_eq_true.mp all digit (List.mem_range.mpr small)
  have both := List.all_eq_true.mp one c (by simpa using shown)
  rwa [Bool.and_eq_true, beq_iff_eq] at both

namespace Shows

variable {base : Nat} {text : List Char} {shown : List Nat}

theorem digit_lt (shows : Shows base text shown) : ∀ digit ∈ shown, digit < base := by
  induction shows with
  | nil => exact nofun
  | separator _ ih => exact ih
  | digit small _ _ ih => exact List.forall_mem_cons.mpr ⟨small, ih⟩

theorem digits_eq (shows : Shows base text shown) (known : base ≤ 36) : digits text = shown := by
  induction shows with
  | nil => rfl
  | separator _ ih => exact ih
  | digit small written _ ih =>
    have value := (digitValue?_of_numeral (Nat.lt_of_lt_of_le small known) written).1
    rw [digits_cons_of_some value, ih]

theorem run (shows : Shows base text shown) (known : base ≤ 36) :
    ∀ c ∈ text, isNameChar c = true := by
  induction shows with
  | nil => exact nofun
  | separator _ ih => exact List.forall_mem_cons.mpr ⟨by decide, ih⟩
  | digit small written _ ih =>
    exact List.forall_mem_cons.mpr
      ⟨(digitValue?_of_numeral (Nat.lt_of_lt_of_le small known) written).2, ih⟩

/-- In base ten no character names a base. -/
theorem namedBase?_eq_none (shows : Shows 10 text shown) : ∀ c ∈ text, namedBase? c = none := by
  generalize ten : 10 = base at shows
  induction shows with
  | nil => exact nofun
  | separator _ ih => exact List.forall_mem_cons.mpr ⟨rfl, ih⟩
  | digit small written _ ih =>
    exact List.forall_mem_cons.mpr ⟨(isDigit_of_numeral (ten ▸ small) written).2, ih⟩

theorem isDigit_of_cons {c : Char} (shows : Shows 10 (c :: text) shown) (first : c ≠ '_') :
    c.isDigit = true := by
  cases shows with
  | separator => exact absurd rfl first
  | digit small written _ => exact (isDigit_of_numeral small written).1

/-- The text has the value of its digits if that is not too large. -/
theorem fits (shows : Shows base text shown) (known : base ≤ 36) {value : Nat}
    (number : positional base shown = value) (within : value < Nat.pow 2 63) :
    Fits base text ∧ valueOf base text = value := by
  have worth : valueFrom base 0 (digits text) = value := by
    rw [valueFrom_eq, shows.digits_eq known, number, Nat.zero_mul, Nat.zero_add]
  refine ⟨⟨?_, ?_⟩, worth⟩
  · rw [shows.digits_eq known]
    exact shows.digit_lt
  · rw [worth]
    exact Nat.le_of_lt_succ within

end Shows

theorem Shows.append {base : Nat} {text more : List Char} {shown others : List Nat}
    (shows : Shows base text shown) (behind : Shows base more others) :
    Shows base (text ++ more) (shown ++ others) := by
  induction shows with
  | nil => exact behind
  | separator _ ih => exact .separator ih
  | digit small written _ ih => exact .digit small written ih

/-- Every number has a text in every base. -/
theorem exists_shows {base : Nat} (many : 1 < base) (value : Nat) :
    ∃ text shown, Shows base text shown ∧ positional base shown = value := by
  have fromLeft : ∀ shown : List Nat, positional base shown = valueFrom base 0 shown := by
    intro shown
    rw [valueFrom_eq, Nat.zero_mul, Nat.zero_add]
  induction value using Nat.strongRecOn with
  | ind value ih =>
    by_cases small : value < base
    · exact ⟨[numeral value], [value], .digit small (.inl rfl) .nil, Nat.mul_one value⟩
    · have pos : 0 < value := Nat.lt_of_lt_of_le (Nat.zero_lt_of_lt many) (Nat.le_of_not_lt small)
      obtain ⟨text, shown, shows, number⟩ := ih (value / base) (Nat.div_lt_self pos many)
      have last : Shows base [numeral (value % base)] [value % base] :=
        .digit (Nat.mod_lt _ (Nat.zero_lt_of_lt many)) (.inl rfl) .nil
      refine ⟨_, _, shows.append last, ?_⟩
      rw [fromLeft] at number ⊢
      calc valueFrom base 0 (shown ++ [value % base])
          = valueFrom base 0 shown * base + value % base := List.foldl_append
        _ = value / base * base + value % base := by rw [number]
        _ = value := Nat.div_add_mod' value base

theorem namedBase?_of_mem {letter : Char} {base : Nat}
    (names : (letter, base) ∈ [('b', 2), ('o', 8), ('d', 10), ('x', 16)]) :
    namedBase? letter = some base ∧ base ≤ 36 := by
  have all : ∀ entry ∈ [('b', 2), ('o', 8), ('d', 10), ('x', 16)],
      namedBase? entry.1 = some entry.2 ∧ entry.2 ≤ 36 := by
    decide
  exact all _ names

end Literal

/-! ## Texts of tokens -/

/-- The texts that a kind may be printed as. A name is an identifier that is no keyword, a number has
sixty-three bits, and the end of the file has no text. -/
inductive Kind.PrintsAs : Kind → List Char → Prop
  | name {c : Char} {others : List Char} (first : isNameStart c = true)
      (run : ∀ d ∈ others, isNameChar d = true)
      (free : ∀ keyword : Keyword, keyword.spelling.toList ≠ c :: others) :
      PrintsAs (.name (String.ofList (c :: others))) (c :: others)
  | integer {value : Nat} {text : List Char} (within : value < Nat.pow 2 63)
      (prints : Literal.PrintsAs value text) : PrintsAs (.integer value) text
  | keyword (word : Keyword) : PrintsAs (.keyword word) word.spelling.toList
  | symbol (mark : Symbol) : PrintsAs (.symbol mark) mark.spelling

/-- Numbers of sixty-three bits can be printed in each of the four bases. -/
theorem Kind.exists_printsAs_integer {letter : Char} {base : Nat}
    (names : (letter, base) ∈ [('b', 2), ('o', 8), ('d', 10), ('x', 16)]) {value : Nat}
    (within : value < Nat.pow 2 63) :
    ∃ text, (Kind.integer value).PrintsAs ('0' :: letter :: text) := by
  have many : ∀ entry ∈ [('b', 2), ('o', 8), ('d', 10), ('x', 16)], 1 < entry.2 := by decide
  obtain ⟨text, shown, shows, number⟩ := Literal.exists_shows (many _ names) value
  exact ⟨text, .integer within (.named names shows number)⟩

/-- A number is read off each of its texts. -/
theorem Literal.PrintsAs.spells {value : Nat} {text : List Char} (prints : PrintsAs value text)
    (within : value < Nat.pow 2 63) : Spells text (.integer value) := by
  cases prints with
  | named names shows number =>
    obtain ⟨named, known⟩ := namedBase?_of_mem names
    obtain ⟨fits, worth⟩ := shows.fits known number within
    refine .integer rfl (List.forall_mem_cons.mpr ⟨(namedBase?_pos named).2, shows.run known⟩) ?_
    exact worth ▸ .intro (.named named) fits
  | bare first shows number =>
    obtain ⟨fits, worth⟩ := shows.fits (by decide) number within
    have run := List.forall_mem_cons.mp (shows.run (by decide))
    refine .integer (shows.isDigit_of_cons first) run.2 (worth ▸ .intro (.plain ?_) fits)
    intro letter text same
    exact shows.namedBase?_eq_none letter (by simp [same])

theorem Kind.PrintsAs.spells {kind : Kind} {text : List Char} (prints : kind.PrintsAs text) :
    Spells text kind := by
  cases prints with
  | name first run free => exact .name first run free
  | integer within prints => exact prints.spells within
  | keyword word => exact .keyword word
  | symbol mark => exact .symbol mark

/-! ## Separators -/

/-- White space and comments that end in a line feed, in any order. -/
inductive Separator : List Char → Prop
  | nil : Separator []
  | blank {c : Char} {text : List Char} (blank : isBlank c = true) (more : Separator text) :
      Separator (c :: text)
  | comment {body text : List Char} (inLine : '\n' ∉ body) (more : Separator text) :
      Separator ('/' :: '/' :: (body ++ '\n' :: text))

theorem not_isNameChar_of_isBlank {c : Char} (blank : isBlank c = true) : isNameChar c = false := by
  have all : ∀ code < 128, isBlank (Char.ofNat code) = true →
      isNameChar (Char.ofNat code) = false := by decide +kernel
  rw [Bool.eq_false_iff]
  intro inside
  have low : c.toNat < 128 := by
    rcases Bool.or_eq_true_iff.mp inside with letter | underscore
    · exact Literal.toNat_lt_of_isAlphanum letter
    · rw [beq_iff_eq.mp underscore]
      decide
  have outside := all c.toNat low
  rw [Char.ofNat_toNat, inside] at outside
  cases outside blank

namespace Separator

variable {separator : List Char}

theorem head (separates : Separator separator) :
    ∀ c ∈ separator.head?, isBlank c = true ∨ c = '/' := by
  intro c first
  cases separates with
  | nil => cases first
  | blank blank _ =>
    cases first
    exact .inl blank
  | comment _ _ =>
    cases first
    exact .inr rfl

/-- A separator is passed together with the gap behind it. -/
theorem gapLength_append (separates : Separator separator) (rest : List Char) :
    gapLength (separator ++ rest) = separator.length + gapLength rest := by
  unfold gapLength
  induction separates with
  | nil => simp
  | blank blank _ ih =>
    rw [List.cons_append, gapLengthFrom, if_pos blank, ih, List.length_cons]
    omega
  | @comment body text inLine _ ih =>
    have notBlank : ¬isBlank '/' = true := by decide
    have slash : ('/' != '\n') = true := by decide
    have line := gapLengthFrom_comment inLine ('\n' :: (text ++ rest))
    have ends : gapLengthFrom true ('\n' :: (text ++ rest)) = gapLengthFrom false (text ++ rest) + 1 :=
      rfl
    rw [List.cons_append, gapLengthFrom, if_neg notBlank, if_pos ⟨rfl, rfl⟩, List.cons_append,
      gapLengthFrom, slash, List.append_assoc, List.cons_append, line, ends, ih]
    simp only [List.length_cons, List.length_append]
    omega

theorem gap (separates : Separator separator) : Gap separator [] := by
  have measured := separates.gapLength_append []
  have whole := gap_gapLength separator
  rw [List.append_nil] at measured
  rw [measured, show gapLength [] = 0 from rfl, Nat.add_zero, List.take_length,
    List.drop_length] at whole
  exact whole

end Separator

/-! ## Words in front of separators -/

/-- No gap begins with a name character. -/
theorem gapLength_of_isNameChar {c : Char} (others : List Char) (inside : isNameChar c = true) :
    gapLength (c :: others) = 0 := by
  have notBlank : ¬isBlank c = true := fun blank => by
    rw [not_isNameChar_of_isBlank blank] at inside
    cases inside
  have noSlash : ¬(c = '/' ∧ others.head? = some '/') := by
    rintro ⟨rfl, _⟩
    cases inside
  rw [gapLength, gapLengthFrom, if_neg notBlank, if_neg noSlash]

/-- No gap begins with the first character of a word, if a slash does not open a comment. -/
theorem gapLength_of_spells {word rest : List Char} {kind : Kind} (spells : Spells word kind)
    (noComment : kind = .symbol .slash → rest.head? ≠ some '/') : gapLength (word ++ rest) = 0 := by
  cases spells with
  | keyword word =>
    obtain ⟨c, others, spelled, first, _⟩ := word.isName
    rw [spelled]
    exact gapLength_of_isNameChar _ (isNameChar_of_isNameStart first)
  | name first => exact gapLength_of_isNameChar _ (isNameChar_of_isNameStart first)
  | integer first => exact gapLength_of_isNameChar _ (isNameChar_of_isDigit first)
  | symbol mark =>
    cases mark with
    | slash =>
      have notBlank : ¬isBlank '/' = true := by decide
      rw [show Symbol.slash.spelling ++ rest = '/' :: rest from rfl, gapLength, gapLengthFrom,
        if_neg notBlank, if_neg fun opening => noComment rfl opening.2]
    | _ => rfl

/-- A symbol gets longer only by `=`. -/
theorem longestWord_of_symbol {mark : Symbol} {rest : List Char}
    (noEqual : ∀ c ∈ rest.head?, c ≠ '=') : LongestWord mark.spelling rest := by
  refine ⟨.symbol mark, fun longer more same isWord => Nat.le_of_not_lt fun shorter => ?_⟩
  obtain ⟨c, others, spelled⟩ := List.exists_cons_of_ne_nil mark.spelling_ne_nil
  have outside := Symbol.not_isNameChar (c := c) (by rw [spelled]; exact List.mem_cons_self)
  rw [spelled] at same shorter
  cases longer with
  | nil => cases shorter
  | cons first longer =>
    obtain ⟨rfl, behind⟩ := List.cons.inj same
    obtain ⟨other, spelledOther⟩ := isWord.symbol_of_head
      (fun decimal => by rw [isNameChar_of_isDigit decimal] at outside; cases outside)
      (fun start => by rw [isNameChar_of_isNameStart start] at outside; cases outside)
    have short := other.length_spelling_le
    have second : ∀ mark ∈ Symbol.all, mark.spelling[1]?.all (· == '=') = true := by decide
    have equal := second other other.mem_all
    rw [spelledOther] at short equal
    cases others with
    | cons =>
      simp only [List.length_cons] at short shorter
      omega
    | nil =>
      cases longer with
      | nil => exact Nat.lt_irrefl _ shorter
      | cons d longer =>
        have next : rest = d :: (longer ++ more) := behind.symm
        exact noEqual d (by rw [next]; rfl) (beq_iff_eq.mp equal)

theorem longestWord_of_spells {word rest : List Char} {kind : Kind} (spells : Spells word kind)
    (ends : EndsRun rest) (noEqual : ∀ c ∈ rest.head?, c ≠ '=') : LongestWord word rest := by
  cases spells with
  | keyword word =>
    obtain ⟨c, others, spelled, first, run⟩ := word.isName
    rw [spelled]
    exact longestWord_of_endsRun (.name first run) (isNameChar_of_isNameStart first) ends
  | name first run =>
    exact longestWord_of_endsRun (.name first run) (isNameChar_of_isNameStart first) ends
  | integer first run =>
    exact longestWord_of_endsRun (.literal first run) (isNameChar_of_isDigit first) ends
  | symbol mark => exact longestWord_of_symbol noEqual

/-! ## Token lists -/

/-- The text consists of texts of the kinds, each with a separator behind it. Only the last separator
may be empty, and the one behind a slash does not begin with a comment. -/
inductive Printed : (words : List (Kind × List Char)) → (text : List Char) → Prop
  | nil : Printed [] []
  | cons {kind : Kind} {word separator text : List Char} {words : List (Kind × List Char)}
      (prints : kind.PrintsAs word) (separates : Separator separator)
      (apart : words ≠ [] → separator ≠ [])
      (noComment : kind = .symbol .slash → ∀ c ∈ separator.head?, isBlank c = true)
      (more : Printed words text) : Printed ((kind, word) :: words) (word ++ (separator ++ text))

/-- Behind a word stands its separator, or nothing. -/
theorem Printed.head?_append {words : List (Kind × List Char)} {separator text : List Char}
    (printed : Printed words text) (apart : words ≠ [] → separator ≠ []) :
    (separator ++ text).head? = separator.head? := by
  cases separator with
  | cons => rfl
  | nil =>
    cases printed with
    | nil => rfl
    | cons => exact absurd rfl (apart (List.cons_ne_nil _ _))

/-- What is printed is segmented into the words and the separators. -/
theorem Printed.segments {words : List (Kind × List Char)} {text : List Char}
    (printed : Printed words text) (read : List Char) {separator : List Char}
    (separates : Separator separator) :
    ∃ tokens reached last, Segments read (separator ++ text) tokens reached last ∧ Gap last [] ∧
      tokens.map Token.kind = words.map Prod.fst ∧
      tokens.map Token.length = words.map fun word => byteLength word.2 := by
  induction printed generalizing read separator with
  | nil =>
    rw [List.append_nil]
    exact ⟨[], read, separator, .nil, separates.gap, rfl, rfl⟩
  | @cons kind word between text words prints separatesNext apart noComment more ih =>
    have spells := prints.spells
    -- What follows the word is its separator, or nothing at all if that is empty.
    have next := more.head?_append apart
    have longestWord : LongestWord word (between ++ text) := by
      refine longestWord_of_spells spells (fun c first => ?_) fun c first => ?_ <;>
        rw [next] at first <;> rcases separatesNext.head c first with blank | rfl
      · exact not_isNameChar_of_isBlank blank
      · decide
      · rintro rfl
        exact absurd blank (by decide)
      · decide
    have longestGap : Longest Gap separator (word ++ (between ++ text)) := by
      have noGap : gapLength (word ++ (between ++ text)) = 0 :=
        gapLength_of_spells spells fun slash first => by
          rw [next] at first
          exact absurd (noComment slash '/' first) (by decide)
      rw [longest_gap_iff, separates.gapLength_append, noGap, Nat.add_zero]
    obtain ⟨tokens, reached, last, segments, ended, kinds, lengths⟩ :=
      ih (read ++ separator ++ word) separatesNext
    refine ⟨_, reached, last, .cons longestGap longestWord spells segments, ended, ?_, ?_⟩
    · rw [List.map_cons, List.map_cons, kinds]
    · rw [List.map_cons, List.map_cons, lengths]

/-- What is printed is read back: the kinds in their order and the end of the file behind them, each
token with the bytes of its text for its length. -/
theorem tokensOf_printed {opening text : List Char} {words : List (Kind × List Char)}
    (separates : Separator opening) (printed : Printed words text) :
    ∃ tokens, tokensOf (String.ofList (opening ++ text)) = .ok tokens ∧
      tokens.map Token.kind = words.map Prod.fst ++ [.endOfFile] ∧
      tokens.map Token.length =
        words.map (fun word => (String.ofList word.2).utf8ByteSize) ++ [0] := by
  obtain ⟨tokens, reached, last, segments, ended, kinds, lengths⟩ := printed.segments [] separates
  have segmented := Segmented.intro segments ended
  rw [← String.toList_ofList (l := opening ++ text)] at segmented
  refine ⟨_, tokensOf_of_segmented segmented, ?_, ?_⟩
  · rw [List.map_append, kinds]
    rfl
  · rw [List.map_append, lengths]
    simp only [utf8ByteSize_ofList]
    rfl

/-- Whatever has texts can be printed, one blank behind each token. -/
theorem exists_printed {kinds : List Kind} (each : ∀ kind ∈ kinds, ∃ word, kind.PrintsAs word) :
    ∃ words text, Printed words text ∧ words.map Prod.fst = kinds := by
  induction kinds with
  | nil => exact ⟨[], [], .nil, rfl⟩
  | cons kind kinds ih =>
    obtain ⟨⟨word, prints⟩, later⟩ := List.forall_mem_cons.mp each
    obtain ⟨words, text, printed, rfl⟩ := ih later
    have blank : isBlank ' ' = true := by decide
    refine ⟨_, _, .cons prints (.blank blank .nil) (fun _ => nofun) (fun _ c first => ?_) printed, rfl⟩
    cases first
    exact blank

/-- A quotient whose divisor is in base sixteen, with comments. -/
theorem tokensOf_printed_quotient :
    Separator ['/', '/', '8', '\n'] ∧
    Printed
      [(.name "x", ['x']), (.symbol .slash, ['/']), (.integer 255, ['0', 'x', '_', 'f', 'F'])]
      ['x', ' ', '/', ' ', '/', '/', '*', '\n', '0', 'x', '_', 'f', 'F'] ∧
    ∃ tokens, tokensOf "//8\nx / //*\n0x_fF" = .ok tokens ∧
      tokens.map Token.kind = [.name "x", .symbol .slash, .integer 255, .endOfFile] ∧
      tokens.map Token.length = [1, 1, 5, 0] := by
  have blank : isBlank ' ' = true := by decide
  have separates : Separator ('/' :: '/' :: (['8'] ++ '\n' :: [])) := .comment (by decide) .nil
  have behindSlash : Separator (' ' :: '/' :: '/' :: (['*'] ++ '\n' :: [])) :=
    .blank blank (.comment (by decide) .nil)
  have shows : Literal.Shows 16 ['_', 'f', 'F'] [15, 15] :=
    .separator (.digit (by decide) (.inl rfl) (.digit (by decide) (.inr rfl) .nil))
  have isName : (Kind.name (String.ofList ['x'])).PrintsAs ['x'] :=
    .name (by decide) nofun fun keyword => by cases keyword <;> decide
  have isInteger : (Kind.integer 255).PrintsAs ['0', 'x', '_', 'f', 'F'] :=
    .integer (by decide) (.named (by decide) shows rfl)
  have divisor := Printed.cons isInteger .nil (by decide) nofun .nil
  have slash := Printed.cons (.symbol .slash) behindSlash (fun _ => nofun)
    (fun _ c first => by cases first; exact blank) divisor
  have printed := Printed.cons isName (.blank blank .nil) (fun _ => nofun) nofun slash
  obtain ⟨tokens, read, kinds, lengths⟩ := tokensOf_printed separates printed
  refine ⟨separates, printed, tokens, ?_, kinds.trans (by decide +kernel),
    lengths.trans (by decide +kernel)⟩
  rw [← read]
  exact congrArg tokensOf (by decide +kernel)

end MiniC
