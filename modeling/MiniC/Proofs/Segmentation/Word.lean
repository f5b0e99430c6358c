/-
# MiniC.Proofs.Segmentation.Word — the longest word

The texts that a token may have, and the kind that each of them spells, said without the function
that reads them. Names and literals are runs of name characters, so that the longest one at a place
ends where the run does; a symbol of one character is the longest where none of two fits.

* `lexeme_of_spells`, `lexeme_of_fails` — the longest word is read as the kind that it spells, and a
  place where no word stands, or no valid literal, as its fault.
* `word_or_fault` — one of the two stands in front of every text that is not empty.
-/
import MiniC.Proofs.Segmentation.Gap
import MiniC.Proofs.Segmentation.Literal

namespace MiniC

set_option autoImplicit false

/-- The texts of tokens. -/
inductive IsWord : List Char → Prop
  | name {c : Char} {others : List Char} (first : isNameStart c = true)
      (run : ∀ d ∈ others, isNameChar d = true) : IsWord (c :: others)
  | literal {c : Char} {others : List Char} (first : c.isDigit = true)
      (run : ∀ d ∈ others, isNameChar d = true) : IsWord (c :: others)
  | symbol (mark : Symbol) : IsWord mark.spelling

/-- The longest word in front of a text. -/
abbrev LongestWord (word rest : List Char) : Prop :=
  Longest (fun word _ => IsWord word) word rest

/-- The text denotes the kind. A keyword is never a name. -/
inductive Spells : List Char → Kind → Prop
  | keyword (word : Keyword) : Spells word.spelling.toList (.keyword word)
  | name {c : Char} {others : List Char} (first : isNameStart c = true)
      (run : ∀ d ∈ others, isNameChar d = true)
      (free : ∀ keyword : Keyword, keyword.spelling.toList ≠ c :: others) :
      Spells (c :: others) (.name (String.ofList (c :: others)))
  | integer {c : Char} {others : List Char} {value : Nat} (first : c.isDigit = true)
      (run : ∀ d ∈ others, isNameChar d = true)
      (hasValue : Literal.HasValue (c :: others) value) : Spells (c :: others) (.integer value)
  | symbol (mark : Symbol) : Spells mark.spelling (.symbol mark)

/-- No token is in front of the text: it begins with a character that no word begins with, or its
longest word is a literal without a value. Reading stops behind the given characters. -/
inductive Fails : (text read : List Char) → LexicalFault → Prop
  | unknownCharacter {c : Char} {rest : List Char} (unknown : ∀ others, ¬IsWord (c :: others)) :
      Fails (c :: rest) [c] (.unknownCharacter c)
  | literal {c : Char} {others rest read : List Char} {fault : Literal.Fault}
      (first : c.isDigit = true) (longest : LongestWord (c :: others) rest)
      (fails : Literal.FailsBehind (c :: others) read fault) :
      Fails (c :: others ++ rest) read (.literal fault)

/-! ## Runs of name characters -/

theorem isNameChar_of_isDigit {c : Char} (decimal : c.isDigit = true) : isNameChar c = true := by
  simp [isNameChar, Char.isAlphanum, decimal]

theorem not_isNameStart_of_isDigit {c : Char} (decimal : c.isDigit = true) :
    isNameStart c = false := by
  rw [Bool.eq_false_iff]
  intro start
  simp only [Char.isDigit, Bool.and_eq_true, decide_eq_true_eq, UInt32.le_iff_toNat_le] at decimal
  simp only [isNameStart, Bool.or_eq_true, beq_iff_eq] at start
  have nine : c.val.toNat ≤ 57 := decimal.2
  rcases start with letter | rfl
  · rcases Bool.or_eq_true_iff.mp letter with upper | lower
    · have : 65 ≤ c.val.toNat := (of_decide_eq_true upper).1
      omega
    · have : 97 ≤ c.val.toNat := of_decide_eq_true (Bool.and_eq_true_iff.mp lower).1
      omega
  · exact absurd nine (by decide)

/-- Symbols are made of other characters. -/
theorem Symbol.not_isNameChar {mark : Symbol} {c : Char} (member : c ∈ mark.spelling) :
    isNameChar c = false := by
  have all : ∀ mark ∈ Symbol.all, (mark.spelling.all fun c => !isNameChar c) = true := by decide
  simpa using List.all_eq_true.mp (all mark mark.mem_all) c member

theorem Symbol.spelling_ne_nil (mark : Symbol) : mark.spelling ≠ [] := by
  cases mark <;> decide

theorem IsWord.ne_nil {word : List Char} (isWord : IsWord word) : word ≠ [] := by
  cases isWord with
  | name | literal => exact List.cons_ne_nil _ _
  | symbol mark => exact mark.spelling_ne_nil

/-- A word that begins with a name character is a run of them. -/
theorem IsWord.run {c : Char} {others : List Char} (isWord : IsWord (c :: others))
    (inside : isNameChar c = true) : ∀ d ∈ others, isNameChar d = true := by
  generalize same : c :: others = word at isWord
  cases isWord with
  | name _ run | literal _ run =>
    obtain ⟨rfl, rfl⟩ := List.cons.inj same
    exact run
  | symbol mark =>
    have outside := Symbol.not_isNameChar (c := c) (by rw [← same]; exact List.mem_cons_self)
    rw [outside] at inside
    cases inside

/-- A word that begins with another character is a symbol. -/
theorem IsWord.symbol_of_head {c : Char} {others : List Char} (isWord : IsWord (c :: others))
    (noDigit : ¬c.isDigit = true) (noName : ¬isNameStart c = true) :
    ∃ mark : Symbol, mark.spelling = c :: others := by
  generalize same : c :: others = word at isWord
  cases isWord with
  | name first =>
    obtain ⟨rfl, _⟩ := List.cons.inj same
    exact absurd first noName
  | literal first =>
    obtain ⟨rfl, _⟩ := List.cons.inj same
    exact absurd first noDigit
  | symbol mark => exact ⟨mark, rfl⟩

/-- A run of name characters does not go beyond the place where one ends. -/
theorem length_le_of_endsRun {run more others rest : List Char}
    (inside : ∀ c ∈ run, isNameChar c = true) (ends : EndsRun rest)
    (same : run ++ more = others ++ rest) : run.length ≤ others.length := by
  rcases List.append_eq_append_iff.mp same with ⟨between, rfl, _⟩ | ⟨between, rfl, rfl⟩
  · simp
  · cases between with
    | nil => simp
    | cons c between =>
      have outside := ends c rfl
      rw [inside c (by simp)] at outside
      cases outside

/-- A run of name characters that may be longer by one is not the longest. -/
theorem endsRun_of_longest {word rest : List Char} (longest : LongestWord word rest)
    (longer : ∀ d, isNameChar d = true → IsWord (word ++ [d])) : EndsRun rest := by
  intro d first
  rw [Bool.eq_false_iff]
  intro inside
  cases rest with
  | nil => cases first
  | cons c rest =>
    cases first
    have short := longest.longest (word ++ [d]) rest (by simp) (longer d inside)
    simp only [List.length_append, List.length_singleton] at short
    omega

theorem forall_mem_append_singleton {others : List Char} {d : Char}
    (run : ∀ c ∈ others, isNameChar c = true) (inside : isNameChar d = true) :
    ∀ c ∈ others ++ [d], isNameChar c = true := by
  intro c member
  rcases List.mem_append.mp member with member | member
  · exact run c member
  · rwa [List.mem_singleton.mp member]

theorem endsRun_of_name {c : Char} {others rest : List Char} (first : isNameStart c = true)
    (run : ∀ d ∈ others, isNameChar d = true) (longest : LongestWord (c :: others) rest) :
    EndsRun rest :=
  endsRun_of_longest longest fun _ inside => .name first (forall_mem_append_singleton run inside)

theorem endsRun_of_literal {c : Char} {others rest : List Char} (first : c.isDigit = true)
    (run : ∀ d ∈ others, isNameChar d = true) (longest : LongestWord (c :: others) rest) :
    EndsRun rest :=
  endsRun_of_longest longest fun _ inside =>
    .literal first (forall_mem_append_singleton run inside)

/-- A word that is a run of name characters is the longest where the run ends. -/
theorem longestWord_of_endsRun {c : Char} {others rest : List Char} (isWord : IsWord (c :: others))
    (inside : isNameChar c = true) (ends : EndsRun rest) : LongestWord (c :: others) rest := by
  refine ⟨isWord, fun longer more same longerWord => ?_⟩
  cases longer with
  | nil => simp
  | cons d longer =>
    simp only [List.cons_append, List.cons.injEq] at same
    obtain ⟨rfl, same⟩ := same
    exact Nat.succ_le_succ (length_le_of_endsRun (longerWord.run inside) ends same)

/-- Every text begins with a run of name characters, which may be empty. -/
theorem exists_run (text : List Char) :
    ∃ run rest, text = run ++ rest ∧ (∀ c ∈ run, isNameChar c = true) ∧ EndsRun rest := by
  refine ⟨text.takeWhile isNameChar, text.dropWhile isNameChar,
    List.takeWhile_append_dropWhile.symm, fun c member => ?_, fun c first => ?_⟩
  · exact List.all_eq_true.mp List.all_takeWhile c member
  · have stops := List.head?_dropWhile_not isNameChar text
    rw [Option.mem_def.mp first] at stops
    simpa using stops

/-- Where reading stops is within the text. -/
theorem Fails.exists_append {text read : List Char} {fault : LexicalFault}
    (fails : Fails text read fault) : ∃ rest, text = read ++ rest := by
  cases fails with
  | @unknownCharacter c rest _ => exact ⟨rest, rfl⟩
  | @literal c others rest read fault _ _ fails =>
    cases fails with
    | digitTooBig split | tooLarge split =>
      rw [split.append_eq, List.append_assoc, List.append_assoc, ← List.append_assoc]
      exact ⟨_, rfl⟩

/-! ## Names and keywords -/

theorem Keyword.isName (word : Keyword) :
    ∃ c others, word.spelling.toList = c :: others ∧ isNameStart c = true ∧
      ∀ d ∈ others, isNameChar d = true := by
  cases word <;> exact ⟨_, _, rfl, by decide, List.all_eq_true.mp (by decide)⟩

/-- A text of name characters is read as the word that it spells. -/
theorem lexeme_of_name {c : Char} {others rest : List Char} (first : isNameStart c = true)
    (run : ∀ d ∈ others, isNameChar d = true) (ends : EndsRun rest) :
    lexeme (c :: others ++ rest) =
      ((c :: others).length, .ok (Kind.ofWord (String.ofList (c :: others)))) := by
  have noDigit : ¬c.isDigit = true := by
    intro decimal
    rw [not_isNameStart_of_isDigit decimal] at first
    cases first
  have all : ∀ d ∈ c :: others, isNameChar d = true := by
    intro d member
    rcases List.mem_cons.mp member with rfl | member
    · exact isNameChar_of_isNameStart first
    · exact run d member
  have stop : rest.takeWhile isNameChar = [] := by
    cases rest with
    | nil => rfl
    | cons d rest => rw [List.takeWhile_cons, ends d rfl]; rfl
  have word : (c :: (others ++ rest)).takeWhile isNameChar = c :: others := by
    rw [← List.cons_append, List.takeWhile_append_of_pos all, stop, List.append_nil]
  rw [List.cons_append, lexeme, if_neg noDigit, if_pos first, word]

theorem Kind.ofWord_keyword (word : Keyword) : Kind.ofWord word.spelling = .keyword word := by
  rw [Kind.ofWord, Keyword.ofSpelling?_spelling]
  rfl

theorem Kind.ofWord_free {text : List Char}
    (free : ∀ keyword : Keyword, keyword.spelling.toList ≠ text) :
    Kind.ofWord (String.ofList text) = .name (String.ofList text) := by
  rcases found : Keyword.ofSpelling? (String.ofList text) with _ | keyword
  · rw [Kind.ofWord, found]
    rfl
  · have same := Keyword.spelling_of_ofSpelling? found
    exact absurd (by rw [same, String.toList_ofList]) (free keyword)

/-! ## Symbols -/

/-- The first character of a symbol is a symbol of its own. -/
theorem Symbol.exists_single {mark : Symbol} {c : Char} {others : List Char}
    (spelled : mark.spelling = c :: others) : ∃ single, ofSpelling? [c] = some single := by
  have all : ∀ mark ∈ Symbol.all,
      (mark.spelling.head?.all fun c => (ofSpelling? [c]).isSome) = true := by
    decide
  have single := all mark mark.mem_all
  rw [spelled] at single
  exact Option.isSome_iff_exists.mp single

theorem Symbol.length_spelling_le (mark : Symbol) : mark.spelling.length ≤ 2 := by
  cases mark <;> decide

/-- A symbol that is the longest word is the one that is found. -/
theorem Symbol.longest?_of_longest {mark : Symbol} {c : Char} {others rest : List Char}
    (spelled : mark.spelling = c :: others) (longest : LongestWord (c :: others) rest) :
    longest? c (others ++ rest) = some mark := by
  have self : ofSpelling? (c :: others) = some mark := by rw [← spelled, ofSpelling?_spelling]
  have short := mark.length_spelling_le
  rw [spelled] at short
  match others, short with
  | [d], _ =>
    rw [longest?, show c :: ([d] ++ rest).take 1 = [c, d] from rfl, self]
    rfl
  | [], _ =>
    rw [longest?, List.nil_append, self]
    rcases found : ofSpelling? (c :: rest.take 1) with _ | other
    · rfl
    · have spelledOther := spelling_of_ofSpelling? found
      cases rest with
      | nil =>
        rw [List.take_nil, self] at found
        exact found ▸ rfl
      | cons d rest =>
        have longer := longest.longest [c, d] rest rfl
          (by rw [← show other.spelling = [c, d] from spelledOther]; exact .symbol other)
        simp at longer

/-- The symbol that is found is the longest word. -/
theorem Symbol.longest_of_longest? {mark : Symbol} {c : Char} {rest : List Char}
    (noDigit : ¬c.isDigit = true) (noName : ¬isNameStart c = true)
    (found : longest? c rest = some mark) :
    ∃ more, c :: rest = mark.spelling ++ more ∧ LongestWord mark.spelling more := by
  rcases Option.or_eq_some_iff.mp found with two | ⟨none, one⟩
  · have spelled := spelling_of_ofSpelling? two
    have split : c :: rest = mark.spelling ++ rest.drop 1 := by
      rw [spelled, List.cons_append, List.take_append_drop]
    refine ⟨_, split, .symbol mark, fun longer more same longerWord => ?_⟩
    rw [← split] at same
    cases longer with
    | nil => simp
    | cons d longer =>
      obtain ⟨rfl, same⟩ := List.cons.inj same
      obtain ⟨other, spelledOther⟩ := longerWord.symbol_of_head noDigit noName
      have short := other.length_spelling_le
      have bound := congrArg List.length same
      rw [spelledOther] at short
      simp only [List.length_append, List.length_cons] at bound short
      rw [spelled, List.length_cons, List.length_cons, List.length_take]
      omega
  · have spelled := spelling_of_ofSpelling? one
    refine ⟨rest, by rw [spelled]; rfl, .symbol mark, fun longer more same longerWord => ?_⟩
    rw [spelled, List.singleton_append] at same
    rw [spelled]
    match longer, same with
    | [], _ => simp
    | [_], _ => simp
    | d :: e :: longer, same =>
      simp only [List.cons_append, List.cons.injEq] at same
      obtain ⟨rfl, rfl⟩ := same
      obtain ⟨other, spelledOther⟩ := longerWord.symbol_of_head noDigit noName
      have short := other.length_spelling_le
      rw [spelledOther] at short
      simp only [List.length_cons] at short
      obtain rfl : longer = [] := List.length_eq_zero_iff.mp (by omega)
      have two : ofSpelling? (d :: (e :: ([] ++ more)).take 1) = some other := by
        rw [show d :: (e :: ([] ++ more)).take 1 = other.spelling from spelledOther.symm,
          ofSpelling?_spelling]
      rw [two] at none
      cases none

/-! ## The word at the beginning of a text -/

/-- The longest word is read as the kind that it spells. -/
theorem lexeme_of_spells {word rest : List Char} {kind : Kind} (longest : LongestWord word rest)
    (spells : Spells word kind) : lexeme (word ++ rest) = (word.length, .ok kind) := by
  cases spells with
  | keyword word =>
    obtain ⟨c, others, spelled, first, run⟩ := word.isName
    rw [spelled] at longest ⊢
    rw [lexeme_of_name first run (endsRun_of_name first run longest), ← spelled,
      String.ofList_toList, Kind.ofWord_keyword]
  | name first run free =>
    rw [lexeme_of_name first run (endsRun_of_name first run longest), Kind.ofWord_free free]
  | @integer c others value first run hasValue =>
    have all : ∀ d ∈ c :: others, isNameChar d = true :=
      List.forall_mem_cons.mpr ⟨isNameChar_of_isDigit first, run⟩
    have read := Literal.read_of_value all hasValue (endsRun_of_literal first run longest)
    rw [List.cons_append] at read ⊢
    rw [lexeme, if_pos first, read]
    rfl
  | symbol mark =>
    cases spelled : mark.spelling with
    | nil => exact absurd spelled mark.spelling_ne_nil
    | cons c others =>
      have member : c ∈ mark.spelling := by simp [spelled]
      have outside := Symbol.not_isNameChar member
      have noDigit : ¬c.isDigit = true := fun decimal => by
        rw [isNameChar_of_isDigit decimal] at outside; cases outside
      have noName : ¬isNameStart c = true := fun start => by
        rw [isNameChar_of_isNameStart start] at outside; cases outside
      rw [spelled] at longest
      rw [List.cons_append, lexeme, if_neg noDigit, if_neg noName,
        Symbol.longest?_of_longest spelled longest, ← spelled]

/-- Where no token stands its fault is found, and reading stops there. -/
theorem lexeme_of_fails {text read : List Char} {fault : LexicalFault}
    (fails : Fails text read fault) : lexeme text = (read.length, .error fault) := by
  cases fails with
  | @unknownCharacter c rest unknown =>
    have noDigit : ¬c.isDigit = true := fun decimal => unknown [] (.literal decimal (by simp))
    have noName : ¬isNameStart c = true := fun start => unknown [] (.name start (by simp))
    have noSymbol : Symbol.longest? c rest = none := by
      refine Option.eq_none_iff_forall_ne_some.mpr fun mark found => ?_
      have isWord := IsWord.symbol mark
      rcases Symbol.longest?_spelling found with spelled | spelled <;>
        rw [spelled] at isWord <;> exact unknown _ isWord
    rw [lexeme, if_neg noDigit, if_neg noName, noSymbol]
    rfl
  | @literal c others rest read fault first longest fails =>
    have run := longest.formed.run (isNameChar_of_isDigit first)
    have all : ∀ d ∈ c :: others, isNameChar d = true :=
      List.forall_mem_cons.mpr ⟨isNameChar_of_isDigit first, run⟩
    have stopped := Literal.read_of_fault all fails (endsRun_of_literal first run longest)
    rw [List.cons_append] at stopped ⊢
    rw [lexeme, if_pos first, stopped]
    rfl

/-- A token or a fault stands in front of every text that is not empty. -/
theorem word_or_fault {text : List Char} (more : text ≠ []) :
    (∃ word rest kind, text = word ++ rest ∧ LongestWord word rest ∧ Spells word kind) ∨
      ∃ read fault, Fails text read fault := by
  cases text with
  | nil => exact absurd rfl more
  | cons c text =>
    by_cases decimal : c.isDigit = true
    · obtain ⟨run, rest, rfl, inside, ends⟩ := exists_run text
      have longest : LongestWord (c :: run) rest :=
        longestWord_of_endsRun (.literal decimal inside) (isNameChar_of_isDigit decimal) ends
      rcases Literal.value_or_fault
          (List.forall_mem_cons.mpr ⟨isNameChar_of_isDigit decimal, inside⟩) with
        ⟨value, hasValue⟩ | ⟨read, fault, fails⟩
      · exact .inl ⟨c :: run, rest, _, rfl, longest, .integer decimal inside hasValue⟩
      · exact .inr ⟨read, _, .literal decimal longest fails⟩
    · by_cases start : isNameStart c = true
      · obtain ⟨run, rest, rfl, inside, ends⟩ := exists_run text
        have longest : LongestWord (c :: run) rest :=
          longestWord_of_endsRun (.name start inside) (isNameChar_of_isNameStart start) ends
        refine .inl ⟨c :: run, rest, ?_⟩
        by_cases reserved : ∃ keyword : Keyword, keyword.spelling.toList = c :: run
        · obtain ⟨keyword, same⟩ := reserved
          exact ⟨.keyword keyword, rfl, longest, same ▸ .keyword keyword⟩
        · exact ⟨_, rfl, longest, .name start inside fun keyword same => reserved ⟨keyword, same⟩⟩
      · rcases found : Symbol.longest? c text with _ | mark
        · refine .inr ⟨[c], _, .unknownCharacter fun others isWord => ?_⟩
          obtain ⟨mark, spelled⟩ := isWord.symbol_of_head decimal start
          obtain ⟨single, known⟩ := Symbol.exists_single spelled
          exact absurd known (by rw [(Option.or_eq_none_iff.mp found).2]; simp)
        · obtain ⟨rest, split, longest⟩ := Symbol.longest_of_longest? decimal start found
          exact .inl ⟨mark.spelling, rest, _, split, longest, .symbol mark⟩

end MiniC
