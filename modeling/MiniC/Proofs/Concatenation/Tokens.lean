/-
# MiniC.Proofs.Concatenation.Tokens — the tokens of one text below another

A line feed ends whatever stands in front of it: a name or a literal, a symbol that might be longer,
a comment. So below a text that is split into tokens, up to its end, another text is split as it is
on its own.

`tokensOf_append`: the tokens of the first text but for the end of the file, and then those of the
second one, as many bytes and lines further on as the first one and the line feed have; or the fault
that the second one has.
-/
import MiniC.Proofs.Translation

namespace MiniC

set_option autoImplicit false

/-! ## Gaps -/

/-- Two slashes are next to each other whatever lines follow. -/
theorem head?_append_lineFeed (rest more : List Char) :
    (rest ++ '\n' :: more).head? = some '/' ↔ rest.head? = some '/' := by
  cases rest with
  | nil => exact iff_of_false (by simp) nofun
  | cons c rest => rfl

/-- A gap that ends before the text does ends there whatever lines follow; one up to the end of the
text goes on behind the line feed, out of any comment. -/
theorem gapLengthFrom_append (comment : Bool) (text more : List Char) :
    gapLengthFrom comment (text ++ '\n' :: more) =
      if gapLengthFrom comment text = text.length then text.length + 1 + gapLength more
      else gapLengthFrom comment text := by
  fun_induction gapLengthFrom comment text with
  | case1 comment => cases comment <;> exact Nat.add_comm _ _
  | case2 c rest ih =>
    rw [List.cons_append, gapLengthFrom, ih, List.length_cons]
    split <;> split <;> omega
  | case3 c rest blank ih =>
    rw [List.cons_append, gapLengthFrom, if_pos blank, ih, List.length_cons]
    split <;> split <;> omega
  | case4 c rest blank opening ih =>
    rw [← head?_append_lineFeed rest more] at opening
    rw [List.cons_append, gapLengthFrom, if_neg blank, if_pos opening, ih, List.length_cons]
    split <;> split <;> omega
  | case5 c rest blank opening =>
    rw [← head?_append_lineFeed rest more] at opening
    rw [List.cons_append, gapLengthFrom, if_neg blank, if_neg opening]
    rfl

theorem gapLength_append (text more : List Char) :
    gapLength (text ++ '\n' :: more) =
      if gapLength text = text.length then text.length + 1 + gapLength more else gapLength text :=
  gapLengthFrom_append false text more

theorem Longest.gap_append {gap text : List Char} (longest : Longest Gap gap text)
    (some : text ≠ []) (more : List Char) : Longest Gap gap (text ++ '\n' :: more) := by
  have measured := longest_gap_iff.mp longest
  have inside : gapLength (gap ++ text) ≠ (gap ++ text).length := by
    have := List.length_pos_iff.mpr some
    rw [← measured, List.length_append]
    omega
  refine longest_gap_iff.mpr ?_
  rwa [← List.append_assoc, gapLength_append, if_neg inside]

/-! ## Words -/

theorem IsWord.inLine {word : List Char} (isWord : IsWord word) : '\n' ∉ word := by
  have outside : ¬isNameChar '\n' = true := by decide
  intro member
  cases isWord with
  | name first run =>
    rcases List.mem_cons.mp member with rfl | member
    · exact outside (isNameChar_of_isNameStart first)
    · exact outside (run _ member)
  | literal first run =>
    rcases List.mem_cons.mp member with rfl | member
    · exact outside (isNameChar_of_isDigit first)
    · exact outside (run _ member)
  | symbol mark =>
    have all : ∀ mark ∈ Symbol.all, '\n' ∉ mark.spelling := by decide
    exact all mark mark.mem_all member

theorem Longest.word_append {word rest : List Char} (longest : LongestWord word rest)
    (more : List Char) : LongestWord word (rest ++ '\n' :: more) := by
  refine ⟨longest.formed, fun longer others same isWord => ?_⟩
  rw [← List.append_assoc] at same
  rcases List.append_eq_append_iff.mp same with ⟨between, split, _⟩ | ⟨between, rfl, split⟩
  · exact longest.longest longer between split.symm isWord
  · cases between with
    | nil => exact longest.longest _ [] (by simp) isWord
    | cons c between =>
      obtain ⟨rfl, _⟩ := List.cons.inj split
      exact absurd (by simp) isWord.inLine

/-! ## Sources -/

/-- A segmentation stays one where a line feed and anything else follow. -/
theorem Segments.append {read text reached rest : List Char} {tokens : List Token}
    (segments : Segments read text tokens reached rest) (more : List Char) :
    Segments read (text ++ '\n' :: more) tokens reached (rest ++ '\n' :: more) := by
  induction segments with
  | nil => exact .nil
  | @cons read gap word text reached rest kind tokens longestGap longestWord spells _ ih =>
    have some : word ++ text ≠ [] := fun none =>
      longestWord.formed.ne_nil (List.append_eq_nil_iff.mp none).1
    have gapStill := longestGap.gap_append some more
    rw [List.append_assoc] at gapStill
    rw [List.append_assoc, List.append_assoc]
    exact .cons gapStill (longestWord.word_append more) spells ih

namespace Lexer

/-- What begins a gap is passed like the rest of it. -/
theorem tokenize_skip {lexer : Lexer} {count : Nat}
    (gap : gapLength lexer.rest = count + gapLength (lexer.rest.drop count)) :
    (lexer.skip count).tokenize = lexer.tokenize := by
  have same : (lexer.skip count).next = lexer.next := by
    simp only [next, rest_skip, skip_skip, gap]
  rw [tokenize_eq, same, ← tokenize_eq]

/-- A gap up to the end of a text is passed together with the line feed behind it. -/
theorem tokenize_of_gap_append {read gap : List Char} (ended : Gap gap []) (more : List Char) :
    (behind read (gap ++ '\n' :: more)).tokenize =
      (behind (read ++ gap ++ ['\n']) more).tokenize := by
  have split : gap ++ '\n' :: more = (gap ++ ['\n']) ++ more := by simp
  have length : gapLength (gap ++ '\n' :: more) = (gap ++ ['\n']).length + gapLength more := by
    rw [gapLength_append, if_pos ended.gapLength_eq, List.length_append, List.length_singleton]
  rw [List.append_assoc, ← skip_behind read (gap ++ ['\n']) more, ← split]
  refine (tokenize_skip ?_).symm
  rw [behind, length, split, List.drop_left]

end Lexer

/-- Below a text that is split into tokens another one is split as it is on its own. -/
theorem tokensOf_append {source : String} {tokens : List Token} (found : tokensOf source = .ok tokens)
    (more : String) :
    tokensOf (source ++ "\n" ++ more) =
      (relocateOutcome (Position.below source.toList)
        (List.map (Token.relocate (Position.below source.toList))) (tokensOf more)).map
        (tokens.dropLast ++ ·) := by
  obtain ⟨segments, ended⟩ := tokensOf_eq_ok_iff.mp found
  have lexed := Lexer.tokenize_of_segments (segments.append more.toList)
  have whole := segments.append_eq
  rw [List.nil_append] at whole
  rw [Lexer.tokenize_of_gap_append ended, ← whole, Lexer.tokenize_below] at lexed
  rw [List.dropLast_concat]
  have text : (source ++ "\n" ++ more).toList = source.toList ++ '\n' :: more.toList := by
    simp
  rw [← text] at lexed
  exact lexed

end MiniC
