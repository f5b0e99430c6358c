/-
# MiniC.Proofs.Segmentation — the tokens of a source are its longest-match segmentation

A source is a gap, a word, a gap, a word and so on, every one of them the longest that can stand at
its place, and in the end a gap. `Segments` says which tokens the words are: each has the kind that
its word spells, the place where the word begins and the bytes of the word for its length. A source
is refused where its segmentation comes to a character that no word begins with, or to a literal
without a value.

`tokensOf_segmentation`: the tokens of a source are those of its segmentation, with the end of the
file behind them, and a source has none exactly where it is refused, with that error.
-/
import MiniC.Proofs.Bytes
import MiniC.Proofs.Segmentation.Word
import MiniC.Token.Lexer

namespace MiniC

set_option autoImplicit false

/-- From the place behind `read` on, `text` is segmented into the tokens, up to the place behind
`reached` where `rest` is left. -/
inductive Segments : (read text : List Char) → List Token → (reached rest : List Char) → Prop
  | nil {read text : List Char} : Segments read text [] read text
  | cons {read gap word text reached rest : List Char} {kind : Kind} {tokens : List Token}
      (longestGap : Longest Gap gap (word ++ text)) (longestWord : LongestWord word text)
      (spells : Spells word kind)
      (more : Segments (read ++ gap ++ word) text tokens reached rest) :
      Segments read (gap ++ (word ++ text))
        (⟨kind, Position.start.after (read ++ gap), byteLength word⟩ :: tokens) reached rest

/-- The tokens are those of the segmentation of the source, with a last one of no length for the
end of the file. -/
inductive Segmented (source : List Char) : List Token → Prop
  | intro {tokens : List Token} {reached gap : List Char}
      (segments : Segments [] source tokens reached gap) (ended : Gap gap []) :
      Segmented source (tokens ++ [⟨.endOfFile, Position.start.after source, 0⟩])

/-- Where a fault is reported in a text that begins behind `before`: a digit that is too big where
it stands, which is where reading stops, and anything else at the beginning. -/
def LexicalFault.place (before read : List Char) : LexicalFault → Position
  | .literal (.digitTooBig ..) => Position.start.after (before ++ read)
  | .literal .tooLarge => Position.start.after before
  | .unknownCharacter _ => Position.start.after before

/-- The segmentation of the source comes to a place where no token stands. -/
inductive Refused (source : List Char) : CompileError → Prop
  | intro {tokens : List Token} {reached gap text read : List Char} {fault : LexicalFault}
      (segments : Segments [] source tokens reached (gap ++ text))
      (longestGap : Longest Gap gap text) (fails : Fails text read fault) :
      Refused source ⟨.lexical fault, fault.place (reached ++ gap) read⟩

/-- The bytes of the source that a token stands for. -/
def Token.bytes (token : Token) (source : String) : ByteArray :=
  source.toUTF8.extract token.position.offset (token.position.offset + token.length)

theorem Spells.ne_endOfFile {word : List Char} {kind : Kind} (spells : Spells word kind) :
    kind ≠ .endOfFile := by
  cases spells <;> exact nofun

namespace Segments

/-- What is segmented and what is left make up the source. -/
theorem append_eq {read text reached rest : List Char} {tokens : List Token}
    (segments : Segments read text tokens reached rest) : read ++ text = reached ++ rest := by
  induction segments with
  | nil => rfl
  | cons _ _ _ _ ih => simpa using ih

/-- Every token stands for a word that spells its kind. -/
theorem spells_bytes {read text reached rest : List Char} {tokens : List Token}
    (segments : Segments read text tokens reached rest) {source : String}
    (whole : source.toList = read ++ text) :
    ∀ token ∈ tokens, ∃ word, Spells word token.kind ∧
      token.bytes source = (String.ofList word).toUTF8 := by
  induction segments with
  | nil => exact nofun
  | @cons read gap word text _ _ _ _ _ _ spells _ ih =>
    refine List.forall_mem_cons.mpr ⟨⟨word, spells, ?_⟩, ih (by simpa using whole)⟩
    have part := extract_utf8Encode (read ++ gap) word text
    rw [Token.bytes, Position.offset_after, ← String.ofList_toList (s := source), whole]
    simpa [Position.start] using part

end Segments

/-! ## One call of the lexer -/

namespace Lexer

/-- The lexer behind a part of a source. -/
def behind (read text : List Char) : Lexer :=
  ⟨text, Position.start.after read⟩

theorem skip_behind (read part rest : List Char) :
    (behind read (part ++ rest)).skip part.length = behind (read ++ part) rest := by
  rw [skip, behind, List.drop_left, List.take_left, ← Position.after_append]
  rfl

/-- The longest gap is passed. -/
theorem skip_gap {gap text : List Char} (longest : Longest Gap gap text) (read : List Char) :
    (behind read (gap ++ text)).skip (gapLength (gap ++ text)) = behind (read ++ gap) text := by
  rw [← longest_gap_iff.mp longest, skip_behind]

theorem next_of_spells {read gap word text : List Char} {kind : Kind}
    (longestGap : Longest Gap gap (word ++ text)) (longestWord : LongestWord word text)
    (spells : Spells word kind) :
    (behind read (gap ++ (word ++ text))).next =
      (.ok ⟨kind, Position.start.after (read ++ gap), byteLength word⟩,
        behind (read ++ gap ++ word) text) := by
  have passed := skip_gap longestGap read
  have lexed := lexeme_of_spells longestWord spells
  simp only [next]
  rw [show (behind read (gap ++ (word ++ text))).rest = gap ++ (word ++ text) from rfl, passed,
    show (behind (read ++ gap) (word ++ text)).rest = word ++ text from rfl, lexed, skip_behind,
    List.take_left]
  rfl

theorem next_of_fails {read gap stopped rest : List Char} {fault : LexicalFault}
    (longestGap : Longest Gap gap (stopped ++ rest)) (fails : Fails (stopped ++ rest) stopped fault) :
    (behind read (gap ++ (stopped ++ rest))).next =
      (.error ⟨.lexical fault, fault.place (read ++ gap) stopped⟩,
        behind (read ++ gap ++ stopped) rest) := by
  have passed := skip_gap longestGap read
  have lexed := lexeme_of_fails fails
  simp only [next]
  rw [show (behind read (gap ++ (stopped ++ rest))).rest = gap ++ (stopped ++ rest) from rfl,
    passed, show (behind (read ++ gap) (stopped ++ rest)).rest = stopped ++ rest from rfl, lexed,
    skip_behind]
  rcases fault with c | (⟨c, base⟩ | _) <;> rfl

/-! ## All tokens -/

/-- The tokens of a segmentation come before those of what is left. -/
theorem tokenize_of_segments {read text reached rest : List Char} {tokens : List Token}
    (segments : Segments read text tokens reached rest) :
    (behind read text).tokenize.1 = (behind reached rest).tokenize.1.map (tokens ++ ·) := by
  induction segments with
  | @nil read text => cases (behind read text).tokenize.1 <;> rfl
  | @cons read gap word text reached rest kind tokens longestGap longestWord spells _ ih =>
    rw [tokenize_eq, next_of_spells longestGap longestWord spells]
    simp only [if_neg spells.ne_endOfFile, ih]
    cases (behind reached rest).tokenize.1 <;> rfl

theorem tokenize_of_gap {read gap : List Char} (ended : Gap gap []) :
    (behind read gap).tokenize.1 = .ok [⟨.endOfFile, Position.start.after (read ++ gap), 0⟩] := by
  have done : (behind read gap).AtEnd :=
    List.drop_eq_nil_of_le (Nat.le_of_eq ended.gapLength_eq.symm)
  have found := next_fst_of_atEnd done
  rw [tokenize_eq, Position.after_append]
  rcases result : (behind read gap).next with ⟨outcome, after⟩
  rw [result] at found
  obtain rfl : outcome = _ := found
  rfl

theorem tokenize_of_fails {read gap text stopped : List Char} {fault : LexicalFault}
    (longestGap : Longest Gap gap text) (fails : Fails text stopped fault) :
    (behind read (gap ++ text)).tokenize.1 =
      .error ⟨.lexical fault, fault.place (read ++ gap) stopped⟩ := by
  obtain ⟨rest, rfl⟩ := fails.exists_append
  rw [tokenize_eq, next_of_fails longestGap fails]

end Lexer

/-! ## Every source is segmented or refused -/

/-- The segmentation of a text goes on to its end or to a place where no token stands. -/
theorem segments_or_fails (read text : List Char) :
    (∃ tokens reached gap, Segments read text tokens reached gap ∧ Gap gap []) ∨
      ∃ tokens reached gap bad stopped fault, Segments read text tokens reached (gap ++ bad) ∧
        Longest Gap gap bad ∧ Fails bad stopped fault := by
  induction left : text.length using Nat.strongRecOn generalizing read text with
  | ind left ih =>
    subst left
    obtain ⟨gap, rest, rfl, longestGap⟩ := exists_longest_gap text
    by_cases ended : rest = []
    · subst ended
      rw [List.append_nil]
      exact .inl ⟨[], read, gap, .nil, longestGap.formed⟩
    · rcases word_or_fault ended with ⟨word, rest, kind, rfl, longestWord, spells⟩ |
        ⟨stopped, fault, fails⟩
      · have shorter : rest.length < (gap ++ (word ++ rest)).length := by
          have := List.length_pos_iff.mpr longestWord.formed.ne_nil
          simp only [List.length_append]
          omega
        rcases ih _ shorter (read ++ gap ++ word) rest rfl with
          ⟨tokens, reached, last, segments, ended⟩ |
          ⟨tokens, reached, last, bad, stopped, fault, segments, longest, fails⟩
        · exact .inl ⟨_, reached, last, .cons longestGap longestWord spells segments, ended⟩
        · exact .inr ⟨_, reached, last, bad, stopped, fault,
            .cons longestGap longestWord spells segments, longest, fails⟩
      · exact .inr ⟨[], read, gap, rest, stopped, fault, .nil, longestGap, fails⟩

theorem tokensOf_of_segmented {source : String} {tokens : List Token}
    (segmented : Segmented source.toList tokens) : tokensOf source = .ok tokens := by
  obtain ⟨segments, ended⟩ := segmented
  have lexed := Lexer.tokenize_of_segments segments
  rw [Lexer.tokenize_of_gap ended, ← segments.append_eq] at lexed
  exact lexed

theorem tokensOf_of_refused {source : String} {error : CompileError}
    (refused : Refused source.toList error) : tokensOf source = .error error := by
  obtain ⟨segments, longestGap, fails⟩ := refused
  have lexed := Lexer.tokenize_of_segments segments
  rw [Lexer.tokenize_of_fails longestGap fails] at lexed
  exact lexed

theorem segmented_or_refused (source : List Char) :
    (∃ tokens, Segmented source tokens) ∨ ∃ error, Refused source error := by
  rcases segments_or_fails [] source with ⟨tokens, reached, gap, segments, ended⟩ |
    ⟨tokens, reached, gap, bad, stopped, fault, segments, longest, fails⟩
  · exact .inl ⟨_, segments, ended⟩
  · exact .inr ⟨_, segments, longest, fails⟩

theorem tokensOf_eq_ok_iff {source : String} {tokens : List Token} :
    tokensOf source = .ok tokens ↔ Segmented source.toList tokens := by
  refine ⟨fun found => ?_, tokensOf_of_segmented⟩
  rcases segmented_or_refused source.toList with ⟨others, segmented⟩ | ⟨error, refused⟩
  · rw [tokensOf_of_segmented segmented] at found
    exact Except.ok.inj found ▸ segmented
  · rw [tokensOf_of_refused refused] at found
    cases found

theorem tokensOf_eq_error_iff {source : String} {error : CompileError} :
    tokensOf source = .error error ↔ Refused source.toList error := by
  refine ⟨fun found => ?_, tokensOf_of_refused⟩
  rcases segmented_or_refused source.toList with ⟨tokens, segmented⟩ | ⟨other, refused⟩
  · rw [tokensOf_of_segmented segmented] at found
    cases found
  · rw [tokensOf_of_refused refused] at found
    exact Except.error.inj found ▸ refused

/-- The tokens of a source are those of its longest-match segmentation; a source has none exactly
where its segmentation comes to a place where no token stands, and then that is the error. All
tokens but the last stand for words of the source that spell them. -/
theorem tokensOf_segmentation (source : String) :
    (∀ tokens, tokensOf source = .ok tokens ↔ Segmented source.toList tokens) ∧
      (∀ error, tokensOf source = .error error ↔ Refused source.toList error) ∧
      ∀ tokens, tokensOf source = .ok tokens → ∃ words last, tokens = words ++ [last] ∧
        last.kind = .endOfFile ∧ last.length = 0 ∧
        ∀ token ∈ words, token.kind ≠ .endOfFile ∧
          ∃ word, Spells word token.kind ∧ token.bytes source = (String.ofList word).toUTF8 := by
  refine ⟨fun _ => tokensOf_eq_ok_iff, fun _ => tokensOf_eq_error_iff, fun tokens found => ?_⟩
  obtain ⟨segments, _⟩ := tokensOf_eq_ok_iff.mp found
  refine ⟨_, _, rfl, rfl, rfl, fun token member => ?_⟩
  obtain ⟨word, spells, bytes⟩ := segments.spells_bytes rfl token member
  exact ⟨spells.ne_endOfFile, word, spells, bytes⟩

end MiniC
