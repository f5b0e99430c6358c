/-
# MiniC.Proofs.Lexed — what the lexer promises

The tokens of a source end with the end of the file, which stands nowhere else, and no literal
among them is larger than the largest one. `lexed_of_tokensOf` says so of every source that is
split into tokens; the parser relies on nothing else.
-/
import MiniC.Proofs.Tokens
import MiniC.Token.Lexer

namespace MiniC

set_option autoImplicit false

/-- Tokens as the lexer yields them. -/
structure Lexed (tokens : Array Token) : Prop where
  nonempty : 0 < tokens.size
  /-- The end of the file is the last token and no other. -/
  ended_iff : ∀ index, kindAt tokens index = some .endOfFile ↔ index + 1 = tokens.size
  literal_le : ∀ {index value : Nat}, kindAt tokens index = some (.integer value) →
    value ≤ Literal.maxLiteral

/-! ## Single tokens -/

theorem Literal.value_read_le {text : List Char} {value : Nat} (found : (read text).2 = .ok value) :
    value ≤ maxLiteral :=
  readDigits_value_le (Nat.zero_le _) found

theorem literal_le_of_lexeme {text : List Char} {value : Nat}
    (found : (lexeme text).2 = .ok (.integer value)) : value ≤ Literal.maxLiteral := by
  unfold lexeme at found
  split at found
  · cases found
  · next c rest =>
    split at found
    · rcases read : (Literal.read (c :: rest)).2 with fault | number
      · simp only [Prod.map_snd, read] at found
        cases found
      · simp only [Prod.map_snd, read] at found
        cases found
        exact Literal.value_read_le read
    · split at found
      · simp only [Except.ok.injEq, Kind.ofWord] at found
        cases keyword : Keyword.ofSpelling? (String.ofList ((c :: rest).takeWhile isNameChar)) <;>
          simp [keyword] at found
      · split at found <;> simp at found

namespace Lexer

variable {lexer : Lexer} {count : Nat} {tokens : List Token}

theorem literal_le_of_next {token : Token} {value : Nat} (found : lexer.next.1 = .ok token)
    (literal : token.kind = .integer value) : value ≤ Literal.maxLiteral := by
  simp only [next] at found
  split at found
  · next kind read =>
    simp only [Except.ok.injEq] at found
    subst found
    simp only at literal
    subst literal
    exact literal_le_of_lexeme read
  · simp at found

/-! ## All tokens -/

/-- One token, and the tokens behind it unless it is the end of the file. -/
theorem upTo_succ_eq_ok (found : (upTo (count + 1) lexer).1 = .ok tokens) :
    ∃ token, lexer.next.1 = .ok token ∧
      (token.kind = .endOfFile ∧ tokens = [token] ∨
        token.kind ≠ .endOfFile ∧ ∃ others, (upTo count lexer.next.2).1 = .ok others ∧
          tokens = token :: others) := by
  rw [upTo] at found
  rcases result : lexer.next with ⟨error | token, after⟩
  · simp [result] at found
  · refine ⟨token, rfl, ?_⟩
    simp only [result] at found
    split at found
    · next ended => exact .inl ⟨ended, (Except.ok.inj found).symm⟩
    · next more =>
      rcases later : (upTo count after).1 with error | others
      · simp [later, Except.map] at found
      · simp only [later, Except.map, Except.ok.injEq] at found
        exact .inr ⟨more, others, rfl, found.symm⟩

/-- Where there is room for all tokens, the end of the file is the last of them. -/
theorem ended_upTo (enough : lexer.rest.length < count)
    (found : (upTo count lexer).1 = .ok tokens) :
    ∃ words last, tokens = words ++ [last] ∧ last.kind = .endOfFile ∧
      ∀ word ∈ words, word.kind ≠ .endOfFile := by
  induction count generalizing lexer tokens with
  | zero => exact absurd enough (Nat.not_lt_zero _)
  | succ count ih =>
    obtain ⟨token, read, ⟨ended, rfl⟩ | ⟨more, others, later, rfl⟩⟩ := upTo_succ_eq_ok found
    · exact ⟨[], token, rfl, ended, by simp⟩
    · have shorter := length_next_lt fun done => more (kind_of_atEnd read done)
      obtain ⟨words, last, rfl, ended, none⟩ := ih (by omega) later
      refine ⟨token :: words, last, rfl, ended, ?_⟩
      intro word member
      rcases List.mem_cons.mp member with rfl | member
      · exact more
      · exact none word member

theorem literal_le_of_upTo (found : (upTo count lexer).1 = .ok tokens) :
    ∀ token ∈ tokens, ∀ value, token.kind = .integer value → value ≤ Literal.maxLiteral := by
  induction count generalizing lexer tokens with
  | zero =>
    obtain rfl := Except.ok.inj found
    simp
  | succ count ih =>
    obtain ⟨first, read, ⟨_, rfl⟩ | ⟨_, others, later, rfl⟩⟩ := upTo_succ_eq_ok found
    · intro token member value literal
      obtain rfl := List.mem_singleton.mp member
      exact literal_le_of_next read literal
    · intro token member value literal
      rcases List.mem_cons.mp member with rfl | member
      · exact literal_le_of_next read literal
      · exact ih later token member value literal

end Lexer

/-- What is said of every token of a list holds of the kind at every index. -/
theorem exists_mem_of_kindAt {tokens : List Token} {index : Nat} {kind : Kind}
    (found : kindAt tokens.toArray index = some kind) :
    ∃ token ∈ tokens, tokens[index]? = some token ∧ token.kind = kind := by
  obtain ⟨token, here, same, _⟩ := kindAt_eq_some found
  rw [List.getElem?_toArray] at here
  exact ⟨token, List.mem_of_getElem? here, here, same⟩

/-- The tokens of a source are as the lexer yields them. -/
theorem lexed_of_tokensOf {source : String} {tokens : List Token}
    (found : tokensOf source = .ok tokens) : Lexed tokens.toArray := by
  obtain ⟨words, last, rfl, ended, others⟩ := Lexer.ended_upTo (Nat.lt_succ_self _) found
  refine ⟨by simp, fun index => ?_, fun here => ?_⟩
  · simp only [List.size_toArray, List.length_append, List.length_singleton,
      Nat.add_right_cancel_iff]
    constructor
    · intro here
      obtain ⟨token, _, place, kind⟩ := exists_mem_of_kindAt here
      rcases Nat.lt_trichotomy index words.length with before | same | behind
      · rw [List.getElem?_append_left before] at place
        exact absurd kind (others token (List.mem_of_getElem? place))
      · exact same
      · rw [List.getElem?_eq_none (by simp; omega)] at place
        cases place
    · rintro rfl
      simp [kindAt, ended]
  · obtain ⟨token, member, _, kind⟩ := exists_mem_of_kindAt here
    exact Lexer.literal_le_of_upTo found token member _ kind

/-- There is at least the end of the file. -/
theorem ne_nil_of_tokensOf {source : String} {tokens : List Token}
    (found : tokensOf source = .ok tokens) : tokens ≠ [] := by
  rintro rfl
  exact Nat.lt_irrefl 0 (lexed_of_tokensOf found).nonempty

/-- A token other than the end of the file has another behind it. -/
theorem Lexed.succ_lt_size {tokens : Array Token} (lexed : Lexed tokens) {index : Nat}
    (within : index < tokens.size) (more : kindAt tokens index ≠ some .endOfFile) :
    index + 1 < tokens.size := by
  have notLast := mt (lexed.ended_iff index).mpr more
  omega

end MiniC
