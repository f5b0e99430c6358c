/-
# MiniC.Proofs.Segmentation.Gap — the longest gap

A gap, said without the function that measures it: blank characters and complete comments, in any
order. A comment is complete if a line feed or the end of the text follows it, so that whether some
characters are a gap depends on what stands behind them.

* `Longest` — no longer part of the text at the same place is of the given form.
* `longest_gap_iff` — `gapLength` measures the longest gap.
-/
import MiniC.Text.Gap

namespace MiniC

set_option autoImplicit false

/-- `part` stands in front of `rest` in a given form, and nothing longer does that begins where
`part` begins. -/
structure Longest (form : List Char → List Char → Prop) (part rest : List Char) : Prop where
  formed : form part rest
  longest : ∀ longer more, longer ++ more = part ++ rest → form longer more →
    longer.length ≤ part.length

/-- Blank characters and complete comments in front of `rest`. -/
inductive Gap : (gap rest : List Char) → Prop
  | nil {rest : List Char} : Gap [] rest
  | blank {c : Char} {gap rest : List Char} (blank : isBlank c = true) (more : Gap gap rest) :
      Gap (c :: gap) rest
  | comment {body gap rest : List Char} (inLine : '\n' ∉ body)
      (complete : ∀ c ∈ (gap ++ rest).head?, c = '\n') (more : Gap gap rest) :
      Gap ('/' :: '/' :: (body ++ gap)) rest

/-! ## What is measured is a gap -/

/-- A gap, or what is left of one from inside a comment: the rest of the comment and a gap. -/
def GapFrom : (comment : Bool) → (text rest : List Char) → Prop
  | false, text, rest => Gap text rest
  | true, text, rest => ∃ body gap, text = body ++ gap ∧ '\n' ∉ body ∧
      (∀ c ∈ (gap ++ rest).head?, c = '\n') ∧ Gap gap rest

theorem gapFrom_cons {c : Char} {text rest : List Char} (more : GapFrom (c != '\n') text rest) :
    GapFrom true (c :: text) rest := by
  by_cases lineFeed : c = '\n'
  · subst lineFeed
    exact ⟨[], '\n' :: text, rfl, by simp, by simp, .blank (by decide) more⟩
  · rw [bne_iff_ne.mpr lineFeed] at more
    obtain ⟨body, gap, rfl, inLine, complete, more⟩ := more
    refine ⟨c :: body, gap, rfl, ?_, complete, more⟩
    simp only [List.mem_cons, not_or]
    exact ⟨Ne.symm lineFeed, inLine⟩

/-- Two slashes open a comment; the second one is read as the first character inside. -/
theorem gap_of_opening {text rest : List Char} (second : (text ++ rest).head? = some '/')
    (inside : GapFrom true text rest) : Gap ('/' :: text) rest := by
  obtain ⟨body, gap, rfl, inLine, complete, more⟩ := inside
  cases body with
  | nil => exact absurd (complete '/' second) (by decide)
  | cons slash body =>
    obtain rfl : slash = '/' := by simpa using second
    exact .comment (fun member => inLine (List.mem_cons_of_mem _ member)) complete more

theorem gapFrom_gapLengthFrom (comment : Bool) (text : List Char) :
    GapFrom comment (text.take (gapLengthFrom comment text))
      (text.drop (gapLengthFrom comment text)) := by
  fun_induction gapLengthFrom comment text with
  | case1 comment =>
    cases comment with
    | false => exact .nil
    | true => exact ⟨[], [], rfl, by simp, by simp, .nil⟩
  | case2 c rest ih => exact gapFrom_cons ih
  | case3 c rest blank ih => exact .blank blank ih
  | case4 c rest _ opening ih =>
    obtain ⟨rfl, second⟩ := opening
    refine gap_of_opening ?_ ih
    rw [List.drop_succ_cons, List.take_append_drop, second]
  | case5 c rest _ _ => exact .nil

theorem gap_gapLength (text : List Char) :
    Gap (text.take (gapLength text)) (text.drop (gapLength text)) :=
  gapFrom_gapLengthFrom false text

/-! ## No gap is longer -/

/-- A comment goes on to the end of its line. -/
theorem gapLengthFrom_comment {body : List Char} (inLine : '\n' ∉ body) (rest : List Char) :
    gapLengthFrom true (body ++ rest) = body.length + gapLengthFrom true rest := by
  induction body with
  | nil => simp
  | cons c body ih =>
    simp only [List.mem_cons, not_or] at inLine
    rw [List.cons_append, gapLengthFrom, bne_iff_ne.mpr (Ne.symm inLine.1), ih inLine.2,
      List.length_cons]
    omega

/-- At the end of a line it does not matter whether a comment is open. -/
theorem gapLengthFrom_lineEnd {text : List Char} (complete : ∀ c ∈ text.head?, c = '\n') :
    gapLengthFrom true text = gapLengthFrom false text := by
  cases text with
  | nil => rfl
  | cons c rest =>
    obtain rfl := complete c rfl
    rfl

theorem Gap.length_le {gap rest : List Char} (gap_rest : Gap gap rest) :
    gap.length ≤ gapLength (gap ++ rest) := by
  unfold gapLength
  induction gap_rest with
  | nil => exact Nat.zero_le _
  | blank blank _ ih =>
    rw [List.cons_append, gapLengthFrom, if_pos blank, List.length_cons]
    exact Nat.succ_le_succ ih
  | @comment body gap rest inLine complete _ ih =>
    have notBlank : ¬isBlank '/' = true := by decide
    have line := gapLengthFrom_comment inLine (gap ++ rest)
    rw [gapLengthFrom_lineEnd complete] at line
    rw [List.cons_append, gapLengthFrom, if_neg notBlank, if_pos ⟨rfl, rfl⟩, List.cons_append,
      gapLengthFrom, List.append_assoc]
    simp only [List.length_cons, List.length_append]
    have slash : ('/' != '\n') = true := by decide
    rw [slash, line]
    omega

/-- A gap up to the end of the text is measured as all of it. -/
theorem Gap.gapLength_eq {gap : List Char} (ended : Gap gap []) : gapLength gap = gap.length := by
  have long := ended.length_le
  rw [List.append_nil] at long
  exact Nat.le_antisymm (gapLength_le gap) long

/-- The longest gap is the one that is measured. -/
theorem longest_gap_iff {gap rest : List Char} :
    Longest Gap gap rest ↔ gap.length = gapLength (gap ++ rest) := by
  constructor
  · rintro ⟨formed, longest⟩
    have measured := longest _ _ (List.take_append_drop _ _) (gap_gapLength (gap ++ rest))
    rw [List.length_take_of_le (gapLength_le _)] at measured
    exact Nat.le_antisymm formed.length_le measured
  · intro same
    refine ⟨?_, fun longer more split formed => ?_⟩
    · have measured := gap_gapLength (gap ++ rest)
      rwa [← same, List.take_left, List.drop_left] at measured
    · have short := formed.length_le
      rwa [split, ← same] at short

/-- The longest gap at the beginning of a text. -/
theorem exists_longest_gap (text : List Char) :
    ∃ gap rest, text = gap ++ rest ∧ Longest Gap gap rest := by
  refine ⟨_, _, (List.take_append_drop (gapLength text) text).symm, longest_gap_iff.mpr ?_⟩
  rw [List.length_take_of_le (gapLength_le _), List.take_append_drop]

end MiniC
