/-
# MiniC.Proofs.Declarator.Inside — what is read inside parentheses, the first pass goes through

The first pass over a declarator decides how far it extends. In the second, declarators in groups
and parameter lists have first passes of their own, which come to their ends by rules of their own,
and may fail. But they pass nothing that the outer one does not go through as well: it stands inside
parentheses there, where it stops at less.

`Through` says of two indices that the first pass gets from the one to the other where enough
parentheses are open, and `Inside` of a parser that it keeps to this, whatever becomes of it.
`Finishes` is what that comes down to: a property of the state that a parser leaves in any case.

* `Passes.through` — what a pass goes through, one inside parentheses goes through.
* `inside_bind`, `inside_iterate` — parsers that keep inside, one after the other.
* `inside_scanComponents` — a first pass inside parentheses comes no further than the one outside.
-/
import MiniC.Proofs.Declarator.Scan

namespace MiniC

set_option autoImplicit false

/-! ## Going through tokens -/

/-- Where it has opened at least `least` parentheses, the first pass gets from the one index to the
other without noting anything, and none of those is closed there. -/
def Through (tokens : Array Token) (least start stop : Nat) : Prop :=
  ∀ scan : Scan, least ≤ scan.depth →
    ∃ depth, scan.depth ≤ depth ∧ Passes tokens start scan stop { scan with depth }

/-- Where at least `least` parentheses are open, such a token leaves no trace. -/
def Kind.Traceless (least : Nat) (kind : Kind) : Prop :=
  ∀ (scan : Scan) (index : Nat), least ≤ scan.depth → scan.step index kind = .pass scan

namespace Through

variable {tokens : Array Token} {least start place stop : Nat}

theorem refl (least start : Nat) : Through tokens least start start :=
  fun scan _ => ⟨scan.depth, Nat.le_refl _, .done⟩

theorem trans (before : Through tokens least start place)
    (behind : Through tokens least place stop) : Through tokens least start stop := by
  intro scan enough
  obtain ⟨between, deeper, passes⟩ := before scan enough
  obtain ⟨depth, further, rest⟩ :=
    behind { scan with depth := between } (Nat.le_trans enough deeper)
  exact ⟨depth, Nat.le_trans deeper further, passes.trans rest⟩

theorem le (through : Through tokens least start stop) : start ≤ stop := by
  obtain ⟨_, _, passes⟩ := through ⟨[], least⟩ (Nat.le_refl _)
  exact passes.le

theorem single {kind : Kind} (here : kindAt tokens start = some kind)
    (traceless : kind.Traceless least) : Through tokens least start (start + 1) :=
  fun scan enough => ⟨scan.depth, Nat.le_refl _, .single here (traceless scan start enough)⟩

end Through

theorem traceless_name (spelling : String) : (Kind.name spelling).Traceless 1 := by
  intro scan index deep
  simp [Scan.step, Scan.note, Nat.ne_of_gt deep]

theorem traceless_star : (Kind.symbol .star).Traceless 1 := by
  intro scan index deep
  simp [Scan.step, Nat.ne_of_gt deep]

theorem traceless_comma : (Kind.symbol .comma).Traceless 1 := by
  intro scan index deep
  simp [Scan.step, Nat.ne_of_gt deep]

theorem traceless_integer (value : Nat) : (Kind.integer value).Traceless 0 :=
  fun _ _ _ => rfl

theorem traceless_closeBracket : (Kind.symbol .closeBracket).Traceless 0 :=
  fun _ _ _ => rfl

/-! ## A pass inside parentheses -/

/-- Inside parentheses that are left open, the first pass goes through a token as it does outside,
but notes nothing. -/
theorem Scan.step_inside {scan next outer : Scan} {index : Nat} {kind : Kind}
    (passed : scan.step index kind = .pass next) (deep : 0 < outer.depth) :
    ({ outer with depth := outer.depth + scan.depth } : Scan).step index kind =
      .pass { outer with depth := outer.depth + next.depth } := by
  have open' : outer.depth ≠ 0 := Nat.ne_of_gt deep
  have noted : (scan.note index).depth = scan.depth := by
    rw [← scan.note_with_depth index]
  rcases pass_cases passed with
    ⟨rfl, rfl⟩ | ⟨rfl, closing, rfl⟩ | ⟨begins, rfl⟩ | ⟨⟨noOpening, noClosing⟩, rfl⟩
  · simp [step, note, open', Nat.add_assoc]
  · simp [step, open', Nat.add_sub_assoc closing]
  · rw [noted]
    rcases begins with ⟨_, rfl⟩ | rfl <;> simp [step, note, open']
  · rcases kind with _ | _ | _ | _ | mark
    · cases passed
    · simp [step, note, open']
    · rfl
    · simp [step, open']
    · cases mark <;> simp_all [step, note]

/-- Where a token is noted, that is all that passing it notes. -/
theorem Scan.components_note {scan next : Scan} {index : Nat} {kind : Kind}
    (passed : scan.step index kind = .pass next)
    (noted : next.components = index :: scan.components) :
    (scan.note index).components = index :: scan.components := by
  rcases pass_cases passed with ⟨_, rfl⟩ | ⟨_, _, rfl⟩ | ⟨_, rfl⟩ | ⟨_, rfl⟩
  · exact noted
  · exact absurd noted.symm (List.cons_ne_self _ _)
  · exact noted
  · exact absurd noted.symm (List.cons_ne_self _ _)

namespace Passes

variable {tokens : Array Token} {start stop : Nat} {scan final outer : Scan}

theorem inside (passes : Passes tokens start scan stop final) (deep : 0 < outer.depth) :
    Passes tokens start { outer with depth := outer.depth + scan.depth } stop
      { outer with depth := outer.depth + final.depth } := by
  induction passes with
  | done => exact .done
  | step here passed _ ih => exact .step here (Scan.step_inside passed deep) ih

/-- What a pass goes through, one inside parentheses goes through. -/
theorem through {noted : List Nat} (passes : Passes tokens start ⟨noted, 0⟩ stop final) :
    Through tokens 1 start stop :=
  fun outer deep => ⟨outer.depth + final.depth, Nat.le_add_right _ _, passes.inside deep⟩

/-- A pass comes to every index on its way. -/
theorem split (passes : Passes tokens start scan stop final) {index : Nat} (low : start ≤ index)
    (high : index ≤ stop) : ∃ between, Passes tokens start scan index between := by
  induction passes with
  | @done place scan =>
    obtain rfl : index = place := Nat.le_antisymm high low
    exact ⟨scan, .done⟩
  | @step start _ scan _ _ _ here passed _ ih =>
    rcases Nat.eq_or_lt_of_le low with rfl | later
    · exact ⟨scan, .done⟩
    · obtain ⟨between, rest⟩ := ih later high
      exact ⟨between, .step here passed rest⟩

end Passes

/-! ## Where parsers end -/

namespace Parser

variable {σ α β : Type} {tokens : Array Token} {least : Nat} {state : State}
  {P : State → Prop}

/-- Whatever becomes of the parser, `P` holds of the state that it leaves. -/
def Finishes (tokens : Array Token) (P : State → Prop) (state : State) (parser : Parser α) : Prop :=
  P (stateAfter (parser tokens state))

theorem Finishes.of_error {parser : Parser α} (finishes : Finishes tokens P state parser)
    {error : CompileError} {after : State} (failed : parser tokens state = .error error after) :
    P after := by
  rwa [Finishes, failed] at finishes

theorem Finishes.of_runs {parser : Parser α} (finishes : Finishes tokens P state parser) {value : α}
    {after : State} (run : Runs tokens parser state value after) : P after := by
  rwa [Finishes, run] at finishes

/-- A sequence ends where its first part fails or where the second ends. -/
theorem finishes_bind {first : Parser α} {second : α → Parser β}
    (failed : ∀ error after, first tokens state = .error error after → P after)
    (behind : ∀ value between, Runs tokens first state value between →
      Finishes tokens P between (second value)) :
    Finishes tokens P state (first >>= second) := by
  rw [Finishes, bind_apply]
  rcases result : first tokens state with ⟨value, between⟩ | ⟨error, after⟩
  · exact behind value between result
  · exact failed error after result

theorem finishes_bind_of_runs {first : Parser α} {second : α → Parser β} {value : α}
    {between : State} (run : Runs tokens first state value between)
    (behind : Finishes tokens P between (second value)) :
    Finishes tokens P state (first >>= second) := by
  rwa [Finishes, bind_apply, run]

theorem finishes_pure {value : α} (holds : P state) : Finishes tokens P state (pure value) :=
  holds

theorem finishes_ofExcept {outcome : Except CompileError α} (holds : P state) :
    Finishes tokens P state (ofExcept outcome) := by
  cases outcome <;> exact holds

/-- An expected symbol that is missing is missed where it is expected. -/
theorem eq_of_expect_error {mark : Symbol} {place : Place} {error : CompileError} {after : State}
    (failed : expect mark place tokens state = .error error after) : after = state := by
  rcases current : tokens[state.cursor]? with _ | token
  · simp only [expect, accept, check, bind_apply, peek, current] at failed
    cases failed
    rfl
  · have kind := kindAt_of_getElem? current
    by_cases here : token.kind = .symbol mark
    · have run : Runs tokens (expect mark place) state ()
          { state with cursor := state.cursor + 1 } := runs_expect.mpr ⟨by rw [kind, here], rfl⟩
      rw [run] at failed
      cases failed
    · have refused : accept mark tokens state = .ok false state :=
        runs_accept.mpr (.inr ⟨rfl, ⟨token.kind, kind, here⟩, rfl⟩)
      simp only [expect, bind_apply, refused, peek_apply current, Bool.false_eq_true, if_false,
        fail_apply _ current] at failed
      cases failed
      rfl

/-- The first pass stays at a token that it does not pass. -/
theorem eq_of_scanToken_error {scan : Scan} {error : CompileError} {after : State}
    (failed : scanToken scan tokens state = .error error after) : after = state := by
  simp only [scanToken, bind_apply] at failed
  rcases current : tokens[state.cursor]? with _ | token
  · simp only [peek, current] at failed
    cases failed
    rfl
  · simp only [peek_apply current, cursor] at failed
    rcases passed : scan.step state.cursor token.kind with _ | _ | next <;>
      simp only [passed, fail_apply _ current, bind_apply, pure_apply] at failed
    · cases failed
    · cases failed
      rfl
    · split at failed
      · cases failed
      · next stuck =>
        by_cases ended : token.kind = .endOfFile
        · rw [advance_apply_of_end current ended] at stuck
          cases stuck
        · rw [advance_apply current ended] at stuck
          cases stuck

/-! ## Parsers that keep inside parentheses -/

/-- Whatever becomes of the parser, the first pass goes through what it passes. -/
abbrev InsideAt (tokens : Array Token) (least : Nat) (state : State) (parser : Parser α) : Prop :=
  Finishes tokens (fun after => Through tokens least state.cursor after.cursor) state parser

/-- Wherever it begins, the parser keeps inside. -/
def Inside (tokens : Array Token) (least : Nat) (parser : Parser α) : Prop :=
  ∀ state : State, InsideAt tokens least state parser

/-- What is read second goes on from where the first part ended. -/
theorem insideAt_bind {first : Parser α} {second : α → Parser β}
    (before : InsideAt tokens least state first)
    (behind : ∀ value between, Runs tokens first state value between →
      InsideAt tokens least between (second value)) :
    InsideAt tokens least state (first >>= second) :=
  finishes_bind (fun _ _ failed => before.of_error failed) fun value between run =>
    (before.of_runs run).trans (behind value between run)

theorem inside_bind {first : Parser α} {second : α → Parser β} (before : Inside tokens least first)
    (behind : ∀ value, Inside tokens least (second value)) :
    Inside tokens least (first >>= second) :=
  fun state => insideAt_bind (before state) fun value between _ => behind value between

theorem inside_iterate {step : σ → Parser (Option σ)}
    (each : ∀ current, Inside tokens least (step current)) (current : σ) :
    Inside tokens least (iterate step current) := by
  intro state
  have through : ∃ _ : σ, Finishes tokens
      (fun after => Through tokens least state.cursor after.cursor) state (iterate step current) :=
    stateAfter_iterate (Q := fun _ between => Through tokens least state.cursor between.cursor)
      (.refl least state.cursor) fun current between through =>
        ⟨fun _ _ run => through.trans ((each current between).of_runs run),
          fun _ _ failed => through.trans ((each current between).of_error failed)⟩
  exact through.elim fun _ => id

theorem inside_pure (value : α) : Inside tokens least (pure value) :=
  fun state => .refl least state.cursor

theorem inside_failAt (fault : Fault) (position : Position) :
    Inside tokens least (failAt fault position : Parser α) :=
  fun state => .refl least state.cursor

theorem inside_peek : Inside tokens least peek := by
  intro state
  unfold InsideAt Finishes peek
  split <;> exact .refl least state.cursor

theorem inside_fail (fault : Fault) : Inside tokens least (fail fault : Parser α) :=
  inside_bind inside_peek fun _ => inside_failAt _ _

theorem inside_check (mark : Symbol) : Inside tokens least (check mark) :=
  inside_bind inside_peek fun _ => inside_pure _

theorem inside_findType? (name : String) : Inside tokens least (findType? name) :=
  fun state => .refl least state.cursor

/-- A token that leaves no trace may be passed. -/
theorem insideAt_advance {kind : Kind} (here : kindAt tokens state.cursor = some kind)
    (traceless : kind.Traceless least) : InsideAt tokens least state advance := by
  obtain ⟨token, there, _⟩ := kindAt_eq_some here
  unfold InsideAt Finishes
  by_cases ended : token.kind = .endOfFile
  · rw [advance_apply_of_end there ended]
    exact .refl least state.cursor
  · rw [advance_apply there ended]
    exact .single here traceless

theorem inside_accept {mark : Symbol} (traceless : (Kind.symbol mark).Traceless least) :
    Inside tokens least (accept mark) := by
  intro state
  refine insideAt_bind (inside_check mark state) fun found between looked => ?_
  obtain ⟨_, same, rfl⟩ := runs_check.mp looked
  split
  · next accepted =>
    exact insideAt_bind (insideAt_advance (same.mp accepted) traceless) fun _ after _ =>
      inside_pure true after
  · exact inside_pure false state

theorem inside_expect {mark : Symbol} (traceless : (Kind.symbol mark).Traceless least)
    (place : Place) : Inside tokens least (expect mark place) := by
  refine inside_bind (inside_accept traceless) fun found => ?_
  split
  · exact inside_pure _
  · exact inside_bind inside_peek fun _ => inside_fail _

/-! ## In front of the second pass -/

theorem inside_isTypeName : Inside tokens least isTypeName := by
  refine inside_bind inside_peek fun token => ?_
  split
  · exact inside_bind (inside_findType? _) fun _ => inside_pure _
  · exact inside_pure _

theorem inside_baseType (base : Option Ty) : Inside tokens 1 (baseType base) := by
  cases base with
  | some ty => exact inside_pure ty
  | none =>
    intro state
    refine insideAt_bind (inside_peek state) fun token between looked => ?_
    obtain ⟨here, rfl⟩ := runs_peek.mp looked
    split
    · next spelling named =>
      refine insideAt_bind (inside_findType? spelling state) fun found between sought => ?_
      obtain ⟨_, rfl⟩ := runs_findType?.mp sought
      split
      · have kind : kindAt tokens state.cursor = some (.name spelling) := by
          rw [kindAt_of_getElem? here, named]
        exact insideAt_bind (insideAt_advance kind (traceless_name spelling)) fun _ after _ =>
          inside_pure _ after
      · exact inside_fail _ state
    · exact inside_fail _ state

theorem inside_pointer (ty : Ty) : Inside tokens 1 (pointer ty) := by
  refine inside_bind inside_peek fun token => inside_bind (inside_accept traceless_star) fun _ => ?_
  split <;> exact inside_pure _

/-- A first pass inside parentheses comes no further than the one outside. -/
theorem inside_scanComponents : Inside tokens 1 scanComponents := by
  intro state
  have scanning : ∃ scan, Passes tokens state.cursor ⟨[], 0⟩
      (stateAfter (iterate scanToken ⟨[], 0⟩ tokens state)).cursor scan := by
    refine stateAfter_iterate
      (Q := fun scan between => Passes tokens state.cursor ⟨[], 0⟩ between.cursor scan) .done
      fun scan between passes => ⟨fun next after run => ?_, fun error after failed => ?_⟩
    · obtain ⟨kind, here, ⟨rfl, _, rfl⟩ | ⟨passed, rfl, step, rfl⟩⟩ := runs_scanToken.mp run
      · exact passes
      · exact passes.trans (.single here step)
    · rw [eq_of_scanToken_error failed]
      exact passes
  obtain ⟨scan, passes⟩ := scanning
  exact insideAt_bind passes.through fun _ after _ => inside_pure _ after

end Parser

end MiniC
