/-
# MiniC.Proofs.Declarator.Scan — the first pass over a declarator

`Passes tokens start scan stop final` says that the first pass goes from one token to another and
takes a scan to another on the way. What a declarator spans inside parentheses is passed without a
trace: `Spans.passes`.

* `runs_scanComponents` — the pass yields what it has noted where it comes to an end.
* `Passes.of_runs` — and it has come there through its tokens only.
* `Passes.rest` — a pass is determined by where it begins.
-/
import MiniC.Parser.Progress.Declarator
import MiniC.Proofs.Declarator.Grammar
import MiniC.Proofs.Success

namespace MiniC

set_option autoImplicit false

/-- The first pass goes from one token to another, and from one scan to another. -/
inductive Passes (tokens : Array Token) : (start : Nat) → Scan → (stop : Nat) → Scan → Prop
  | done {index : Nat} {scan : Scan} : Passes tokens index scan index scan
  | step {start stop : Nat} {scan next final : Scan} {kind : Kind}
      (here : kindAt tokens start = some kind) (passed : scan.step start kind = .pass next)
      (rest : Passes tokens (start + 1) next stop final) : Passes tokens start scan stop final

/-- The first pass ends at the token. -/
def StopsAt (tokens : Array Token) (stop : Nat) (scan : Scan) : Prop :=
  ∃ kind, kindAt tokens stop = some kind ∧ scan.step stop kind = .stop

namespace Passes

variable {tokens : Array Token} {start middle stop : Nat} {scan between final : Scan}

theorem trans (before : Passes tokens start scan middle between)
    (behind : Passes tokens middle between stop final) : Passes tokens start scan stop final := by
  induction before with
  | done => exact behind
  | step here passed _ ih => exact .step here passed (ih behind)

theorem single {kind : Kind} (here : kindAt tokens start = some kind)
    (passed : scan.step start kind = .pass final) : Passes tokens start scan (start + 1) final :=
  .step here passed .done

theorem le (passes : Passes tokens start scan stop final) : start ≤ stop := by
  induction passes with
  | done => exact Nat.le_refl _
  | step _ _ _ ih => omega

/-- A pass that has come to its end has come through every token that it can pass. -/
theorem rest (passes : Passes tokens start scan stop final) (stops : StopsAt tokens stop final)
    (part : Passes tokens start scan middle between) :
    Passes tokens middle between stop final := by
  induction part with
  | done => exact passes
  | step here passed _ ih =>
    cases passes with
    | done =>
      obtain ⟨kind, found, stopped⟩ := stops
      rw [here, Option.some.injEq] at found
      rw [← found, passed] at stopped
      cases stopped
    | step here' passed' rest =>
      rw [here, Option.some.injEq] at here'
      rw [← here', passed, ScanStep.pass.injEq] at passed'
      subst passed'
      exact ih rest

end Passes

/-! ## Single tokens -/

namespace Scan

variable {scan : Scan} {index : Nat} {kind : Kind}

/-- Noting leaves the depth. -/
theorem note_with_depth (scan : Scan) (index : Nat) :
    { scan.note index with depth := scan.depth } = scan.note index := by
  unfold note
  split <;> rfl

theorem note_components (scan : Scan) (index : Nat) :
    (scan.note index).components = scan.components ∨
      (scan.note index).components = index :: scan.components := by
  unfold note
  split
  · exact .inr rfl
  · exact .inl rfl

/-- What passing a token does to a scan: parentheses open and close, what a component may begin with
is noted, and everything else leaves the scan. -/
theorem pass_cases {next : Scan} (passed : scan.step index kind = .pass next) :
    kind = .symbol .openParen ∧ next = { scan.note index with depth := scan.depth + 1 } ∨
    kind = .symbol .closeParen ∧ 0 < scan.depth ∧ next = { scan with depth := scan.depth - 1 } ∨
    ((∃ spelling, kind = .name spelling) ∨ kind = .symbol .openBracket) ∧ next = scan.note index ∨
    (kind ≠ .symbol .openParen ∧ kind ≠ .symbol .closeParen) ∧ next = scan := by
  have left {deep : ScanStep} (parens : kind ≠ .symbol .openParen ∧ kind ≠ .symbol .closeParen)
      (inside : (if scan.depth = 0 then deep else .pass scan) = .pass next)
      (outside : deep ≠ .pass next) :
      (kind ≠ .symbol .openParen ∧ kind ≠ .symbol .closeParen) ∧ next = scan := by
    split at inside
    · exact absurd inside outside
    · cases inside
      exact ⟨parens, rfl⟩
  unfold step at passed
  split at passed
  case h_1 | h_2 | h_3 => cases passed
  case h_4 =>
    cases passed
    exact .inl ⟨rfl, rfl⟩
  case h_5 =>
    split at passed
    · cases passed
    · next deep =>
      cases passed
      exact .inr (.inl ⟨rfl, Nat.pos_of_ne_zero deep, rfl⟩)
  case h_6 | h_7 => exact .inr (.inr (.inr (left (by decide) passed nofun)))
  case h_8 spelling =>
    cases passed
    exact .inr (.inr (.inl ⟨.inl ⟨spelling, rfl⟩, rfl⟩))
  case h_9 =>
    cases passed
    exact .inr (.inr (.inl ⟨.inr rfl, rfl⟩))
  case h_10 | h_11 =>
    cases passed
    exact .inr (.inr (.inr ⟨⟨nofun, nofun⟩, rfl⟩))
  case h_12 =>
    refine .inr (.inr (.inr (left ⟨?_, ?_⟩ passed nofun))) <;> rintro rfl <;> contradiction

/-- What is noted is put in front of what was noted before. -/
theorem components_step {next : Scan} (passed : scan.step index kind = .pass next) :
    next.components = scan.components ∨ next.components = index :: scan.components := by
  rcases pass_cases passed with ⟨-, rfl⟩ | ⟨-, -, rfl⟩ | ⟨-, rfl⟩ | ⟨-, rfl⟩
  · exact note_components scan index
  · exact .inl rfl
  · exact note_components scan index
  · exact .inl rfl

/-- Outside of parentheses the pass ends where a declarator ends. -/
theorem step_eq_stop_iff {components : List Nat} :
    step ⟨components, 0⟩ index kind = .stop ↔ kind.endsDeclarator := by
  rcases kind with _ | spelling | value | word | mark
  · simp [step, Kind.endsDeclarator]
  · simp [step, Kind.endsDeclarator]
  · simp [step, Kind.endsDeclarator]
  · simp [step, Kind.endsDeclarator]
  · cases mark <;> simp [step, Kind.endsDeclarator]

end Scan

theorem stopsAt_iff {tokens : Array Token} {stop : Nat} {components : List Nat} :
    StopsAt tokens stop ⟨components, 0⟩ ↔ EndsAt tokens stop := by
  simp only [StopsAt, EndsAt, Scan.step_eq_stop_iff]

theorem Passes.exists_append {tokens : Array Token} {start stop : Nat} {scan final : Scan}
    (passes : Passes tokens start scan stop final) :
    ∃ found, final.components = found ++ scan.components := by
  induction passes with
  | done => exact ⟨[], rfl⟩
  | @step start _ _ _ _ _ _ passed _ ih =>
    obtain ⟨found, same⟩ := ih
    rcases Scan.components_step passed with kept | noted
    · exact ⟨found, by rw [same, kept]⟩
    · exact ⟨found ++ [start], by rw [same, noted, List.append_assoc, List.singleton_append]⟩

/-! ## Components -/

namespace Passes

variable {tokens : Array Token} {index : Nat} {scan : Scan}

theorem name {spelling : String} (here : kindAt tokens index = some (.name spelling)) :
    Passes tokens index scan (index + 1) (scan.note index) :=
  .single here rfl

theorem skipped (here : kindAt tokens index = some (.symbol .closeBracket) ∨
    ∃ value, kindAt tokens index = some (.integer value)) :
    Passes tokens index scan (index + 1) scan := by
  rcases here with here | ⟨value, here⟩
  · exact .single here rfl
  · exact .single here rfl

theorem array {length : Nat} (opening : kindAt tokens index = some (.symbol .openBracket))
    (counted : kindAt tokens (index + 1) = some (.integer length))
    (closing : kindAt tokens (index + 2) = some (.symbol .closeBracket)) :
    Passes tokens index scan (index + 3) (scan.note index) :=
  .step opening rfl (.step counted rfl (.single closing rfl))

/-- A parenthesis is noted and what stands in it is not. -/
theorem parenthesized {closing : Nat} (opened : kindAt tokens index = some (.symbol .openParen))
    (inside : ∀ inner : Scan, 0 < inner.depth → Passes tokens (index + 1) inner closing inner)
    (closed : kindAt tokens closing = some (.symbol .closeParen)) :
    Passes tokens index scan (closing + 1) (scan.note index) := by
  rw [← scan.note_with_depth index]
  exact .step opened rfl ((inside _ (Nat.succ_pos _)).trans (.single closed rfl))

/-- Inside parentheses nothing is noted. -/
theorem unnoted {start stop : Nat} (passes : Passes tokens start scan stop (scan.note index))
    (deep : 0 < scan.depth) : Passes tokens start scan stop scan := by
  rwa [Scan.note, if_neg (Nat.ne_of_gt deep)] at passes

end Passes

/-- Inside parentheses a phrase is passed without a trace. -/
theorem Spans.passes {tokens : Array Token} {visible : String → Option Ty} {form : Form}
    {phrase : Phrase} {start stop : Nat} (spans : Spans tokens visible form phrase start stop)
    {scan : Scan} (deep : 0 < scan.depth) : Passes tokens start scan stop scan := by
  induction spans generalizing scan with
  | nothing => exact .done
  | star star _ ih =>
    refine .step star ?_ (ih deep)
    simp [Scan.step, Nat.ne_of_gt deep]
  | unstarred _ ih => exact ih deep
  | name named => exact (Passes.name named).unnoted deep
  | group opening _ _ closing ih =>
    exact (Passes.parenthesized opening (fun _ deep => ih deep) closing).unnoted deep
  | array _ opening counted _ closing ih =>
    exact (ih deep).trans ((Passes.array opening counted closing).unnoted deep)
  | emptyList _ opening closing ih =>
    exact (ih deep).trans
      ((Passes.parenthesized opening (fun _ _ => .done) closing).unnoted deep)
  | list _ opening _ closing ih inside =>
    exact (ih deep).trans
      ((Passes.parenthesized opening (fun _ deep => inside deep) closing).unnoted deep)
  | laterName _ named ih => exact (ih deep).trans ((Passes.name named).unnoted deep)
  | laterGroup _ opening _ _ closing _ ih inside =>
    exact (ih deep).trans
      ((Passes.parenthesized opening (fun _ deep => inside deep) closing).unnoted deep)
  | stray _ skipped ih => exact (ih deep).trans (.skipped skipped)
  | last typed _ ih =>
    obtain ⟨spelling, named, _⟩ := typed
    exact ((Passes.name named).unnoted deep).trans (ih deep)
  | more typed _ comma _ ih others =>
    obtain ⟨spelling, named, _⟩ := typed
    refine (((Passes.name named).unnoted deep).trans (ih deep)).trans (.step comma ?_ (others deep))
    simp [Scan.step, Nat.ne_of_gt deep]

/-! ## Running the pass -/

namespace Parser

variable {tokens : Array Token} {state : State} {start stop : Nat} {scan final : Scan}

/-- One token of the pass. -/
theorem runs_scanToken {next : Option Scan} {after : State} :
    Runs tokens (scanToken scan) state next after ↔
      ∃ kind, kindAt tokens state.cursor = some kind ∧
        (next = none ∧ scan.step state.cursor kind = .stop ∧ after = state ∨
          ∃ passed, next = some passed ∧ scan.step state.cursor kind = .pass passed ∧
            after = { state with cursor := state.cursor + 1 }) := by
  -- The end of the file is not passed, so that a token that is passed moves the cursor.
  have more : ∀ {kind : Kind} {passed : Scan}, kindAt tokens state.cursor = some kind →
      scan.step state.cursor kind = .pass passed →
      kindAt tokens state.cursor ≠ some .endOfFile := by
    rintro kind passed here step ended
    rw [here, Option.some.injEq] at ended
    rw [ended] at step
    cases step
  simp only [scanToken, runs_bind, runs_peek, runs_cursor]
  constructor
  · rintro ⟨token, _, ⟨here, rfl⟩, _, _, ⟨rfl, rfl⟩, run⟩
    have kind := kindAt_of_getElem? here
    refine ⟨token.kind, kind, ?_⟩
    split at run
    · next stopped =>
      obtain ⟨rfl, rfl⟩ := runs_pure.mp run
      exact .inl ⟨rfl, stopped, rfl⟩
    · exact absurd run not_runs_fail
    · next passed step =>
      obtain ⟨_, _, passing, done⟩ := runs_bind.mp run
      obtain ⟨rfl, rfl⟩ := runs_pure.mp done
      obtain ⟨_, rfl⟩ := (runs_advance (more kind step)).mp passing
      exact .inr ⟨passed, rfl, step, rfl⟩
  · rintro ⟨kind, found, turn⟩
    obtain ⟨token, here, rfl, _⟩ := kindAt_eq_some found
    refine ⟨token, state, ⟨here, rfl⟩, state.cursor, state, ⟨rfl, rfl⟩, ?_⟩
    rcases turn with ⟨rfl, stopped, rfl⟩ | ⟨passed, rfl, step, rfl⟩
    · rw [stopped]
      rfl
    · rw [step]
      exact runs_bind.mpr ⟨token, _, (runs_advance (more found step)).mpr ⟨here, rfl⟩, rfl⟩

theorem advancing_scanToken : Advancing scanToken := by
  intro scan next tokens state after within run
  obtain ⟨kind, here, ⟨impossible, _⟩ | ⟨passed, _, _, rfl⟩⟩ := runs_scanToken.mp run
  · cases impossible
  · exact ⟨Nat.lt_succ_self _, lt_size_of_kindAt here⟩

/-- The pass goes on from where it has come to. -/
theorem iterate_scanToken_eq (passes : Passes tokens start scan stop final) :
    iterate scanToken scan tokens { state with cursor := start } =
      iterate scanToken final tokens { state with cursor := stop } := by
  induction passes with
  | done => rfl
  | @step start stop scan next final kind here passed rest ih =>
    have turn : scanToken scan tokens { state with cursor := start } =
        .ok (some next) { state with cursor := start + 1 } :=
      runs_scanToken.mpr ⟨kind, here, .inr ⟨next, rfl, passed, rfl⟩⟩
    rw [iterate_eq advancing_scanToken scan (Nat.le_of_lt (lt_size_of_kindAt here)), turn]
    exact ih

/-- The pass yields what it has noted where it ends. -/
theorem runs_scanComponents {components : List Nat}
    (passes : Passes tokens start ⟨[], 0⟩ stop ⟨components, 0⟩) (ends : EndsAt tokens stop) :
    Runs tokens scanComponents { state with cursor := start } components
      { state with cursor := stop } := by
  obtain ⟨kind, here, stopped⟩ := stopsAt_iff.mpr ends
  have turn : scanToken ⟨components, 0⟩ tokens { state with cursor := stop } =
      .ok none { state with cursor := stop } :=
    runs_scanToken.mpr ⟨kind, here, .inl ⟨rfl, stopped, rfl⟩⟩
  refine runs_bind.mpr ⟨⟨components, 0⟩, { state with cursor := stop }, ?_, rfl⟩
  rw [Runs, iterate_scanToken_eq passes,
    iterate_eq advancing_scanToken _ (Nat.le_of_lt (lt_size_of_kindAt here)), turn]

/-- Where the pass succeeds, it has gone through tokens that it passes up to one where it ends. -/
theorem passes_of_runs {components : List Nat} {after : State}
    (run : Runs tokens scanComponents state components after) :
    ∃ depth, Passes tokens state.cursor ⟨[], 0⟩ after.cursor ⟨components, depth⟩ ∧
      StopsAt tokens after.cursor ⟨components, depth⟩ ∧
      after = { state with cursor := after.cursor } := by
  obtain ⟨final, _, repeated, done⟩ := runs_bind.mp run
  obtain ⟨rfl, rfl⟩ := runs_pure.mp done
  obtain ⟨last, ⟨passes, moved⟩, turn⟩ := repeated.iterate_induct
    (Q := fun scan between => Passes tokens state.cursor ⟨[], 0⟩ between.cursor scan ∧
      between = { state with cursor := between.cursor }) ⟨.done, rfl⟩
    fun scan next between after ⟨passes, moved⟩ turn => by
      obtain ⟨kind, here, ⟨impossible, _⟩ | ⟨passed, same, step, rfl⟩⟩ := runs_scanToken.mp turn
      · cases impossible
      · cases same
        refine ⟨passes.trans (.single here step), ?_⟩
        rw [moved]
  obtain ⟨kind, here, ⟨_, stopped, rfl⟩ | ⟨passed, impossible, _⟩⟩ := runs_scanToken.mp turn
  · exact ⟨final.depth, passes, ⟨kind, here, stopped⟩, moved⟩
  · cases impossible

end Parser

end MiniC
