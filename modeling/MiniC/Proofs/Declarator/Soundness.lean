/-
# MiniC.Proofs.Declarator.Soundness — what is read is a declarator of the loose grammar

Whatever is read as a declarator is one of the loose grammar, with the type and the name that the
grammar gives, and ends in front of a token that ends it. `runs_declarator_iff`: so reading succeeds
exactly there.

The two passes are followed together. A component that is read spans tokens that the first pass
goes through as well, and comes out of with that one component noted; what is left of both passes
begins behind it. `Spans.append` puts the spans of the components in a row.
-/
import MiniC.Proofs.Declarator.Completeness
import MiniC.Proofs.Frame

namespace MiniC

set_option autoImplicit false

/-! ## Spans in a row -/

namespace Spans

variable {tokens : Array Token} {visible : String → Option Ty} {start place stop : Nat}

/-- Two declarators without stars, one behind the other, are one over the base of the second. -/
theorem append {base between ty : Ty} {first second : Option DeclaredName}
    (before : Spans tokens visible .loose (.core between ⟨ty, first⟩) start place)
    (behind : Spans tokens visible .loose (.core base ⟨between, second⟩) place stop)
    (once : first = none ∨ second = none) :
    Spans tokens visible .loose (.core base ⟨ty, first.or second⟩) start stop := by
  generalize formed : Form.loose = form at behind
  generalize shape : Phrase.core base ⟨between, second⟩ = phrase at behind
  induction behind generalizing base between second with
  | star | unstarred | last | more => cases shape
  | nothing =>
    cases formed
    cases shape
    rw [Option.or_none]
    exact before
  | name named =>
    cases formed
    cases shape
    obtain rfl : first = none := once.resolve_right nofun
    exact .laterName before named
  | group opening grouping inner closing =>
    cases formed
    cases shape
    exact .laterGroup before opening grouping inner closing once.symm
  | array _ opening counted fits closing ih =>
    cases formed
    cases shape
    exact .array (ih before once rfl rfl) opening counted fits closing
  | emptyList _ opening closing ih =>
    cases formed
    cases shape
    exact .emptyList (ih before once rfl rfl) opening closing
  | list _ opening entries closing ih =>
    cases formed
    cases shape
    exact .list (ih before once rfl rfl) opening entries closing
  | laterName _ named ih =>
    cases shape
    obtain rfl : first = none := once.resolve_right nofun
    exact .laterName (ih before (.inl rfl) rfl rfl) named
  | @laterGroup _ _ _ inside outside _ _ _ _ opening grouping inner closing apart ih =>
    cases shape
    rw [← Option.or_assoc]
    refine .laterGroup (ih before ?_ rfl rfl) opening grouping inner closing ?_
    · cases first <;> cases outside <;> cases inside <;> simp_all
    · cases first <;> cases outside <;> cases inside <;> simp_all
  | stray _ skipped ih =>
    cases shape
    exact .stray (ih before once rfl rfl) skipped

/-- Entries behind a comma follow those in front of it. -/
theorem append_entries {form : Form} {first second : List (Parameter Ty)}
    (before : Spans tokens visible form (.entries first) start place)
    (comma : kindAt tokens place = some (.symbol .comma))
    (behind : Spans tokens visible form (.entries second) (place + 1) stop) :
    Spans tokens visible form (.entries (first ++ second)) start stop := by
  generalize shape : Phrase.entries first = phrase at before
  induction before generalizing first with
  | last typed declares =>
    cases shape
    exact .more typed declares comma behind
  | more typed declares comma' _ _ ih =>
    cases shape
    exact .more typed declares comma' (ih comma behind rfl)
  | _ => cases shape

end Spans

/-- A token that the first pass goes through outside of parentheses is skipped, or is noted and
begins a component. -/
theorem Scan.step_outside {noted : List Nat} {index : Nat} {kind : Kind} {next : Scan}
    (passed : Scan.step ⟨noted, 0⟩ index kind = .pass next) :
    ((kind = .symbol .closeBracket ∨ ∃ value, kind = .integer value) ∧ next = ⟨noted, 0⟩) ∨
      next.components = index :: noted := by
  rcases kind with _ | spelling | value | word | mark
  · cases passed
  · cases passed
    exact .inr rfl
  · cases passed
    exact .inl ⟨.inr ⟨value, rfl⟩, rfl⟩
  · cases passed
  · cases mark <;> cases passed
    · exact .inr rfl
    · exact .inr rfl
    · exact .inl ⟨.inl rfl, rfl⟩

namespace Parser

variable {tokens : Array Token} {inner : Option Ty → Parser Declarator} {state after : State}
  {start place stop : Nat}

/-- What is read around a base, or behind a type name without one, is a declarator. -/
def Found (tokens : Array Token) (base : Option Ty) (state : State) (declared : Declarator)
    (after : State) : Prop :=
  EndsAt tokens after.cursor ∧
    match base with
    | some ty => Spans tokens state.scopes.findType? .loose (.whole ty declared) state.cursor
        after.cursor
    | none => Declares .loose tokens state declared after.cursor

/-- Every declarator that the parser reads is one of the loose grammar. -/
structure ReadsDeclarators (tokens : Array Token) (inner : Option Ty → Parser Declarator) :
    Prop where
  moves : ∀ base, OnlyMoves (inner base)
  found : ∀ {base state declared after}, Runs tokens (inner base) state declared after →
    Found tokens base state declared after

namespace ReadsDeclarators

/-! ## Parameter lists -/

theorem spans_parameter (reads : ReadsDeclarators tokens inner) {read : Parameter Ty}
    (run : Runs tokens (parameter inner) state read after) :
    Spans tokens state.scopes.findType? .loose (.entries [read]) state.cursor after.cursor ∧
      after = { state with cursor := after.cursor } := by
  obtain ⟨declared, _, reading, rfl⟩ := runs_parameter.mp run
  obtain ⟨_, base, typed, spans⟩ := reads.found reading
  exact ⟨.last typed spans, (reads.moves none).of_runs reading⟩

theorem spans_entriesFrom (reads : ReadsDeclarators tokens inner) {read : Array (Parameter Ty)}
    (run : Runs tokens (entriesFrom inner #[]) state read after) :
    Spans tokens state.scopes.findType? .loose (.entries read.toList) state.cursor after.cursor ∧
      after = { state with cursor := after.cursor } := by
  obtain ⟨first, between, reading, further⟩ := runs_bind.mp run
  obtain ⟨last, ⟨spans, moved⟩, turn⟩ := further.iterate_induct
    (Q := fun read between =>
      Spans tokens state.scopes.findType? .loose (.entries read.toList) state.cursor
        between.cursor ∧ between = { state with cursor := between.cursor })
    (reads.spans_parameter reading) fun read next between after ⟨spans, moved⟩ turn => by
      obtain ⟨comma, one, same, reading⟩ | ⟨_, impossible, _⟩ := runs_nextParameter.mp turn
      · cases same
        obtain ⟨later, movedLater⟩ := reads.spans_parameter reading
        rw [moved] at later
        refine ⟨?_, ?_⟩
        · rw [Array.toList_push]
          exact spans.append_entries comma later
        · rw [movedLater, moved]
      · cases impossible
  obtain ⟨_, _, impossible, _⟩ | ⟨_, _, rfl⟩ := runs_nextParameter.mp turn
  · cases impossible
  · exact ⟨spans, moved⟩

/-! ## Components -/

/-- A component that is read spans tokens, and the first pass notes it and goes through them. -/
theorem spans_component (reads : ReadsDeclarators tokens inner) {built result : Declarator}
    (run : Runs tokens (component inner built place) state result after) :
    ∃ stop name, place < stop ∧
      Spans tokens state.scopes.findType? .loose (.core built.ty ⟨result.ty, name⟩) place stop ∧
      (∀ noted, Passes tokens place ⟨noted, 0⟩ stop ⟨place :: noted, 0⟩) ∧
      (name = none ∨ built.name = none) ∧ result.name = built.name.or name := by
  obtain ⟨opening, ty, reading, rfl⟩ | ⟨opening, visit⟩ | ⟨spelling, named, free, rfl, _⟩ :=
    runs_component.mp run
  · obtain ⟨length, opened, counted, fits, closing, rfl, _⟩ := runs_arraySuffix.mp reading
    refine ⟨place + 3, none, by omega, .array .nothing opened counted fits closing,
      fun _ => .array opened counted closing, .inl rfl, ?_⟩
    rw [Option.or_none]
  · obtain ⟨list, parameters, reading, rfl⟩ |
      ⟨_, grouping, group, between, reading, closing, _, once, rfl⟩ :=
      (runs_parenthesized opening).mp visit
    · obtain ⟨closing, rfl, _⟩ | ⟨_, between, entries, closing, _⟩ := runs_parameterList.mp reading
      · refine ⟨place + 2, none, by omega, .emptyList .nothing opening closing,
          fun _ => .parenthesized opening (fun _ _ => .done) closing, .inl rfl, ?_⟩
        rw [Option.or_none]
      · have spans : Spans tokens state.scopes.findType? .loose (.entries parameters) (place + 1)
            between.cursor := (reads.spans_entriesFrom entries).1
        have inside := spans.le
        refine ⟨between.cursor + 1, none, by omega, .list .nothing opening spans closing,
          fun _ => .parenthesized opening (fun _ deep => spans.passes deep) closing, .inl rfl, ?_⟩
        rw [Option.or_none]
    · have spans : Spans tokens state.scopes.findType? .loose (.whole built.ty group) (place + 1)
          between.cursor := (reads.found reading).2
      have inside := spans.le
      refine ⟨between.cursor + 1, group.name, ?_, .group opening grouping spans closing,
        fun _ => .parenthesized opening (fun _ deep => spans.passes deep) closing, once, rfl⟩
      omega
  · refine ⟨place + 1, _, by omega, .name named, fun _ => .name named, .inr free, ?_⟩
    rw [free, Option.none_or]

/-! ## The two passes together -/

/-- What the first pass goes through outside of parentheses and the second takes apart is a
declarator without a star, and the first has closed what it opened. The induction follows the first
pass, component by component. -/
theorem spans_visits (reads : ReadsDeclarators tokens inner) {noted components : List Nat}
    {final : Scan} {base : Ty} {already : Option DeclaredName} {declared : Declarator}
    (passes : Passes tokens start ⟨noted, 0⟩ stop final) (stops : StopsAt tokens stop final)
    (found : final.components = components ++ noted)
    (run : Runs tokens (components.foldlM (component inner) ⟨base, already⟩) state declared after) :
    ∃ name, Spans tokens state.scopes.findType? .loose (.core base ⟨declared.ty, name⟩) start stop ∧
      (name = none ∨ already = none) ∧ declared.name = already.or name ∧ final.depth = 0 := by
  induction bound : stop - start using Nat.strongRecOn
    generalizing start noted components declared after with
  | ind bound ih =>
    subst bound
    cases passes with
    | done =>
      obtain rfl : components = [] := by simpa using found
      obtain ⟨rfl, rfl⟩ := runs_pure.mp run
      exact ⟨none, .nothing, .inl rfl, (Option.or_none).symm, rfl⟩
    | @step _ _ _ next _ kind here passed rest =>
      have further := rest.le
      rcases Scan.step_outside passed with ⟨skipped, rfl⟩ | begins
      · obtain ⟨name, spans, apart, named, closed⟩ :=
          ih (stop - (start + 1)) (by omega) rest found run rfl
        have stray : Spans tokens state.scopes.findType? .loose
            (.core declared.ty ⟨declared.ty, none⟩) start (start + 1) := by
          refine .stray .nothing ?_
          rcases skipped with rfl | ⟨value, rfl⟩
          · exact .inl here
          · exact .inr ⟨value, here⟩
        exact ⟨name, stray.append spans (.inl rfl), apart, named, closed⟩
      · -- The component that begins here is the last one that is visited.
        obtain ⟨later, same⟩ := rest.exists_append
        have split : components = later ++ [start] := by
          rw [found, begins, ← List.singleton_append, ← List.append_assoc] at same
          exact List.append_cancel_right same
        rw [split, List.foldlM_append] at run
        obtain ⟨built, between, visited, visit⟩ := runs_bind.mp run
        rw [List.foldlM_cons] at visit
        obtain ⟨result, _, one, done⟩ := runs_bind.mp visit
        obtain ⟨rfl, rfl⟩ := runs_pure.mp done
        obtain ⟨behind, name, longer, spans, through, apart, named⟩ := reads.spans_component one
        have remaining := Passes.rest (.step here passed rest) stops (through noted)
        have inside := remaining.le
        obtain ⟨further, others, apart', named', closed⟩ :=
          ih (stop - behind) (by omega) remaining (by rw [same, begins]) visited rfl
        have moved : between = { state with cursor := between.cursor } :=
          (onlyMoves_foldlM (onlyMoves_component reads.moves) later _).of_runs visited
        rw [moved] at spans
        rw [named'] at apart named
        obtain ⟨once, free⟩ := apart_or_iff.mpr ⟨apart'.symm, apart.symm⟩
        refine ⟨name.or further, spans.append others once, free.symm, ?_, closed⟩
        rw [named, Option.or_assoc, or_comm_of_apart once]

/-! ## Declarators -/

/-- The stars in front of a declarator belong to it. -/
theorem spans_stars {base ty : Ty} {declared : Declarator}
    (run : Runs tokens (iterate pointer base) state ty after)
    (spans : Spans tokens state.scopes.findType? .loose (.whole ty declared) after.cursor stop) :
    Spans tokens state.scopes.findType? .loose (.whole base declared) state.cursor stop := by
  obtain ⟨last, ⟨starred, _⟩, turn⟩ := run.iterate_induct
    (Q := fun ty between =>
      (∀ {declared stop},
        Spans tokens state.scopes.findType? .loose (.whole ty declared) between.cursor stop →
        Spans tokens state.scopes.findType? .loose (.whole base declared) state.cursor stop) ∧
      between = { state with cursor := between.cursor })
    ⟨id, rfl⟩ fun ty next between after ⟨starred, moved⟩ turn => by
      obtain ⟨star, same, rfl⟩ | ⟨_, impossible, _⟩ := runs_pointer.mp turn
      · cases same
        refine ⟨fun spans => starred (.star star spans), ?_⟩
        rw [moved]
      · cases impossible
  obtain ⟨_, impossible, _⟩ | ⟨_, _, rfl⟩ := runs_pointer.mp turn
  · cases impossible
  · exact starred spans

theorem found_declaratorStep (reads : ReadsDeclarators tokens inner) {base : Option Ty}
    {declared : Declarator} (run : Runs tokens (declaratorStep inner base) state declared after) :
    Found tokens base state declared after := by
  obtain ⟨ty, named, first, pointed, starred, stars, components, scanned, scan, visited, visits,
    rfl⟩ := runs_declaratorStep.mp run
  have movedStarred := (onlyMoves_iterate onlyMoves_pointer ty).of_runs stars
  obtain ⟨depth, passes, stops, movedScanned⟩ := passes_of_runs scan
  obtain ⟨name, core, _, same, closed⟩ :=
    reads.spans_visits passes stops (List.append_nil _).symm visits
  obtain rfl : depth = 0 := closed
  have whole : Spans tokens named.scopes.findType? .loose (.whole ty declared) named.cursor
      scanned.cursor := by
    rw [movedScanned, movedStarred] at core
    rw [Option.none_or] at same
    refine spans_stars stars (.unstarred ?_)
    rw [← same] at core
    exact core
  refine ⟨stopsAt_iff.mp stops, ?_⟩
  cases base with
  | some base =>
    obtain ⟨rfl, rfl⟩ := runs_pure.mp first
    exact whole
  | none =>
    obtain ⟨typed, rfl⟩ := runs_typeName.mp first
    exact ⟨ty, typed, whole⟩

end ReadsDeclarators

theorem found_declaratorAround {base : Option Ty} {declared : Declarator}
    (run : Runs tokens (declaratorAround base) state declared after) :
    Found tokens base state declared after :=
  run.recurse_induct (P := Found tokens) fun bound found _ _ _ _ run =>
    ReadsDeclarators.found_declaratorStep
      ⟨onlyMoves_nested onlyMoves_declaratorStep bound, fun run => found _ _ _ _ run⟩ run

/-- A declarator is read exactly where the tokens up to one that ends it are a declarator of the
loose grammar. -/
theorem runs_declarator_iff {declared : Declarator} :
    Runs tokens declarator state declared after ↔
      Declares .loose tokens state declared after.cursor ∧ EndsAt tokens after.cursor ∧
        after = { state with cursor := after.cursor } := by
  constructor
  · intro run
    obtain ⟨ends, declares⟩ := found_declaratorAround run
    exact ⟨declares, ends, onlyMoves_declarator.of_runs run⟩
  · rintro ⟨declares, ends, moved⟩
    rw [moved]
    exact runs_declarator declares ends

end Parser

end MiniC
