/-
# MiniC.Proofs.Declarator.Component — what reading one part of a declarator takes

For each function that reads a part of a declarator, what stands at the cursor where it succeeds,
what it makes of that and where it leaves the cursor. Both directions are used: from the tokens to
the run and from the run to the tokens.
-/
import MiniC.Proofs.Declarator.Grammar
import MiniC.Proofs.Success

namespace MiniC.Parser

set_option autoImplicit false

variable {tokens : Array Token} {state after : State}

/-! ## Single tokens -/

/-- Whether the cursor stands at the name of a type. -/
theorem runs_isTypeName {found : Bool} :
    Runs tokens isTypeName state found after ↔
      (kindAt tokens state.cursor).isSome ∧
        (found = true ↔ ∃ ty, NamesType tokens state.scopes.findType? state.cursor ty) ∧
        state = after := by
  simp only [isTypeName, runs_bind, runs_peek]
  constructor
  · rintro ⟨token, _, ⟨here, rfl⟩, run⟩
    have kind := kindAt_of_getElem? here
    split at run
    · next spelling named =>
      obtain ⟨_, _, sought, done⟩ := runs_bind.mp run
      obtain ⟨rfl, rfl⟩ := runs_findType?.mp sought
      obtain ⟨rfl, rfl⟩ := runs_pure.mp done
      simp [NamesType, kind, named, Option.isSome_iff_exists]
    · next other =>
      obtain ⟨rfl, rfl⟩ := runs_pure.mp run
      refine ⟨by simp [kind], ?_, rfl⟩
      simp only [Bool.false_eq_true, false_iff]
      rintro ⟨ty, spelling, named, _⟩
      rw [kind, Option.some.injEq] at named
      exact other spelling named
  · rintro ⟨present, same, rfl⟩
    obtain ⟨kind, here⟩ := Option.isSome_iff_exists.mp present
    obtain ⟨token, there, rfl, _⟩ := kindAt_eq_some here
    refine ⟨token, state, ⟨there, rfl⟩, ?_⟩
    split
    · next spelling named =>
      refine runs_bind.mpr ⟨_, _, rfl, runs_pure.mpr ⟨?_, rfl⟩⟩
      rw [Bool.eq_iff_iff, same]
      simp [NamesType, here, named, Option.isSome_iff_exists]
    · next other =>
      refine runs_pure.mpr ⟨?_, rfl⟩
      rw [eq_comm, ← Bool.not_eq_true, same]
      rintro ⟨ty, spelling, named, _⟩
      rw [here, Option.some.injEq] at named
      exact other spelling named

/-- The name of a type is passed. -/
theorem runs_typeName {ty : Ty} :
    Runs tokens typeName state ty after ↔
      NamesType tokens state.scopes.findType? state.cursor ty ∧
        after = { state with cursor := state.cursor + 1 } := by
  simp only [typeName, runs_bind, runs_peek]
  constructor
  · rintro ⟨token, _, ⟨here, rfl⟩, run⟩
    split at run
    · next spelling named =>
      obtain ⟨_, _, sought, run⟩ := runs_bind.mp run
      obtain ⟨known, rfl⟩ := runs_findType?.mp sought
      split at run
      · obtain ⟨_, _, passing, done⟩ := runs_bind.mp run
        obtain ⟨rfl, rfl⟩ := runs_pure.mp done
        have kind : kindAt tokens state.cursor = some (.name spelling) := by
          rw [kindAt_of_getElem? here, named]
        obtain ⟨_, rfl⟩ := (runs_advance (by simp [kind])).mp passing
        exact ⟨⟨spelling, kind, known⟩, rfl⟩
      · exact absurd run not_runs_fail
    · exact absurd run not_runs_fail
  · rintro ⟨⟨spelling, found, known⟩, rfl⟩
    obtain ⟨token, here, named, _⟩ := kindAt_eq_some found
    refine ⟨token, state, ⟨here, rfl⟩, ?_⟩
    rw [named]
    refine runs_bind.mpr ⟨some ty, state, runs_findType?.mpr ⟨known, rfl⟩, ?_⟩
    exact runs_bind.mpr ⟨token, _, (runs_advance (by simp [found])).mpr ⟨here, rfl⟩, rfl⟩

/-- A pointer is made at a star only. -/
theorem runs_pointer {ty : Ty} {next : Option Ty} :
    Runs tokens (pointer ty) state next after ↔
      kindAt tokens state.cursor = some (.symbol .star) ∧
          next = some (.pointer ⟨.site (placeAt tokens state.cursor), none⟩ ty) ∧
          after = { state with cursor := state.cursor + 1 } ∨
        (∃ kind, kindAt tokens state.cursor = some kind ∧ kind ≠ .symbol .star) ∧
          next = none ∧ after = state := by
  simp only [pointer, runs_bind, runs_peek, runs_accept]
  constructor
  · rintro ⟨token, _, ⟨here, rfl⟩, _, _, ⟨rfl, star, rfl⟩ | ⟨rfl, other, rfl⟩, run⟩
    · obtain ⟨rfl, rfl⟩ := runs_pure.mp run
      rw [placeAt_of_getElem? here]
      exact .inl ⟨star, rfl, rfl⟩
    · obtain ⟨rfl, rfl⟩ := runs_pure.mp run
      exact .inr ⟨other, rfl, rfl⟩
  · rintro (⟨star, rfl, rfl⟩ | ⟨⟨kind, found, other⟩, rfl, rfl⟩)
    · obtain ⟨token, here, _, place⟩ := kindAt_eq_some star
      refine ⟨token, state, ⟨here, rfl⟩, true, _, .inl ⟨rfl, star, rfl⟩, ?_⟩
      rw [← place]
      rfl
    · obtain ⟨token, here, _⟩ := kindAt_eq_some found
      exact ⟨token, _, ⟨here, rfl⟩, false, _, .inr ⟨rfl, ⟨kind, found, other⟩, rfl⟩, rfl⟩

/-! ## Components -/

/-- A suffix `[N]` is passed. -/
theorem runs_arraySuffix {element ty : Ty} :
    Runs tokens (arraySuffix element) state ty after ↔
      ∃ length, kindAt tokens state.cursor = some (.symbol .openBracket) ∧
        kindAt tokens (state.cursor + 1) = some (.integer length) ∧ length < UInt64.size ∧
        kindAt tokens (state.cursor + 2) = some (.symbol .closeBracket) ∧
        ty = .array ⟨.site (placeAt tokens state.cursor), none⟩ element (UInt64.ofNat length) ∧
        after = { state with cursor := state.cursor + 3 } := by
  simp only [arraySuffix, runs_bind, runs_peek, runs_expect]
  constructor
  · rintro ⟨opening, _, ⟨here, rfl⟩, _, _, ⟨opened, rfl⟩, token, _, ⟨there, rfl⟩, run⟩
    split at run
    · next length counted =>
      split at run
      · next fits =>
        have kind : kindAt tokens (state.cursor + 1) = some (.integer length) := by
          rw [kindAt_of_getElem? there, counted]
        obtain ⟨_, _, passing, run⟩ := runs_bind.mp run
        obtain ⟨_, rfl⟩ := (runs_advance (by simp [kind])).mp passing
        obtain ⟨_, _, closing, done⟩ := runs_bind.mp run
        obtain ⟨closed, rfl⟩ := runs_expect.mp closing
        obtain ⟨rfl, rfl⟩ := runs_pure.mp done
        refine ⟨length, opened, kind, fits, closed, ?_, rfl⟩
        rw [placeAt_of_getElem? here]
      · exact absurd run not_runs_fail
    · exact absurd run not_runs_fail
  · rintro ⟨length, opened, found, fits, closed, rfl, rfl⟩
    obtain ⟨opening, here, _, place⟩ := kindAt_eq_some opened
    obtain ⟨token, there, counted, _⟩ := kindAt_eq_some found
    refine ⟨opening, state, ⟨here, rfl⟩, (), _, ⟨opened, rfl⟩, token, _, ⟨there, rfl⟩, ?_⟩
    rw [counted]
    simp only [if_pos fits]
    refine runs_bind.mpr ⟨token, { state with cursor := state.cursor + 2 }, ?_, ?_⟩
    · exact (runs_advance (by simp [found])).mpr ⟨there, rfl⟩
    · refine runs_bind.mpr ⟨(), { state with cursor := state.cursor + 3 }, ?_, ?_⟩
      · exact runs_expect.mpr ⟨closed, rfl⟩
      · rw [← place]
        rfl

variable {inner : Option Ty → Parser Declarator}

/-- An entry of a parameter list is a declarator behind the name of a type. -/
theorem runs_parameter {read : Parameter Ty} :
    Runs tokens (parameter inner) state read after ↔
      ∃ declared, (kindAt tokens state.cursor).isSome ∧
        Runs tokens (inner none) state declared after ∧
        read = declared.toParameter (placeAt tokens state.cursor) := by
  simp only [parameter, runs_bind, runs_peek, runs_pure]
  constructor
  · rintro ⟨first, _, ⟨here, rfl⟩, declared, _, run, rfl, rfl⟩
    refine ⟨declared, by simp [kindAt, here], run, ?_⟩
    rw [placeAt_of_getElem? here, Declarator.toParameter]
  · rintro ⟨declared, present, run, rfl⟩
    obtain ⟨kind, found⟩ := Option.isSome_iff_exists.mp present
    obtain ⟨first, here, _, place⟩ := kindAt_eq_some found
    refine ⟨first, state, ⟨here, rfl⟩, declared, after, run, ?_, rfl⟩
    rw [← place, Declarator.toParameter]

/-- A further entry stands behind a comma. -/
theorem runs_nextParameter {read : Array (Parameter Ty)} {next : Option (Array (Parameter Ty))} :
    Runs tokens (nextParameter inner read) state next after ↔
      (kindAt tokens state.cursor = some (.symbol .comma) ∧
          ∃ one, next = some (read.push one) ∧ Runs tokens (parameter inner)
            { state with cursor := state.cursor + 1 } one after) ∨
        (∃ kind, kindAt tokens state.cursor = some kind ∧ kind ≠ .symbol .comma) ∧
          next = none ∧ after = state := by
  simp only [nextParameter, runs_bind, runs_accept]
  constructor
  · rintro ⟨_, _, ⟨rfl, comma, rfl⟩ | ⟨rfl, other, rfl⟩, run⟩
    · obtain ⟨one, _, reading, done⟩ := runs_bind.mp run
      obtain ⟨rfl, rfl⟩ := runs_pure.mp done
      exact .inl ⟨comma, one, rfl, reading⟩
    · obtain ⟨rfl, rfl⟩ := runs_pure.mp run
      exact .inr ⟨other, rfl, rfl⟩
  · rintro (⟨comma, one, rfl, reading⟩ | ⟨other, rfl, rfl⟩)
    · exact ⟨true, _, .inl ⟨rfl, comma, rfl⟩, runs_bind.mpr ⟨one, after, reading, rfl⟩⟩
    · exact ⟨false, _, .inr ⟨rfl, other, rfl⟩, rfl⟩

/-- The entries of a parameter list that is not empty, after those that are read. -/
def entriesFrom (inner : Option Ty → Parser Declarator) (read : Array (Parameter Ty)) :
    Parser (Array (Parameter Ty)) := do
  iterate (nextParameter inner) (read.push (← parameter inner))

/-- A parameter list is closed at once or behind its entries. -/
theorem runs_parameterList {parameters : List (Parameter Ty)} :
    Runs tokens (parameterList inner) state parameters after ↔
      kindAt tokens state.cursor = some (.symbol .closeParen) ∧ parameters = [] ∧
          after = { state with cursor := state.cursor + 1 } ∨
        (∃ kind, kindAt tokens state.cursor = some kind ∧ kind ≠ .symbol .closeParen) ∧
          ∃ between, Runs tokens (entriesFrom inner #[]) state parameters.toArray between ∧
            kindAt tokens between.cursor = some (.symbol .closeParen) ∧
            after = { between with cursor := between.cursor + 1 } := by
  simp only [parameterList, Parser.parameters, runs_bind, runs_check, runs_expect,
    runs_pure]
  constructor
  · rintro ⟨read, between, ⟨closed, _, ⟨present, same, rfl⟩, run⟩, _, _, ⟨closing, rfl⟩, rfl, rfl⟩
    obtain ⟨kind, here⟩ := Option.isSome_iff_exists.mp present
    split at run
    · next found =>
      obtain ⟨rfl, rfl⟩ := runs_pure.mp run
      exact .inl ⟨closing, rfl, rfl⟩
    · next opened =>
      refine .inr ⟨⟨kind, here, ?_⟩, between, run, closing, rfl⟩
      rintro rfl
      exact opened (same.mpr here)
  · rintro (⟨closing, rfl, rfl⟩ | ⟨⟨kind, here, other⟩, between, run, closing, rfl⟩)
    · have closes : (kindAt tokens state.cursor).isSome := by simp [closing]
      exact ⟨#[], state, ⟨true, state, ⟨closes, by simp [closing], rfl⟩, rfl⟩, (), _,
        ⟨closing, rfl⟩, rfl, rfl⟩
    · have present : (kindAt tokens state.cursor).isSome := by simp [here]
      exact ⟨parameters.toArray, between, ⟨false, state, ⟨present, by simp [here, other], rfl⟩,
        run⟩, (), _, ⟨closing, rfl⟩, rfl, rfl⟩

/-- A name is taken over where there is none yet. -/
theorem withName_eq_ok {built result : Declarator} {declared : DeclaredName} :
    built.withName declared = .ok result ↔
      built.name = none ∧ result = ⟨built.ty, some declared⟩ := by
  unfold Declarator.withName
  split
  · next taken =>
    constructor
    · intro same
      cases same
    · rintro ⟨free, _⟩
      simp [free] at taken
  · next free =>
    rw [Option.not_isSome_iff_eq_none] at free
    rw [Except.ok.injEq]
    constructor
    · rintro rfl
      exact ⟨free, rfl⟩
    · rintro ⟨_, rfl⟩
      rfl

/-- The name that a group declares, if any, is taken over. -/
theorem runs_groupName {built group result : Declarator} :
    Runs tokens
        (match group.name with
        | some declared => ofExcept ({ built with ty := group.ty }.withName declared)
        | none => pure { built with ty := group.ty })
        state result after ↔
      (group.name = none ∨ built.name = none) ∧ result = ⟨group.ty, built.name.or group.name⟩ ∧
        after = state := by
  split
  · next declared inside =>
    rw [runs_ofExcept, withName_eq_ok, inside]
    constructor
    · rintro ⟨⟨free, rfl⟩, rfl⟩
      exact ⟨.inr free, by rw [free, Option.none_or], rfl⟩
    · rintro ⟨once, rfl, rfl⟩
      have free : built.name = none := once.resolve_left nofun
      exact ⟨⟨free, by rw [free, Option.none_or]⟩, rfl⟩
  · next inside =>
    rw [runs_pure, inside, Option.or_none]
    constructor
    · rintro ⟨rfl, rfl⟩
      exact ⟨.inl rfl, rfl, rfl⟩
    · rintro ⟨_, rfl, rfl⟩
      exact ⟨rfl, rfl⟩

/-- A parenthesis opens a parameter list or a group, which the token behind it tells. -/
theorem runs_parenthesized {built result : Declarator}
    (opening : kindAt tokens state.cursor = some (.symbol .openParen)) :
    Runs tokens (parenthesized inner built) state result after ↔
      (OpensList tokens state.scopes.findType? (state.cursor + 1) ∧
          ∃ parameters, Runs tokens (parameterList inner)
            { state with cursor := state.cursor + 1 } parameters after ∧
            result = ⟨.function ⟨.site (placeAt tokens state.cursor), none⟩ built.ty parameters,
              built.name⟩) ∨
        (kindAt tokens (state.cursor + 1)).isSome ∧
          ¬OpensList tokens state.scopes.findType? (state.cursor + 1) ∧
          ∃ group between, Runs tokens (inner (some built.ty))
            { state with cursor := state.cursor + 1 } group between ∧
            kindAt tokens between.cursor = some (.symbol .closeParen) ∧
            after = { between with cursor := between.cursor + 1 } ∧
            (group.name = none ∨ built.name = none) ∧
            result = ⟨group.ty, built.name.or group.name⟩ := by
  obtain ⟨token, here, _, place⟩ := kindAt_eq_some opening
  have more : kindAt tokens state.cursor ≠ some .endOfFile := by simp [opening]
  simp only [parenthesized, runs_bind, runs_advance more, runs_check, runs_isTypeName]
  constructor
  · rintro ⟨_, _, ⟨again, rfl⟩, closed, _, ⟨present, closes, rfl⟩, typed, _, ⟨_, types, rfl⟩, run⟩
    rw [here, Option.some.injEq] at again
    subst again
    have opens : (closed || typed) = true ↔
        OpensList tokens state.scopes.findType? (state.cursor + 1) := by
      rw [Bool.or_eq_true, closes, types, OpensList]
    split at run
    · next found =>
      obtain ⟨parameters, _, reading, done⟩ := runs_bind.mp run
      obtain ⟨rfl, rfl⟩ := runs_pure.mp done
      exact .inl ⟨opens.mp found, parameters, reading, by rw [place]⟩
    · next other =>
      obtain ⟨group, between, reading, grouped⟩ := runs_bind.mp run
      obtain ⟨_, _, closing, named⟩ := runs_bind.mp grouped
      obtain ⟨shut, rfl⟩ := runs_expect.mp closing
      obtain ⟨once, rfl, rfl⟩ := runs_groupName.mp named
      have grouping : ¬OpensList tokens state.scopes.findType? (state.cursor + 1) := by
        intro list
        exact other (opens.mpr list)
      exact .inr ⟨present, grouping, group, between, reading, shut, rfl, once, rfl⟩
  · intro parts
    classical
    have present : (kindAt tokens (state.cursor + 1)).isSome := by
      rcases parts with ⟨closing | ⟨_, _, named, _⟩, _⟩ | ⟨present, _⟩
      · simp [closing]
      · simp [named]
      · exact present
    refine ⟨token, _, ⟨here, rfl⟩,
      decide (kindAt tokens (state.cursor + 1) = some (.symbol .closeParen)), _,
      ⟨present, decide_eq_true_iff, rfl⟩,
      decide (∃ ty, NamesType tokens state.scopes.findType? (state.cursor + 1) ty), _,
      ⟨present, decide_eq_true_iff, rfl⟩, ?_⟩
    rw [← Bool.decide_or]
    rcases parts with ⟨list, parameters, reading, rfl⟩ |
      ⟨_, grouping, group, between, reading, closing, rfl, once, rfl⟩
    · rw [OpensList] at list
      rw [if_pos (decide_eq_true list)]
      refine runs_bind.mpr ⟨parameters, after, reading, ?_⟩
      rw [place]
      rfl
    · rw [OpensList] at grouping
      rw [if_neg fun found => grouping (of_decide_eq_true found)]
      refine runs_bind.mpr ⟨group, between, reading, ?_⟩
      refine runs_bind.mpr ⟨(), _, runs_expect.mpr ⟨closing, rfl⟩, ?_⟩
      exact runs_groupName.mpr ⟨once, rfl, rfl⟩

/-- A component is what stands where it begins. -/
theorem runs_component {built result : Declarator} {start : Nat} :
    Runs tokens (component inner built start) state result after ↔
      (kindAt tokens start = some (.symbol .openBracket) ∧
          ∃ ty, Runs tokens (arraySuffix built.ty) { state with cursor := start } ty after ∧
            result = ⟨ty, built.name⟩) ∨
        (kindAt tokens start = some (.symbol .openParen) ∧
          Runs tokens (parenthesized inner built) { state with cursor := start } result after) ∨
        ∃ spelling, kindAt tokens start = some (.name spelling) ∧ built.name = none ∧
          result = ⟨built.ty, some ⟨spelling, placeAt tokens start⟩⟩ ∧
          after = { state with cursor := start } := by
  simp only [component, runs_bind, runs_seek, runs_peek]
  constructor
  · rintro ⟨_, _, rfl, token, _, ⟨here, rfl⟩, run⟩
    have kind := kindAt_of_getElem? here
    split at run
    · next opening =>
      obtain ⟨ty, _, reading, done⟩ := runs_bind.mp run
      obtain ⟨rfl, rfl⟩ := runs_pure.mp done
      exact .inl ⟨by rw [kind, opening], ty, reading, rfl⟩
    · next opening => exact .inr (.inl ⟨by rw [kind, opening], run⟩)
    · next spelling named =>
      obtain ⟨renamed, rfl⟩ := runs_ofExcept.mp run
      obtain ⟨free, rfl⟩ := withName_eq_ok.mp renamed
      refine .inr (.inr ⟨spelling, by rw [kind, named], free, ?_, rfl⟩)
      rw [placeAt_of_getElem? here]
    · exact absurd run not_runs_fail
  · rintro (⟨found, ty, reading, rfl⟩ | ⟨found, reading⟩ | ⟨spelling, found, free, rfl, rfl⟩)
    · obtain ⟨token, here, opening, _⟩ := kindAt_eq_some found
      refine ⟨(), _, rfl, token, _, ⟨here, rfl⟩, ?_⟩
      rw [opening]
      exact runs_bind.mpr ⟨ty, after, reading, rfl⟩
    · obtain ⟨token, here, opening, _⟩ := kindAt_eq_some found
      refine ⟨(), _, rfl, token, _, ⟨here, rfl⟩, ?_⟩
      rw [opening]
      exact reading
    · obtain ⟨token, here, named, place⟩ := kindAt_eq_some found
      refine ⟨(), _, rfl, token, _, ⟨here, rfl⟩, ?_⟩
      rw [named, ← place]
      exact runs_ofExcept.mpr ⟨withName_eq_ok.mpr ⟨free, rfl⟩, rfl⟩

end MiniC.Parser
