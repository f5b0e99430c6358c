/-
# MiniC.Proofs.Declarator.Completeness — declarators are read with their meaning

What the grammar makes of a run of tokens is what reading them yields: `declarator_of_declares`.

A phrase is understood where the parser, placed at its beginning, comes to its meaning and to its
end. For a declarator without a star this is said apart for the two passes: the first notes the
components and comes to the end, and the second, from the last component to the first, takes the
type that the phrase starts from to the type that it makes. Every phrase is understood as soon as
the phrases in it are.
-/
import MiniC.Proofs.Declarator.Component
import MiniC.Proofs.Declarator.Scan
import MiniC.Source

namespace MiniC

set_option autoImplicit false

namespace Parser

variable {tokens : Array Token} {state after : State} {start place stop : Nat}

/-! ## Steps -/

/-- Reading a declarator: its base, its stars, the first pass and the second. -/
theorem runs_declaratorStep {inner : Option Ty → Parser Declarator} {base : Option Ty}
    {declared : Declarator} :
    Runs tokens (declaratorStep inner base) state declared after ↔
      ∃ ty named, Runs tokens (baseType base) state ty named ∧
        ∃ pointed starred, Runs tokens (iterate pointer ty) named pointed starred ∧
        ∃ components scanned, Runs tokens scanComponents starred components scanned ∧
        ∃ visited, Runs tokens (components.foldlM (component inner) ⟨pointed, none⟩) scanned
            declared visited ∧
          after = { visited with cursor := scanned.cursor } := by
  simp only [declaratorStep, runs_bind, runs_cursor, runs_seek, runs_pure]
  constructor
  · rintro ⟨ty, named, first, pointed, starred, second, components, scanned, third, _, _,
      ⟨rfl, rfl⟩, built, visited, fourth, _, _, rfl, rfl, rfl⟩
    exact ⟨ty, named, first, pointed, starred, second, components, scanned, third, visited,
      fourth, rfl⟩
  · rintro ⟨ty, named, first, pointed, starred, second, components, scanned, third, visited,
      fourth, rfl⟩
    exact ⟨ty, named, first, pointed, starred, second, components, scanned, third, _, _,
      ⟨rfl, rfl⟩, declared, visited, fourth, (), _, rfl, rfl, rfl⟩

theorem runs_declaratorAround {base : Option Ty} {declared : Declarator}
    (within : state.cursor ≤ tokens.size) :
    Runs tokens (declaratorAround base) state declared after ↔
      Runs tokens (declaratorStep declaratorAround base) state declared after := by
  rw [Runs, Runs, declaratorAround_eq base within]

/-- Behind the name of a type a declarator is read as around the type. -/
theorem runs_declaratorStep_none {inner : Option Ty → Parser Declarator} {base : Ty}
    {declared : Declarator}
    (typed : NamesType tokens state.scopes.findType? state.cursor base)
    (run : Runs tokens (declaratorStep inner (some base)) { state with cursor := state.cursor + 1 }
      declared after) :
    Runs tokens (declaratorStep inner none) state declared after := by
  obtain ⟨ty, named, first, rest⟩ := runs_declaratorStep.mp run
  obtain ⟨rfl, rfl⟩ := runs_pure.mp first
  exact runs_declaratorStep.mpr ⟨base, _, runs_typeName.mpr ⟨typed, rfl⟩, rest⟩

theorem advancing_pointer : Advancing pointer := by
  intro ty next tokens state after within run
  obtain ⟨star, _, rfl⟩ | ⟨_, impossible, _⟩ := runs_pointer.mp run
  · exact ⟨Nat.lt_succ_self _, lt_size_of_kindAt star⟩
  · cases impossible

theorem advancing_nextParameter : Advancing (nextParameter declaratorAround) := by
  intro read next tokens state after within run
  obtain ⟨comma, one, _, reading⟩ | ⟨_, impossible, _⟩ := runs_nextParameter.mp run
  · have lands : Lands tokens (state.cursor + 1) (parameter declaratorAround)
        (parameter declaratorAround) := lands_parameter lands_declaratorAround
    obtain ⟨_, low, high⟩ :=
      lands { state with cursor := state.cursor + 1 } (Nat.le_refl _) (lt_size_of_kindAt comma)
    rw [reading] at low high
    exact ⟨low, high⟩
  · cases impossible

/-! ## Understanding -/

/-- Placed at the beginning of the phrase, the parser comes to its meaning and its end. -/
def Understood (tokens : Array Token) (state : State) : Phrase → (start stop : Nat) → Prop
  | .whole base declared, start, stop => EndsAt tokens stop →
    Runs tokens (declaratorStep declaratorAround (some base)) { state with cursor := start }
      declared { state with cursor := stop }
  | .core base declared, start, stop => ∃ components,
    (∀ noted, Passes tokens start ⟨noted, 0⟩ stop ⟨components ++ noted, 0⟩) ∧
      ∀ already cursor, already = none ∨ declared.name = none → ∃ last,
        Runs tokens (components.foldlM (component declaratorAround) ⟨base, already⟩)
          { state with cursor } ⟨declared.ty, declared.name.or already⟩
          { state with cursor := last }
  | .entries parameters, start, stop => kindAt tokens stop = some (.symbol .closeParen) → ∀ read,
    Runs tokens (entriesFrom declaratorAround read) { state with cursor := start }
      (read ++ parameters.toArray) { state with cursor := stop }

/-! ### Declarators -/

theorem understood_star {base : Ty} {declared : Declarator}
    (star : kindAt tokens start = some (.symbol .star))
    (rest : Understood tokens state
      (.whole (.pointer ⟨.site (placeAt tokens start), none⟩ base) declared) (start + 1) stop) :
    Understood tokens state (.whole base declared) start stop := by
  intro ends
  obtain ⟨ty, named, first, pointed, starred, second, visits⟩ := runs_declaratorStep.mp (rest ends)
  obtain ⟨rfl, rfl⟩ := runs_pure.mp first
  refine runs_declaratorStep.mpr ⟨base, _, rfl, pointed, starred, ?_, visits⟩
  have turn : pointer base tokens { state with cursor := start } =
      .ok (some (.pointer ⟨.site (placeAt tokens start), none⟩ base))
        { state with cursor := start + 1 } :=
    runs_pointer.mpr (.inl ⟨star, rfl, rfl⟩)
  rw [Runs, iterate_eq advancing_pointer _ (Nat.le_of_lt (lt_size_of_kindAt star)), turn]
  exact second

theorem understood_unstarred {base : Ty} {declared : Declarator}
    (core : Understood tokens state (.core base declared) start stop) :
    Understood tokens state (.whole base declared) start stop := by
  intro ends
  obtain ⟨components, passes, visits⟩ := core
  have passes : Passes tokens start ⟨[], 0⟩ stop ⟨components, 0⟩ := by
    have all := passes []
    rwa [List.append_nil] at all
  have unstarred : ∃ kind, kindAt tokens start = some kind ∧ kind ≠ .symbol .star := by
    cases passes with
    | done =>
      obtain ⟨kind, here, ended⟩ := ends
      refine ⟨kind, here, ?_⟩
      rintro rfl
      cases ended
    | @step _ _ _ _ _ kind here passed _ =>
      refine ⟨kind, here, ?_⟩
      rintro rfl
      cases passed
  obtain ⟨last, visit⟩ := visits none stop (.inl rfl)
  rw [Option.or_none] at visit
  refine runs_declaratorStep.mpr ⟨base, _, rfl, base, { state with cursor := start }, ?_,
    components, _, runs_scanComponents passes ends, _, visit, rfl⟩
  obtain ⟨kind, here, other⟩ := unstarred
  have turn : pointer base tokens { state with cursor := start } =
      .ok none { state with cursor := start } :=
    runs_pointer.mpr (.inr ⟨⟨kind, here, other⟩, rfl, rfl⟩)
  rw [Runs, iterate_eq advancing_pointer _ (Nat.le_of_lt (lt_size_of_kindAt here)), turn]

/-! ### Components -/

section Names

variable {first second third : Option DeclaredName}

/-- That at most one of three names is there can be said of the first two and the third, or of the
last two and the first. -/
theorem apart_or_iff :
    (first = none ∨ second = none) ∧ (third = none ∨ first.or second = none) ↔
      (third = none ∨ second = none) ∧ (third.or second = none ∨ first = none) := by
  cases first <;> cases second <;> cases third <;> simp

theorem or_comm_of_apart (apart : first = none ∨ second = none) :
    first.or second = second.or first := by
  rcases apart with rfl | rfl
  · rw [Option.none_or, Option.or_none]
  · rw [Option.none_or, Option.or_none]

end Names

theorem understood_nothing {base : Ty} :
    Understood tokens state (.core base ⟨base, none⟩) start start := by
  refine ⟨[], fun _ => .done, ?_⟩
  intro already cursor _
  exact ⟨cursor, rfl⟩

/-- A component behind a phrase that is understood: it is noted in front of the others, and visited
before them. -/
theorem understood_behind {base between ty : Ty} {inside outside : Option DeclaredName}
    (rest : Understood tokens state (.core between ⟨ty, outside⟩) start place)
    (passes : ∀ noted, Passes tokens place ⟨noted, 0⟩ stop ⟨place :: noted, 0⟩)
    (visit : ∀ already cursor, already = none ∨ inside = none → ∃ last,
      Runs tokens (component declaratorAround ⟨base, already⟩ place) { state with cursor }
        ⟨between, already.or inside⟩ { state with cursor := last })
    (once : inside = none ∨ outside = none) :
    Understood tokens state (.core base ⟨ty, outside.or inside⟩) start stop := by
  obtain ⟨components, restPasses, visits⟩ := rest
  refine ⟨place :: components, fun noted => (restPasses noted).trans (passes _), ?_⟩
  intro already cursor free
  obtain ⟨insideFree, outsideFree⟩ := apart_or_iff.mp ⟨once.symm, free⟩
  obtain ⟨middle, first⟩ := visit already cursor insideFree
  obtain ⟨last, others⟩ := visits (already.or inside) middle outsideFree
  have same : outside.or (already.or inside) = (outside.or inside).or already := by
    rw [or_comm_of_apart insideFree, Option.or_assoc]
  rw [same] at others
  refine ⟨last, ?_⟩
  rw [List.foldlM_cons]
  exact runs_bind.mpr ⟨_, _, first, others⟩

/-- A suffix changes the type that the phrase in front of it starts from. -/
theorem understood_suffix {base between : Ty} {declared : Declarator}
    (rest : Understood tokens state (.core between declared) start place)
    (passes : ∀ noted, Passes tokens place ⟨noted, 0⟩ stop ⟨place :: noted, 0⟩)
    (visit : ∀ already cursor, ∃ last,
      Runs tokens (component declaratorAround ⟨base, already⟩ place) { state with cursor }
        ⟨between, already⟩ { state with cursor := last }) :
    Understood tokens state (.core base declared) start stop := by
  obtain ⟨ty, name⟩ := declared
  have behind : Understood tokens state (.core base ⟨ty, name.or none⟩) start stop := by
    apply understood_behind rest passes
    · intro already cursor _
      rw [Option.or_none]
      exact visit already cursor
    · exact .inl rfl
  rwa [Option.or_none] at behind

theorem understood_laterName {base ty : Ty} {spelling : String}
    (rest : Understood tokens state (.core base ⟨ty, none⟩) start place)
    (named : kindAt tokens place = some (.name spelling)) :
    Understood tokens state (.core base ⟨ty, some ⟨spelling, placeAt tokens place⟩⟩) start
      (place + 1) := by
  have behind : Understood tokens state
      (.core base ⟨ty, none.or (some ⟨spelling, placeAt tokens place⟩)⟩) start (place + 1) := by
    refine understood_behind rest (fun _ => .name named) ?_ (.inr rfl)
    intro already cursor free
    obtain rfl : already = none := free.resolve_right nofun
    exact ⟨place, runs_component.mpr (.inr (.inr ⟨spelling, named, rfl, rfl, rfl⟩))⟩
  exact behind

theorem understood_laterGroup {base between ty : Ty} {inside outside : Option DeclaredName}
    (rest : Understood tokens state (.core between ⟨ty, outside⟩) start place)
    (opening : kindAt tokens place = some (.symbol .openParen))
    (grouping : ¬OpensList tokens state.scopes.findType? (place + 1))
    (passes : ∀ inner : Scan, 0 < inner.depth → Passes tokens (place + 1) inner stop inner)
    (inner : Understood tokens state (.whole base ⟨between, inside⟩) (place + 1) stop)
    (closing : kindAt tokens stop = some (.symbol .closeParen))
    (once : inside = none ∨ outside = none) :
    Understood tokens state (.core base ⟨ty, outside.or inside⟩) start (stop + 1) := by
  refine understood_behind rest (fun _ => .parenthesized opening passes closing) ?_ once
  intro already cursor free
  have within := lt_size_of_kindAt opening
  have present : place + 1 < tokens.size :=
    Nat.lt_of_le_of_lt (passes ⟨[], 1⟩ Nat.one_pos).le (lt_size_of_kindAt closing)
  have read : Runs tokens (declaratorAround (some base)) { state with cursor := place + 1 }
      ⟨between, inside⟩ { state with cursor := stop } := by
    refine (runs_declaratorAround ?_).mpr (inner ⟨_, closing, rfl⟩)
    exact within
  refine ⟨stop + 1, runs_component.mpr (.inr (.inl ⟨opening, ?_⟩))⟩
  exact (runs_parenthesized opening).mpr (.inr ⟨isSome_kindAt present, grouping, _, _, read,
    closing, rfl, free.symm, rfl⟩)

/-! ### Suffixes -/

theorem understood_array {base : Ty} {declared : Declarator} {length : Nat}
    (rest : Understood tokens state
      (.core (.array ⟨.site (placeAt tokens place), none⟩ base (UInt64.ofNat length)) declared)
      start place)
    (opening : kindAt tokens place = some (.symbol .openBracket))
    (counted : kindAt tokens (place + 1) = some (.integer length)) (fits : length < UInt64.size)
    (closing : kindAt tokens (place + 2) = some (.symbol .closeBracket)) :
    Understood tokens state (.core base declared) start (place + 3) := by
  apply understood_suffix rest (fun _ => .array opening counted closing)
  intro already cursor
  have read : Runs tokens (arraySuffix base) { state with cursor := place }
      (.array ⟨.site (placeAt tokens place), none⟩ base (UInt64.ofNat length))
      { state with cursor := place + 3 } :=
    runs_arraySuffix.mpr ⟨length, opening, counted, fits, closing, rfl, rfl⟩
  exact ⟨place + 3, runs_component.mpr (.inl ⟨opening, _, read, rfl⟩)⟩

theorem understood_emptyList {base : Ty} {declared : Declarator}
    (rest : Understood tokens state
      (.core (.function ⟨.site (placeAt tokens place), none⟩ base []) declared) start place)
    (opening : kindAt tokens place = some (.symbol .openParen))
    (closing : kindAt tokens (place + 1) = some (.symbol .closeParen)) :
    Understood tokens state (.core base declared) start (place + 2) := by
  apply understood_suffix rest (fun _ => .parenthesized opening (fun _ _ => .done) closing)
  intro already cursor
  have read : Runs tokens (parameterList declaratorAround) { state with cursor := place + 1 } []
      { state with cursor := place + 2 } :=
    runs_parameterList.mpr (.inl ⟨closing, rfl, rfl⟩)
  refine ⟨place + 2, runs_component.mpr (.inr (.inl ⟨opening, ?_⟩))⟩
  exact (runs_parenthesized opening).mpr (.inl ⟨.inl closing, [], read, rfl⟩)

theorem understood_list {base : Ty} {declared : Declarator} {parameters : List (Parameter Ty)}
    (rest : Understood tokens state
      (.core (.function ⟨.site (placeAt tokens place), none⟩ base parameters) declared) start place)
    (opening : kindAt tokens place = some (.symbol .openParen))
    (typed : ∃ ty, NamesType tokens state.scopes.findType? (place + 1) ty)
    (passes : ∀ inner : Scan, 0 < inner.depth → Passes tokens (place + 1) inner stop inner)
    (entries : Understood tokens state (.entries parameters) (place + 1) stop)
    (closing : kindAt tokens stop = some (.symbol .closeParen)) :
    Understood tokens state (.core base declared) start (stop + 1) := by
  apply understood_suffix rest (fun _ => .parenthesized opening passes closing)
  intro already cursor
  have reading := entries closing #[]
  rw [Array.empty_append] at reading
  obtain ⟨ty, spelling, named, known⟩ := typed
  have read : Runs tokens (parameterList declaratorAround) { state with cursor := place + 1 }
      parameters { state with cursor := stop + 1 } :=
    runs_parameterList.mpr (.inr ⟨⟨_, named, nofun⟩, _, reading, closing, rfl⟩)
  refine ⟨stop + 1, runs_component.mpr (.inr (.inl ⟨opening, ?_⟩))⟩
  exact (runs_parenthesized opening).mpr
    (.inl ⟨.inr ⟨ty, spelling, named, known⟩, parameters, read, rfl⟩)

/-- Tokens that are skipped change nothing. -/
theorem understood_stray {base : Ty} {declared : Declarator}
    (rest : Understood tokens state (.core base declared) start place)
    (skipped : kindAt tokens place = some (.symbol .closeBracket) ∨
      ∃ value, kindAt tokens place = some (.integer value)) :
    Understood tokens state (.core base declared) start (place + 1) := by
  obtain ⟨components, passes, visits⟩ := rest
  exact ⟨components, fun noted => (passes noted).trans (.skipped skipped), visits⟩

/-! ### Parameter lists -/

/-- An entry is read up to the comma or the parenthesis behind it. -/
theorem runs_parameter_of_understood {base : Ty} {declared : Declarator}
    (typed : NamesType tokens state.scopes.findType? start base)
    (declares : Understood tokens state (.whole base declared) (start + 1) stop)
    (ends : EndsAt tokens stop) :
    Runs tokens (parameter declaratorAround) { state with cursor := start }
      (declared.toParameter (placeAt tokens start)) { state with cursor := stop } := by
  obtain ⟨spelling, named, known⟩ := typed
  have within := lt_size_of_kindAt named
  refine runs_parameter.mpr ⟨declared, isSome_kindAt within, ?_, rfl⟩
  refine (runs_declaratorAround ?_).mpr ?_
  · exact Nat.le_of_lt within
  · exact runs_declaratorStep_none ⟨spelling, named, known⟩ (declares ends)

theorem understood_last {base : Ty} {declared : Declarator}
    (typed : NamesType tokens state.scopes.findType? start base)
    (declares : Understood tokens state (.whole base declared) (start + 1) stop) :
    Understood tokens state (.entries [declared.toParameter (placeAt tokens start)])
      start stop := by
  intro closing read
  have one := runs_parameter_of_understood typed declares ⟨_, closing, rfl⟩
  refine runs_bind.mpr ⟨_, _, one, ?_⟩
  have turn : ∀ all, nextParameter declaratorAround all tokens { state with cursor := stop } =
      .ok none { state with cursor := stop } := by
    intro all
    exact runs_nextParameter.mpr (.inr ⟨⟨_, closing, nofun⟩, rfl, rfl⟩)
  rw [Runs, iterate_eq advancing_nextParameter _ (Nat.le_of_lt (lt_size_of_kindAt closing)), turn]
  simp

theorem understood_more {base : Ty} {declared : Declarator} {parameters : List (Parameter Ty)}
    (typed : NamesType tokens state.scopes.findType? start base)
    (declares : Understood tokens state (.whole base declared) (start + 1) place)
    (comma : kindAt tokens place = some (.symbol .comma))
    (others : Understood tokens state (.entries parameters) (place + 1) stop) :
    Understood tokens state (.entries (declared.toParameter (placeAt tokens start) :: parameters))
      start stop := by
  intro closing read
  have one := runs_parameter_of_understood typed declares ⟨_, comma, rfl⟩
  refine runs_bind.mpr ⟨_, _, one, ?_⟩
  obtain ⟨next, between, reading, further⟩ :=
    runs_bind.mp (others closing (read.push (declared.toParameter (placeAt tokens start))))
  have turn : ∀ all, nextParameter declaratorAround all tokens { state with cursor := place } =
      .ok (some (all.push next)) between := by
    intro all
    exact runs_nextParameter.mpr (.inl ⟨comma, next, rfl, reading⟩)
  rw [Runs, iterate_eq advancing_nextParameter _ (Nat.le_of_lt (lt_size_of_kindAt comma)), turn]
  rw [Runs] at further
  simpa using further

/-! ### Phrases -/

/-- Every phrase is understood. -/
theorem understood_of_spans {form : Form} {phrase : Phrase}
    (spans : Spans tokens state.scopes.findType? form phrase start stop) :
    Understood tokens state phrase start stop := by
  induction spans with
  | star star _ ih => exact understood_star star ih
  | unstarred _ ih => exact understood_unstarred ih
  | nothing => exact understood_nothing
  | name named => exact understood_laterName understood_nothing named
  | @group _ _ declared _ _ opening grouping inner closing ih =>
    exact understood_laterGroup understood_nothing opening grouping
      (fun _ deep => inner.passes deep) ih closing (.inr rfl)
  | array _ opening counted fits closing ih =>
    exact understood_array ih opening counted fits closing
  | emptyList _ opening closing ih => exact understood_emptyList ih opening closing
  | list _ opening entries closing ih inside =>
    exact understood_list ih opening entries.namesType_of_entries
      (fun _ deep => entries.passes deep) inside closing
  | laterName _ named ih => exact understood_laterName ih named
  | laterGroup _ opening grouping inner closing once ih inside =>
    exact understood_laterGroup ih opening grouping (fun _ deep => inner.passes deep) inside closing
      once
  | stray _ skipped ih => exact understood_stray ih skipped
  | last typed _ ih => exact understood_last typed ih
  | more typed _ comma _ ih others => exact understood_more typed ih comma others

/-! ## Declarators -/

/-- The tokens of a source that has tokens of the given kinds. -/
theorem exists_tokens_of_kinds (source : String) (kinds : List Kind)
    (lexed : (tokensOf source).toOption.map (List.map Token.kind) = some kinds) :
    ∃ tokens : Array Token, tokensOf source = .ok tokens.toList ∧
      ∀ index : Nat, kindAt tokens index = kinds[index]? := by
  rcases read : tokensOf source with error | tokens
  · rw [read] at lexed
    cases lexed
  · rw [read] at lexed
    obtain rfl := Option.some.inj lexed
    refine ⟨tokens.toArray, rfl, fun index => ?_⟩
    rw [kindAt, List.getElem?_toArray, List.getElem?_map]

/-- Behind a type name, whatever the tokens span is read in front of a token that ends it. -/
theorem runs_declarator {form : Form} {declared : Declarator}
    (declares : Declares form tokens state declared stop) (ends : EndsAt tokens stop) :
    Runs tokens declarator state declared { state with cursor := stop } := by
  obtain ⟨base, ⟨spelling, named, known⟩, spans⟩ := declares
  refine (runs_declaratorAround (Nat.le_of_lt (lt_size_of_kindAt named))).mpr ?_
  exact runs_declaratorStep_none ⟨spelling, named, known⟩ (understood_of_spans spans ends)

/-- A type name and a declarator of the grammar, of any depth, are read up to the token that ends
them, with the type that the grammar gives and the name that they declare. -/
theorem declarator_of_declares {declared : Declarator}
    (declares : Declares .strict tokens state declared stop) (ends : EndsAt tokens stop) :
    declarator tokens state = .ok declared { state with cursor := stop } :=
  runs_declarator declares ends

theorem declarator_of_declares_function : ∃ tokens : Array Token, ∃ declared,
    tokensOf "int32 (*f(bool))[2];" = .ok tokens.toList ∧
      Declares .strict tokens State.initial declared 11 ∧ EndsAt tokens 11 ∧
      declarator tokens State.initial = .ok declared { State.initial with cursor := 11 } ∧
      declared.ty.describe = "function (bool) returning pointer to array 2 of int32" := by
  obtain ⟨tokens, lexed, kind⟩ := exists_tokens_of_kinds "int32 (*f(bool))[2];"
    [.name "int32", .symbol .openParen, .symbol .star, .name "f", .symbol .openParen, .name "bool",
      .symbol .closeParen, .symbol .closeParen, .symbol .openBracket, .integer 2,
      .symbol .closeBracket, .symbol .semicolon, .endOfFile] (by decide +kernel)
  have list : Spans tokens State.initial.scopes.findType? .strict
      (.entries [⟨none, Ty.builtin .bool, placeAt tokens 5⟩]) 5 6 :=
    .last ⟨"bool", kind 5, rfl⟩ (.unstarred .nothing)
  have inner : Spans tokens State.initial.scopes.findType? .strict
      (.whole (.array ⟨.site (placeAt tokens 8), none⟩ (Ty.builtin (.integer 32 true)) 2) _) 2 7 :=
    .star (kind 2) (.unstarred (.list (.name (kind 3)) (kind 4) list (kind 6)))
  have grouping : ¬OpensList tokens State.initial.scopes.findType? 2 := by
    rintro (closing | ⟨ty, spelling, named, _⟩)
    · rw [kind] at closing
      cases closing
    · rw [kind] at named
      cases named
  have declares : Declares .strict tokens State.initial _ 11 :=
    ⟨_, ⟨"int32", kind 0, rfl⟩, .unstarred (.array (.group (kind 1) grouping inner (kind 7))
      (kind 8) (kind 9) (by decide) (kind 10))⟩
  have ends : EndsAt tokens 11 := ⟨_, kind 11, rfl⟩
  exact ⟨tokens, _, lexed, declares, ends, declarator_of_declares declares ends, by rfl⟩

end Parser

end MiniC
