/-
# MiniC.Proofs.Declarator.Order — when no token of a declarator is passed over

The loose grammar lets an integer or a `]` stand where it means nothing, and names and groups
behind suffixes. `Orderly` is what a token and the one in front of it have to be like for that not
to happen:

* in front of an integer stands a `[`, and in front of a `]` an integer;
* a name or a group stands behind a `*`, a `(` or the type name of the declarator or the parameter,
  where a name may be that type name itself.

`declares_strict_iff_orderly`: what is read is a declarator of the strict grammar exactly where all
of its tokens are orderly. In `int32 x 5` they are not, and it is read nevertheless.
-/
import MiniC.Proofs.Declarator.Soundness

namespace MiniC

set_option autoImplicit false

section Order

variable (tokens : Array Token) (visible : String → Option Ty) (entry : Nat)

/-- A declarator follows this type name: it stands at the entry or begins a parameter. -/
def BeginsAt (index : Nat) : Prop :=
  index = entry ∨ ∃ before, index = before + 1 ∧
    (kindAt tokens before = some (.symbol .openParen) ∨
      kindAt tokens before = some (.symbol .comma)) ∧ ∃ ty, NamesType tokens visible index ty

/-- Behind this token there is room for a name or a group. -/
def Opens (index : Nat) : Prop :=
  kindAt tokens index = some (.symbol .star) ∨ kindAt tokens index = some (.symbol .openParen) ∨
    BeginsAt tokens visible entry index

/-- The token behind this one has its place in a declarator. -/
structure Orderly (index : Nat) : Prop where
  integer : ∀ {value}, kindAt tokens (index + 1) = some (.integer value) →
    kindAt tokens index = some (.symbol .openBracket)
  bracket : kindAt tokens (index + 1) = some (.symbol .closeBracket) →
    ∃ value, kindAt tokens index = some (.integer value)
  name : ∀ {spelling}, kindAt tokens (index + 1) = some (.name spelling) →
    BeginsAt tokens visible entry (index + 1) ∨ Opens tokens visible entry index
  parenthesis : kindAt tokens (index + 1) = some (.symbol .openParen) →
    OpensList tokens visible (index + 2) ∨ Opens tokens visible entry index

/-- Every token behind the one at `first` and in front of `stop` has its place. -/
def AllOrderly (first stop : Nat) : Prop :=
  ∀ index, first ≤ index → index + 1 < stop → Orderly tokens visible entry index

/-- Behind this token there is room for suffixes only. -/
def Shuts (index : Nat) : Prop :=
  kindAt tokens index = some (.symbol .closeBracket) ∨
    kindAt tokens index = some (.symbol .closeParen) ∨
    (∃ spelling, kindAt tokens index = some (.name spelling)) ∧
      ¬BeginsAt tokens visible entry index

/-- The phrase may stand behind the token. -/
def Leads : Phrase → (before : Nat) → Prop
  | .entries _, before => kindAt tokens before = some (.symbol .openParen) ∨
      kindAt tokens before = some (.symbol .comma)
  | .whole .., before | .core .., before => Opens tokens visible entry before ∧
      (kindAt tokens before = some (.symbol .openParen) → ¬OpensList tokens visible (before + 1))

end Order

section

variable {tokens : Array Token} {visible : String → Option Ty} {entry : Nat} {before index : Nat}

/-! ## Single tokens -/

theorem orderly_of_symbol {mark : Symbol} (here : kindAt tokens (index + 1) = some (.symbol mark))
    (bracket : mark ≠ .closeBracket) (parenthesis : mark ≠ .openParen) :
    Orderly tokens visible entry index := by
  constructor <;> simp [here, bracket, parenthesis]

theorem orderly_of_name {spelling : String}
    (here : kindAt tokens (index + 1) = some (.name spelling))
    (room : BeginsAt tokens visible entry (index + 1) ∨ Opens tokens visible entry index) :
    Orderly tokens visible entry index := by
  constructor <;> simp [here, room]

theorem orderly_of_openParen (here : kindAt tokens (index + 1) = some (.symbol .openParen))
    (room : OpensList tokens visible (index + 2) ∨ Opens tokens visible entry index) :
    Orderly tokens visible entry index := by
  constructor <;> simp [here, room]

theorem orderly_of_integer {value : Nat}
    (here : kindAt tokens (index + 1) = some (.integer value))
    (opening : kindAt tokens index = some (.symbol .openBracket)) :
    Orderly tokens visible entry index := by
  constructor <;> simp [here, opening]

theorem orderly_of_closeBracket {value : Nat}
    (here : kindAt tokens (index + 1) = some (.symbol .closeBracket))
    (counted : kindAt tokens index = some (.integer value)) :
    Orderly tokens visible entry index := by
  constructor <;> simp [here, counted]

theorem AllOrderly.mono {first first' stop stop' : Nat}
    (orderly : AllOrderly tokens visible entry first stop) (later : first ≤ first')
    (sooner : stop' ≤ stop) : AllOrderly tokens visible entry first' stop' := by
  intro index low high
  exact orderly index (by omega) (by omega)

/-! ## Declarators behind a token -/

theorem leads_star {base : Ty} {declared : Declarator}
    (star : kindAt tokens index = some (.symbol .star)) :
    Leads tokens visible entry (.whole base declared) index := by
  refine ⟨.inl star, fun opening => ?_⟩
  rw [star] at opening
  cases opening

theorem leads_group {base : Ty} {declared : Declarator}
    (opening : kindAt tokens index = some (.symbol .openParen))
    (grouping : ¬OpensList tokens visible (index + 1)) :
    Leads tokens visible entry (.whole base declared) index :=
  ⟨.inr (.inl opening), fun _ => grouping⟩

theorem leads_typed {base ty : Ty} {declared : Declarator}
    (begins : BeginsAt tokens visible entry index) (typed : NamesType tokens visible index ty) :
    Leads tokens visible entry (.whole base declared) index := by
  refine ⟨.inr (.inr begins), fun opening => ?_⟩
  obtain ⟨spelling, named, _⟩ := typed
  rw [named] at opening
  cases opening

theorem beginsAt_of_leads {parameters : List (Parameter Ty)} {ty : Ty}
    (leads : Leads tokens visible entry (.entries parameters) before)
    (typed : NamesType tokens visible (before + 1) ty) :
    BeginsAt tokens visible entry (before + 1) :=
  .inr ⟨before, rfl, leads, ty, typed⟩

/-! ## Strict declarators are orderly -/

namespace Spans

variable {phrase : Phrase} {start stop : Nat}

/-- Every token of a strict declarator has its place. -/
theorem orderly (spans : Spans tokens visible .strict phrase start stop)
    (behind : start = before + 1) (leads : Leads tokens visible entry phrase before)
    (low : before ≤ index) (high : index + 1 < stop) : Orderly tokens visible entry index := by
  generalize formed : Form.strict = form at spans
  induction spans generalizing before with
  | laterName | laterGroup | stray => cases formed
  | star star _ ih =>
    subst behind
    obtain rfl | later : index = before ∨ before + 1 ≤ index := by omega
    · exact orderly_of_symbol star nofun nofun
    · exact ih rfl (leads_star star) later high formed
  | unstarred _ ih => exact ih behind leads low high formed
  | nothing => omega
  | name named =>
    subst behind
    obtain rfl : index = before := by omega
    exact orderly_of_name named (.inr leads.1)
  | @group _ _ _ _ last opening grouping _ closing ih =>
    subst behind
    obtain rfl | rfl | ⟨later, sooner⟩ :
        index = before ∨ last = index + 1 ∨ before + 1 ≤ index ∧ index + 1 < last := by omega
    · exact orderly_of_openParen opening (.inr leads.1)
    · exact orderly_of_symbol closing nofun nofun
    · exact ih rfl (leads_group opening grouping) later sooner formed
  | @array _ _ _ _ place _ _ opening counted _ closing ih =>
    obtain sooner | rfl | rfl | rfl :
        index + 1 < place ∨ place = index + 1 ∨ index = place ∨ index = place + 1 := by omega
    · exact ih behind leads low sooner formed
    · exact orderly_of_symbol opening nofun nofun
    · exact orderly_of_integer counted opening
    · exact orderly_of_closeBracket closing counted
  | @emptyList _ _ _ _ place _ opening closing ih =>
    obtain sooner | rfl | rfl : index + 1 < place ∨ place = index + 1 ∨ index = place := by omega
    · exact ih behind leads low sooner formed
    · exact orderly_of_openParen opening (.inl (.inl closing))
    · exact orderly_of_symbol closing nofun nofun
  | @list _ _ _ _ _ place last _ opening entries closing ih inside =>
    obtain sooner | rfl | ⟨later, sooner⟩ | rfl :
        index + 1 < place ∨ place = index + 1 ∨ (place ≤ index ∧ index + 1 < last) ∨
          last = index + 1 := by omega
    · exact ih behind leads low sooner formed
    · exact orderly_of_openParen opening (.inl (.inr entries.namesType_of_entries))
    · exact inside rfl (.inl opening) later sooner formed
    · exact orderly_of_symbol closing nofun nofun
  | last typed _ ih =>
    subst behind
    have begins := beginsAt_of_leads leads typed
    obtain rfl | later : index = before ∨ before + 1 ≤ index := by omega
    · obtain ⟨spelling, named, _⟩ := typed
      exact orderly_of_name named (.inl begins)
    · exact ih rfl (leads_typed begins typed) later high formed
  | @more _ _ _ _ _ place _ typed _ comma _ ih others =>
    subst behind
    have begins := beginsAt_of_leads leads typed
    obtain rfl | ⟨later, sooner⟩ | rfl | later :
        index = before ∨ (before + 1 ≤ index ∧ index + 1 < place) ∨ place = index + 1 ∨
          place ≤ index := by omega
    · obtain ⟨spelling, named, _⟩ := typed
      exact orderly_of_name named (.inl begins)
    · exact ih rfl (leads_typed begins typed) later sooner formed
    · exact orderly_of_symbol comma nofun nofun
    · exact others rfl (.inr comma) later high formed

end Spans

/-! ## Orderly declarators are strict -/

variable (entered : ∃ spelling, kindAt tokens entry = some (.name spelling))

include entered in
theorem not_opens_of_shuts (shuts : Shuts tokens visible entry index) :
    ¬Opens tokens visible entry index := by
  have unnamed : ∀ {kind : Kind}, kindAt tokens index = some kind →
      (∀ spelling, kind ≠ .name spelling) → ¬BeginsAt tokens visible entry index := by
    rintro kind here other (rfl | ⟨_, _, _, _, spelling, named, _⟩)
    · obtain ⟨spelling, named⟩ := entered
      rw [here, Option.some.injEq] at named
      exact other spelling named
    · rw [here, Option.some.injEq] at named
      exact other spelling named
  rintro (star | opening | begins)
  · rcases shuts with here | here | ⟨⟨_, here⟩, _⟩ <;> simp [star] at here
  · rcases shuts with here | here | ⟨⟨_, here⟩, _⟩ <;> simp [opening] at here
  · rcases shuts with here | here | ⟨_, other⟩
    · exact unnamed here nofun begins
    · exact unnamed here nofun begins
    · exact other begins

/-- No type name of its own stands behind such a token. -/
theorem not_beginsAt_of_shuts (shuts : Shuts tokens visible entry index) (low : entry ≤ index) :
    ¬BeginsAt tokens visible entry (index + 1) := by
  rintro (same | ⟨before, same, found, _⟩)
  · omega
  · obtain rfl : index = before := by omega
    rcases shuts with here | here | ⟨⟨_, here⟩, _⟩ <;> simp [here] at found

include entered in
theorem kind_of_opens (opens : Opens tokens visible entry index) :
    kindAt tokens index = some (.symbol .star) ∨ kindAt tokens index = some (.symbol .openParen) ∨
      ∃ spelling, kindAt tokens index = some (.name spelling) := by
  rcases opens with star | opening | rfl | ⟨_, _, _, _, spelling, named, _⟩
  · exact .inl star
  · exact .inr (.inl opening)
  · exact .inr (.inr entered)
  · exact .inr (.inr ⟨spelling, named⟩)

namespace Spans

variable {phrase : Phrase} {start stop : Nat}

include entered in
/-- Behind a strict declarator without a star there is room for suffixes only. -/
theorem shuts {base : Ty} {declared : Declarator}
    (spans : Spans tokens visible .strict (.core base declared) start stop)
    (behind : start = before + 1)
    (leads : Leads tokens visible entry (.core base declared) before) (low : entry ≤ before) :
    start = stop ∨ ∃ last, stop = last + 1 ∧ before < last ∧ Shuts tokens visible entry last := by
  cases spans with
  | nothing => exact .inl rfl
  | name named =>
    subst behind
    refine .inr ⟨before + 1, rfl, by omega, .inr (.inr ⟨⟨_, named⟩, ?_⟩)⟩
    rintro (same | ⟨last, same, opening | comma, typed⟩)
    · omega
    · obtain rfl : before = last := by omega
      exact leads.2 opening (.inr typed)
    · obtain rfl : before = last := by omega
      rcases kind_of_opens entered leads.1 with here | here | ⟨_, here⟩ <;> simp [here] at comma
  | @group _ _ _ _ last _ _ inner closing =>
    have := inner.le
    exact .inr ⟨last, rfl, by omega, .inr (.inl closing)⟩
  | @array _ _ _ _ place _ rest _ _ _ closing =>
    have := rest.le
    exact .inr ⟨place + 2, rfl, by omega, .inl closing⟩
  | @emptyList _ _ _ _ place rest _ closing =>
    have := rest.le
    exact .inr ⟨place + 1, rfl, by omega, .inr (.inl closing)⟩
  | @list _ _ _ _ _ place last rest _ entries closing =>
    have := rest.le
    have := entries.le
    exact .inr ⟨last, rfl, by omega, .inr (.inl closing)⟩

include entered in
/-- Where every token has its place, the declarator is strict: what the loose form has more stands
behind a token that leaves no room for it. -/
theorem strict (spans : Spans tokens visible .loose phrase start stop)
    (behind : start = before + 1) (leads : Leads tokens visible entry phrase before)
    (low : entry ≤ before) (orderly : AllOrderly tokens visible entry before stop) :
    Spans tokens visible .strict phrase start stop := by
  generalize formed : Form.loose = form at spans
  induction spans generalizing before with
  | star star _ ih =>
    subst behind
    have rest := orderly.mono (Nat.le_succ before) (Nat.le_refl _)
    exact .star star (ih rfl (leads_star star) (by omega) rest formed)
  | unstarred _ ih => exact .unstarred (ih behind leads low orderly formed)
  | nothing => exact .nothing
  | name named => exact .name named
  | @group _ _ _ _ stop opening grouping _ closing ih =>
    subst behind
    have inside := orderly.mono (Nat.le_succ before) (Nat.le_succ stop)
    have inner := ih rfl (leads_group opening grouping) (by omega) inside formed
    exact .group opening grouping inner closing
  | @array _ _ _ _ place _ _ opening counted fits closing ih =>
    have front := orderly.mono (Nat.le_refl before) (Nat.le_add_right place 3)
    exact .array (ih behind leads low front formed) opening counted fits closing
  | @emptyList _ _ _ _ place _ opening closing ih =>
    have front := orderly.mono (Nat.le_refl before) (Nat.le_add_right place 2)
    exact .emptyList (ih behind leads low front formed) opening closing
  | @list _ _ _ _ _ place stop rest opening entries closing ih inside =>
    have := rest.le
    have := entries.le
    have front : AllOrderly tokens visible entry before place :=
      orderly.mono (by omega) (by omega)
    have rear : AllOrderly tokens visible entry place stop :=
      orderly.mono (by omega) (by omega)
    exact .list (ih behind leads low front formed) opening
      (inside rfl (.inl opening) (by omega) rear formed) closing
  | @laterName _ _ _ place _ rest named ih =>
    have front := orderly.mono (Nat.le_refl before) (Nat.le_succ place)
    have strict := ih behind leads low front formed
    rcases strict.shuts entered behind leads low with rfl | ⟨last, rfl, later, shuts⟩
    · cases strict.eq_of_nothing rfl
      exact .name named
    · rcases (orderly last (by omega) (by omega)).name named with begins | opens
      · exact absurd begins (not_beginsAt_of_shuts shuts (by omega))
      · exact absurd opens (not_opens_of_shuts entered shuts)
  | @laterGroup _ _ _ _ _ _ place stop rest opening grouping inner closing _ ih inside =>
    have := rest.le
    have := inner.le
    have front : AllOrderly tokens visible entry before place :=
      orderly.mono (by omega) (by omega)
    have strict := ih behind leads low front formed
    rcases strict.shuts entered behind leads low with empty | ⟨last, rfl, later, shuts⟩
    · have rear : AllOrderly tokens visible entry place stop :=
        orderly.mono (by omega) (by omega)
      have strictInner := inside rfl (leads_group opening grouping) (by omega) rear formed
      cases strict.eq_of_nothing empty
      subst empty
      exact .group opening grouping strictInner closing
    · rcases (orderly last (by omega) (by omega)).parenthesis opening with list | opens
      · exact absurd list grouping
      · exact absurd opens (not_opens_of_shuts entered shuts)
  | @stray _ _ _ place rest skipped ih =>
    have front := orderly.mono (Nat.le_refl before) (Nat.le_succ place)
    have strict := ih behind leads low front formed
    -- In front of what is skipped stands neither a bracket nor a length.
    obtain ⟨last, rfl, inside, bracket, counted⟩ : ∃ last, place = last + 1 ∧ before ≤ last ∧
        kindAt tokens last ≠ some (.symbol .openBracket) ∧
        ∀ value, kindAt tokens last ≠ some (.integer value) := by
      rcases strict.shuts entered behind leads low with rfl | ⟨last, rfl, later, shuts⟩
      · refine ⟨before, behind, Nat.le_refl _, ?_⟩
        rcases kind_of_opens entered leads.1 with here | here | ⟨_, here⟩ <;> simp [here]
      · refine ⟨last, rfl, Nat.le_of_lt later, ?_⟩
        rcases shuts with here | here | ⟨⟨_, here⟩, _⟩ <;> simp [here]
    have placed := orderly last inside (by omega)
    rcases skipped with closing | ⟨value, here⟩
    · obtain ⟨value, here⟩ := placed.bracket closing
      exact absurd here (counted value)
    · exact absurd (placed.integer here) bracket
  | last typed _ ih =>
    subst behind
    have begins := beginsAt_of_leads leads typed
    have rest := orderly.mono (Nat.le_succ before) (Nat.le_refl _)
    exact .last typed (ih rfl (leads_typed begins typed) (by omega) rest formed)
  | @more _ _ _ _ _ place _ typed declares comma others ih further =>
    subst behind
    have := declares.le
    have := others.le
    have begins := beginsAt_of_leads leads typed
    have front : AllOrderly tokens visible entry (before + 1) place :=
      orderly.mono (by omega) (by omega)
    have rear : AllOrderly tokens visible entry place _ :=
      orderly.mono (by omega) (Nat.le_refl _)
    exact .more typed (ih rfl (leads_typed begins typed) (by omega) front formed) comma
      (further rfl (.inr comma) (by omega) rear formed)

end Spans

end

/-! ## What is read -/

theorem namesType_entered {tokens : Array Token} {visible : String → Option Ty} {entry : Nat}
    {ty : Ty} (typed : NamesType tokens visible entry ty) :
    ∃ spelling, kindAt tokens entry = some (.name spelling) := by
  obtain ⟨spelling, named, _⟩ := typed
  exact ⟨spelling, named⟩

namespace Declares

variable {tokens : Array Token} {state : State} {declared : Declarator} {stop index : Nat}

theorem orderly (declares : Declares .strict tokens state declared stop)
    (low : state.cursor ≤ index) (high : index + 1 < stop) :
    Orderly tokens state.scopes.findType? state.cursor index := by
  obtain ⟨base, typed, spans⟩ := declares
  exact spans.orderly rfl (leads_typed (.inl rfl) typed) low high

theorem strict (declares : Declares .loose tokens state declared stop)
    (orderly : AllOrderly tokens state.scopes.findType? state.cursor state.cursor stop) :
    Declares .strict tokens state declared stop := by
  obtain ⟨base, typed, spans⟩ := declares
  exact ⟨base, typed, spans.strict (namesType_entered typed) rfl (leads_typed (.inl rfl) typed)
    (Nat.le_refl _) orderly⟩

end Declares

namespace Parser

/-- What is read is a declarator of the loose grammar, and nothing but the cursor moves. It is one
of the strict grammar, so that no token of it is passed over, exactly where every token of it has
its place. -/
theorem declares_strict_iff_orderly {tokens : Array Token} {state after : State}
    {declared : Declarator} (run : declarator tokens state = .ok declared after) :
    Declares .loose tokens state declared after.cursor ∧
      after = { state with cursor := after.cursor } ∧
      (Declares .strict tokens state declared after.cursor ↔
        ∀ index, state.cursor ≤ index → index + 1 < after.cursor →
          Orderly tokens state.scopes.findType? state.cursor index) := by
  obtain ⟨declares, _, moved⟩ := runs_declarator_iff.mp run
  refine ⟨declares, moved, ?_, declares.strict⟩
  intro strict index low high
  exact strict.orderly low high

theorem declares_strict_iff_orderly_array : ∃ tokens : Array Token, ∃ declared,
    tokensOf "int32 x[5];" = .ok tokens.toList ∧
      declarator tokens State.initial = .ok declared { State.initial with cursor := 5 } ∧
      (Declares .strict tokens State.initial declared 5 ↔ ∀ index, 0 ≤ index → index + 1 < 5 →
        Orderly tokens State.initial.scopes.findType? 0 index) := by
  obtain ⟨tokens, lexed, kind⟩ := exists_tokens_of_kinds "int32 x[5];"
    [.name "int32", .name "x", .symbol .openBracket, .integer 5, .symbol .closeBracket,
      .symbol .semicolon, .endOfFile] (by decide +kernel)
  have declares : Declares .strict tokens State.initial _ 5 :=
    ⟨_, ⟨"int32", kind 0, rfl⟩,
      .unstarred (.array (.name (kind 1)) (kind 2) (kind 3) (by decide) (kind 4))⟩
  have run := runs_declarator declares ⟨_, kind 5, rfl⟩
  exact ⟨tokens, _, lexed, run, (declares_strict_iff_orderly run).2.2⟩

/-- In `int32 x 5` the integer is passed over: what is read is no declarator of the strict grammar,
whatever it is taken to declare. -/
theorem not_declares_strict_stray : ∃ tokens : Array Token, ∃ declared,
    tokensOf "int32 x 5;" = .ok tokens.toList ∧
      declarator tokens State.initial = .ok declared { State.initial with cursor := 3 } ∧
      ∀ other, ¬Declares .strict tokens State.initial other 3 := by
  obtain ⟨tokens, lexed, kind⟩ := exists_tokens_of_kinds "int32 x 5;"
    [.name "int32", .name "x", .integer 5, .symbol .semicolon, .endOfFile] (by decide +kernel)
  have declares : Declares .loose tokens State.initial _ 3 :=
    ⟨_, ⟨"int32", kind 0, rfl⟩, .unstarred (.stray (.name (kind 1)) (.inr ⟨5, kind 2⟩))⟩
  refine ⟨tokens, _, lexed, runs_declarator declares ⟨_, kind 3, rfl⟩, fun other strict => ?_⟩
  have placed : Orderly tokens State.initial.scopes.findType? 0 1 :=
    strict.orderly (Nat.zero_le 1) (by omega)
  have opening := placed.integer (kind 2)
  rw [kind] at opening
  cases opening

end Parser

end MiniC
