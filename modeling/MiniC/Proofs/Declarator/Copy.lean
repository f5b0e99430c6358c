/-
# MiniC.Proofs.Declarator.Copy — the same declarator elsewhere

Tokens of the same kinds mean the same wherever they stand, apart from places. `Copies` says that
some tokens are repeated elsewhere, among the same or other tokens, and `Spans.copied` that a phrase
of a declarator is then one there as well, with what it means apart from places.
-/
import MiniC.Proofs.Declarator.Grammar
import MiniC.Proofs.Unplaced

namespace MiniC

set_option autoImplicit false

variable {tokens tokens' : Array Token}

/-! ## Kinds in a row -/

/-- Tokens of these kinds stand one behind the other from the index on. -/
def KindsAt (tokens : Array Token) (index : Nat) : List Kind → Prop
  | [] => True
  | kind :: rest => kindAt tokens index = some kind ∧ KindsAt tokens (index + 1) rest

instance (tokens : Array Token) (index : Nat) : (kinds : List Kind) →
    Decidable (KindsAt tokens index kinds)
  | [] => .isTrue trivial
  | _ :: rest =>
    have := instDecidableKindsAt tokens (index + 1) rest
    inferInstanceAs (Decidable (_ ∧ _))

theorem kindsAt_append {one other : List Kind} {index : Nat} :
    KindsAt tokens index (one ++ other) ↔
      KindsAt tokens index one ∧ KindsAt tokens (index + one.length) other := by
  induction one generalizing index with
  | nil => simp [KindsAt]
  | cons kind rest ih =>
    rw [List.cons_append, KindsAt, KindsAt, ih, and_assoc, List.length_cons, Nat.add_assoc,
      Nat.add_comm 1]

theorem KindsAt.kindAt_eq {kinds : List Kind} {index : Nat} (kindsAt : KindsAt tokens index kinds)
    {distance : Nat} (within : distance < kinds.length) :
    kindAt tokens (index + distance) = kinds[distance]? := by
  induction kinds generalizing index distance with
  | nil => cases within
  | cons kind rest ih =>
    obtain ⟨here, later⟩ := kindsAt
    cases distance with
    | zero => exact here
    | succ distance =>
      rw [List.getElem?_cons_succ, ← ih later (Nat.lt_of_succ_lt_succ within), Nat.add_assoc,
        Nat.add_comm 1]

/-! ## Copies -/

/-- The kinds of the tokens from `start` up to `stop` are repeated in a row where `move` puts
them. -/
structure Copies (tokens tokens' : Array Token) (move : Nat → Nat) (start stop : Nat) : Prop where
  add : ∀ index distance, start ≤ index → move (index + distance) = move index + distance
  kind : ∀ index, start ≤ index → index < stop →
    kindAt tokens' (move index) = kindAt tokens index

/-- Tokens of the same kinds in a row are copies of each other. -/
theorem KindsAt.copies {kinds : List Kind} {index index' : Nat}
    (kindsAt : KindsAt tokens index kinds) (kindsAt' : KindsAt tokens' index' kinds) :
    Copies tokens tokens' (fun place => place - index + index') index
      (index + kinds.length) where
  add := by
    intro place distance low
    omega
  kind := by
    intro place low high
    have within : place - index < kinds.length := by omega
    have here := kindsAt.kindAt_eq within
    rw [Nat.add_sub_cancel' low] at here
    rw [here, Nat.add_comm, kindsAt'.kindAt_eq within]

namespace Copies

variable {move : Nat → Nat} {start stop : Nat}

theorem mono (copies : Copies tokens tokens' move start stop) {low high : Nat} (later : start ≤ low)
    (earlier : high ≤ stop) : Copies tokens tokens' move low high where
  add index distance above := copies.add index distance (Nat.le_trans later above)
  kind index above below :=
    copies.kind index (Nat.le_trans later above) (Nat.lt_of_lt_of_le below earlier)

variable (copies : Copies tokens tokens' move start stop) {visible : String → Option Ty} {ty : Ty}
  {kind : Kind} {index : Nat}

include copies

theorem kindAt (low : start ≤ index) (high : index < stop)
    (here : MiniC.kindAt tokens index = some kind) :
    MiniC.kindAt tokens' (move index) = some kind :=
  (copies.kind index low high).trans here

theorem kindAt_add {distance : Nat} (low : start ≤ index) (high : index + distance < stop)
    (here : MiniC.kindAt tokens (index + distance) = some kind) :
    MiniC.kindAt tokens' (move index + distance) = some kind := by
  rw [← copies.add index distance low]
  exact copies.kindAt (Nat.le_trans low (Nat.le_add_right _ _)) high here

theorem namesType_iff (low : start ≤ index) (high : index < stop) :
    NamesType tokens' visible (move index) ty ↔ NamesType tokens visible index ty := by
  rw [NamesType, NamesType, copies.kind index low high]

theorem opensList_iff (low : start ≤ index) (high : index + 1 < stop) :
    OpensList tokens' visible (move index + 1) ↔ OpensList tokens visible (index + 1) := by
  rw [OpensList, OpensList, ← copies.add index 1 low, copies.kind _ (by omega) high]
  exact or_congr Iff.rfl (exists_congr fun _ => copies.namesType_iff (by omega) high)

end Copies

/-! ## Declarators -/

/-- What is declared, apart from where. -/
def Declarator.unplaced (declared : Declarator) : Declarator :=
  ⟨declared.ty.unplaced, declared.name.map fun name => ⟨name.name, Position.start⟩⟩

namespace Declarator

variable {one other : Declarator}

theorem name_eq_none_of_unplaced (same : other.unplaced = one.unplaced)
    (unnamed : one.name = none) : other.name = none := by
  have names := congrArg Declarator.name same
  simpa [unplaced, unnamed] using names

theorem toParameter_of_unplaced (same : other.unplaced = one.unplaced) (first first' : Position) :
    (other.toParameter first').unplaced = (one.toParameter first).unplaced := by
  obtain ⟨ty, name⟩ := one
  obtain ⟨ty', name'⟩ := other
  simp only [unplaced, Declarator.mk.injEq] at same
  have names := congrArg (Option.map DeclaredName.name) same.2
  simp only [Option.map_map, Function.comp_def] at names
  simp [toParameter, Parameter.unplaced, same.1, names]

end Declarator

/-- Among the other tokens the same phrase, apart from places, stands from `start` up to `stop`; a
declarator does so over any type that is the same apart from places. -/
def Phrase.Copied (tokens' : Array Token) (visible : String → Option Ty) (form : Form)
    (start stop : Nat) : Phrase → Prop
  | whole base declared => ∀ base' : Ty, base'.unplaced = base.unplaced → ∃ declared' : Declarator,
    declared'.unplaced = declared.unplaced ∧
      Spans tokens' visible form (.whole base' declared') start stop
  | core base declared => ∀ base' : Ty, base'.unplaced = base.unplaced → ∃ declared' : Declarator,
    declared'.unplaced = declared.unplaced ∧
      Spans tokens' visible form (.core base' declared') start stop
  | entries parameters => ∃ parameters' : List (Parameter Ty),
    parameters'.map Parameter.unplaced = parameters.map Parameter.unplaced ∧
      Spans tokens' visible form (.entries parameters') start stop

/-- A phrase of a declarator is one wherever its tokens are repeated. -/
theorem Spans.copied {visible : String → Option Ty} {form : Form} {phrase : Phrase}
    {move : Nat → Nat} {start stop : Nat} (spans : Spans tokens visible form phrase start stop)
    (copies : Copies tokens tokens' move start stop) :
    phrase.Copied tokens' visible form (move start) (move stop) := by
  induction spans with
  | @star _ _ _ start stop star rest ih =>
    have further := rest.le
    intro base' same
    obtain ⟨declared', same', spans⟩ := ih (copies.mono (by omega) (by omega))
      (.pointer ⟨.site (placeAt tokens' (move start)), none⟩ base')
      (by simp [Ty.unplaced, Tag.unplaced, same])
    rw [copies.add start 1 (Nat.le_refl _)] at spans
    exact ⟨declared', same', .star (copies.kindAt (Nat.le_refl _) (by omega) star) spans⟩
  | unstarred _ ih =>
    intro base' same
    obtain ⟨declared', same', spans⟩ := ih copies base' same
    exact ⟨declared', same', .unstarred spans⟩
  | nothing =>
    intro base' same
    exact ⟨⟨base', none⟩, by simp [Declarator.unplaced, same], .nothing⟩
  | @name _ _ start _ named =>
    intro base' same
    have here := copies.kindAt (Nat.le_refl _) (Nat.lt_succ_self _) named
    rw [copies.add start 1 (Nat.le_refl _)]
    exact ⟨_, by simp [Declarator.unplaced, same], .name here⟩
  | @group _ _ _ start stop opening grouping inner closing ih =>
    have further := inner.le
    intro base' same
    obtain ⟨declared', same', spans⟩ := ih (copies.mono (by omega) (by omega)) base' same
    rw [copies.add start 1 (Nat.le_refl _)] at spans
    rw [copies.add stop 1 (by omega)]
    exact ⟨declared', same', .group (copies.kindAt (Nat.le_refl _) (by omega) opening)
      (mt (copies.opensList_iff (Nat.le_refl _) (by omega)).mp grouping) spans
      (copies.kindAt (by omega) (by omega) closing)⟩
  | @array _ _ _ start place length rest opening counted fits closing ih =>
    have further := rest.le
    intro base' same
    obtain ⟨declared', same', spans⟩ := ih (copies.mono (by omega) (by omega))
      (.array ⟨.site (placeAt tokens' (move place)), none⟩ base' (UInt64.ofNat length))
      (by simp [Ty.unplaced, Tag.unplaced, same])
    rw [copies.add place 3 further]
    exact ⟨declared', same', .array spans (copies.kindAt further (by omega) opening)
      (copies.kindAt_add further (by omega) counted) fits
      (copies.kindAt_add further (by omega) closing)⟩
  | @emptyList _ _ _ start place rest opening closing ih =>
    have further := rest.le
    intro base' same
    obtain ⟨declared', same', spans⟩ := ih (copies.mono (by omega) (by omega))
      (.function ⟨.site (placeAt tokens' (move place)), none⟩ base' [])
      (by simp [Tag.unplaced, same])
    rw [copies.add place 2 further]
    exact ⟨declared', same', .emptyList spans (copies.kindAt further (by omega) opening)
      (copies.kindAt_add further (by omega) closing)⟩
  | @list _ _ _ _ start place stop rest opening entries closing ih inside =>
    have further := rest.le
    have furtherOn := entries.le
    intro base' same
    obtain ⟨parameters', sameParameters, within⟩ := inside (copies.mono (by omega) (by omega))
    obtain ⟨declared', same', spans⟩ := ih (copies.mono (by omega) (by omega))
      (.function ⟨.site (placeAt tokens' (move place)), none⟩ base' parameters')
      (by simp [Tag.unplaced, same, sameParameters])
    rw [copies.add place 1 further] at within
    rw [copies.add stop 1 (by omega)]
    exact ⟨declared', same', .list spans (copies.kindAt further (by omega) opening) within
      (copies.kindAt (by omega) (by omega) closing)⟩
  | @laterName _ _ start place _ rest named ih =>
    have further := rest.le
    intro base' same
    obtain ⟨⟨ty', name'⟩, same', spans⟩ := ih (copies.mono (by omega) (by omega)) base' same
    obtain rfl : name' = none := Declarator.name_eq_none_of_unplaced same' rfl
    rw [copies.add place 1 further]
    refine ⟨_, ?_, .laterName spans (copies.kindAt further (by omega) named)⟩
    have tys : ty'.unplaced = _ := congrArg Declarator.ty same'
    simpa [Declarator.unplaced] using tys
  | @laterGroup _ _ _ inside outside start place stop rest opening grouping inner closing once ih
      ihInner =>
    have further := rest.le
    have furtherOn := inner.le
    intro base' same
    obtain ⟨⟨between', inside'⟩, same', within⟩ :=
      ihInner (copies.mono (by omega) (by omega)) base' same
    simp only [Declarator.unplaced, Declarator.mk.injEq] at same'
    obtain ⟨⟨ty', outside'⟩, sameOutside, spans⟩ :=
      ih (copies.mono (by omega) (by omega)) between' same'.1
    simp only [Declarator.unplaced, Declarator.mk.injEq] at sameOutside
    rw [copies.add place 1 further] at within
    rw [copies.add stop 1 (by omega)]
    refine ⟨_, ?_, .laterGroup spans (copies.kindAt further (by omega) opening)
      (mt (copies.opensList_iff further (by omega)).mp grouping) within
      (copies.kindAt (by omega) (by omega) closing) ?_⟩
    · simp [Declarator.unplaced, sameOutside.1, Option.map_or, sameOutside.2, same'.2]
    · rcases once with rfl | rfl
      · exact .inl (by simpa using same'.2)
      · exact .inr (by simpa using sameOutside.2)
  | @stray _ _ start place rest skipped ih =>
    have further := rest.le
    intro base' same
    obtain ⟨declared', same', spans⟩ := ih (copies.mono (by omega) (by omega)) base' same
    rw [copies.add place 1 further]
    refine ⟨declared', same', .stray spans ?_⟩
    rwa [copies.kind place further (by omega)]
  | @last _ base _ start stop typed declares ih =>
    have further := declares.le
    obtain ⟨declared', same', spans⟩ := ih (copies.mono (by omega) (by omega)) base rfl
    rw [copies.add start 1 (Nat.le_refl _)] at spans
    have named := (copies.namesType_iff (Nat.le_refl _) (by omega)).mpr typed
    refine ⟨_, ?_, .last named spans⟩
    rw [List.map_singleton, List.map_singleton,
      Declarator.toParameter_of_unplaced same' (placeAt tokens start)]
  | @more _ base _ _ start place stop typed declares comma others ih ihOthers =>
    have further := declares.le
    have furtherOn := others.le
    obtain ⟨declared', same', spans⟩ := ih (copies.mono (by omega) (by omega)) base rfl
    obtain ⟨parameters', sameParameters, behind⟩ := ihOthers (copies.mono (by omega) (by omega))
    rw [copies.add start 1 (Nat.le_refl _)] at spans
    rw [copies.add place 1 (by omega)] at behind
    have named := (copies.namesType_iff (Nat.le_refl _) (by omega)).mpr typed
    refine ⟨_, ?_, .more named spans (copies.kindAt (by omega) (by omega) comma) behind⟩
    rw [List.map_cons, List.map_cons, sameParameters,
      Declarator.toParameter_of_unplaced same' (placeAt tokens start)]

end MiniC
