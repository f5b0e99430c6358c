/-
# MiniC.Proofs.Relocation.Transfer — from the places of some tokens to those of others

The places of a source's tokens are all different. So where two sources have as many tokens, the
place of each token of the one can be moved to that of the same token of the other. `transfer` does
so, and moves every other place behind all of them, which makes it one-to-one on all places.

* `injective_transfer` — no two places are moved to one.
* `transfer_self_iff` — among the same places it is these that stay.
* `Alignment.transfer` — tokens of the same kinds are aligned.
-/
import MiniC.Proofs.Accuracy
import MiniC.Proofs.Relocation
import MiniC.Proofs.Tokens

namespace MiniC

set_option autoImplicit false

/-- An offset behind all the places. -/
def beyond : List Position → Nat
  | [] => 0
  | place :: rest => max (place.offset + 1) (beyond rest)

theorem offset_lt_beyond {places : List Position} {place : Position} (member : place ∈ places) :
    place.offset < beyond places := by
  induction places with
  | nil => cases member
  | cons first rest ih =>
    rw [beyond]
    rcases List.mem_cons.mp member with rfl | later
    · omega
    · have := ih later
      omega

/-- The place as far behind `distance`. -/
def Position.further (distance : Nat) (place : Position) : Position :=
  ⟨place.offset + distance, place.line, place.column⟩

theorem Position.further_inj {distance : Nat} {one other : Position}
    (same : one.further distance = other.further distance) : one = other := by
  obtain ⟨offset, line, column⟩ := one
  simp only [further, Position.mk.injEq, Nat.add_right_cancel_iff] at same
  obtain ⟨rfl, rfl, rfl⟩ := same
  rfl

/-- Moves the first places to the second, one by one, and any other place behind these. -/
def transfer (places places' : List Position) (place : Position) : Position :=
  if place ∈ places then places'.getD (places.idxOf place) Position.start
  else place.further (beyond places')

section

variable {places places' : List Position} (same : places.length = places'.length)

include same

theorem transfer_of_mem {place : Position} (member : place ∈ places) :
    ∃ within : places.idxOf place < places'.length,
      transfer places places' place = places'[places.idxOf place] := by
  have within : places.idxOf place < places'.length := same ▸ List.idxOf_lt_length_of_mem member
  refine ⟨within, ?_⟩
  rw [transfer, if_pos member, List.getD_eq_getElem?_getD, List.getElem?_eq_getElem within]
  rfl

theorem transfer_offset_lt_iff (place : Position) :
    (transfer places places' place).offset < beyond places' ↔ place ∈ places := by
  by_cases member : place ∈ places
  · obtain ⟨within, moved⟩ := transfer_of_mem same member
    exact iff_of_true (moved ▸ offset_lt_beyond (List.getElem_mem within)) member
  · rw [transfer, if_neg member]
    exact iff_of_false (Nat.not_lt.mpr (Nat.le_add_left _ _)) member

/-- No two places are moved to one. -/
theorem injective_transfer (apart : places'.Nodup) : Function.Injective (transfer places places') := by
  intro one other moved
  have together : one ∈ places ↔ other ∈ places := by
    rw [← transfer_offset_lt_iff same, moved, transfer_offset_lt_iff same]
  by_cases member : one ∈ places
  · obtain ⟨within, here⟩ := transfer_of_mem same member
    obtain ⟨otherWithin, there⟩ := transfer_of_mem same (together.mp member)
    rw [here, there] at moved
    have index : places.idxOf one = places.idxOf other := by
      rw [← apart.idxOf_getElem _ within, ← apart.idxOf_getElem _ otherWithin, moved]
    have first := List.getElem_idxOf (List.idxOf_lt_length_of_mem member)
    have second := List.getElem_idxOf (List.idxOf_lt_length_of_mem (together.mp member))
    rw [← first, ← second]
    simp only [index]
  · rw [transfer, transfer, if_neg member, if_neg (mt together.mpr member)] at moved
    exact Position.further_inj moved

theorem transfer_getElem (apart : places.Nodup) {index : Nat} (within : index < places.length)
    (within' : index < places'.length) :
    transfer places places' places[index] = places'[index] := by
  obtain ⟨_, moved⟩ := transfer_of_mem same (List.getElem_mem within)
  rw [moved]
  simp only [apart.idxOf_getElem index within]

end

/-- Among the same places it is these that stay. -/
theorem transfer_self_iff {places : List Position} (apart : places.Nodup) (some : places ≠ [])
    (place : Position) : transfer places places place = place ↔ place ∈ places := by
  constructor
  · intro stays
    by_cases member : place ∈ places
    · exact member
    · rw [transfer, if_neg member] at stays
      have := congrArg Position.offset stays
      obtain ⟨first, rest, rfl⟩ := List.exists_cons_of_ne_nil some
      have := offset_lt_beyond (List.mem_cons_self : first ∈ first :: rest)
      simp only [Position.further] at *
      omega
  · intro member
    obtain ⟨index, within, rfl⟩ := List.getElem_of_mem member
    exact transfer_getElem rfl apart within within

/-! ## Tokens -/

/-- Tokens stand at places of their own. -/
theorem nodup_position_of_tokensOf {source : String} {tokens : List Token}
    (found : tokensOf source = .ok tokens) : (tokens.map Token.position).Nodup := by
  refine List.pairwise_map.mpr ((pairwise_offset_of_tokensOf found).imp fun less same => ?_)
  rw [same] at less
  exact Nat.lt_irrefl _ less

/-- Different tokens have different places. -/
theorem eq_of_placeAt_eq {source : String} {tokens : List Token}
    (found : tokensOf source = .ok tokens) {one other : Nat} {kind otherKind : Kind}
    (here : kindAt tokens.toArray one = some kind)
    (there : kindAt tokens.toArray other = some otherKind)
    (same : placeAt tokens.toArray one = placeAt tokens.toArray other) : one = other := by
  obtain ⟨token, present, _, place⟩ := kindAt_eq_some here
  obtain ⟨otherToken, otherPresent, _, otherPlace⟩ := kindAt_eq_some there
  rw [List.getElem?_toArray] at present otherPresent
  have apart := nodup_position_of_tokensOf found
  have within := (List.getElem?_eq_some_iff.mp present).1
  refine (List.getElem?_inj (by rwa [List.length_map]) apart).mp ?_
  rw [List.getElem?_map, List.getElem?_map, present, otherPresent, Option.map_some, Option.map_some,
    place, otherPlace, same]

/-- Tokens of the same kinds are aligned. -/
def Alignment.transfer {tokens tokens' : List Token}
    (same : tokens.map Token.kind = tokens'.map Token.kind)
    (apart : (tokens.map Token.position).Nodup) (apart' : (tokens'.map Token.position).Nodup) :
    Alignment tokens.toArray tokens'.toArray where
  move := MiniC.transfer (tokens.map Token.position) (tokens'.map Token.position)
  shift := 0
  injective := injective_transfer (by simpa using congrArg List.length same) apart'
  size_eq := by simpa using (congrArg List.length same).symm
  token := by
    intro index token here
    have lengths : tokens.length = tokens'.length := by simpa using congrArg List.length same
    rw [List.getElem?_toArray] at here
    obtain ⟨within, rfl⟩ := List.getElem?_eq_some_iff.mp here
    have within' : index < tokens'.length := lengths ▸ within
    have kinds : tokens[index].kind = tokens'[index].kind := by
      have kind := congrArg (·[index]?) same
      simpa [within, within'] using kind
    have place : MiniC.transfer (tokens.map Token.position) (tokens'.map Token.position)
        tokens[index].position = tokens'[index].position := by
      have moved := transfer_getElem (show (tokens.map Token.position).length =
        (tokens'.map Token.position).length by simpa using lengths) apart
        (show index < (tokens.map Token.position).length by simpa using within)
        (show index < (tokens'.map Token.position).length by simpa using within')
      simpa only [List.getElem_map] using moved
    refine ⟨tokens'[index].length, ?_⟩
    rw [place, kinds, List.getElem?_toArray]
    exact List.getElem?_eq_getElem _

end MiniC
