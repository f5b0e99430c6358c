/-
# MiniC.Proofs.Tokens — what stands at an index

The kind of the token at an index and its place. There is a kind exactly where there is a token.
The tokens between two indices are put together from those up to an index between them and those
from there on.
-/
import MiniC.Token

namespace MiniC

set_option autoImplicit false

/-- The kind of the token at an index. -/
def kindAt (tokens : Array Token) (index : Nat) : Option Kind :=
  tokens[index]?.map Token.kind

/-- The place of the token at an index. -/
def placeAt (tokens : Array Token) (index : Nat) : Position :=
  (tokens[index]?.map Token.position).getD Position.start

variable {tokens : Array Token} {index : Nat} {token : Token} {kind : Kind}

theorem kindAt_of_getElem? (here : tokens[index]? = some token) :
    kindAt tokens index = some token.kind := by
  rw [kindAt, here]
  rfl

theorem placeAt_of_getElem? (here : tokens[index]? = some token) :
    placeAt tokens index = token.position := by
  rw [placeAt, here]
  rfl

theorem kindAt_eq_some (found : kindAt tokens index = some kind) :
    ∃ token, tokens[index]? = some token ∧ token.kind = kind ∧
      token.position = placeAt tokens index := by
  obtain ⟨token, here, same⟩ := Option.map_eq_some_iff.mp found
  exact ⟨token, here, same, (placeAt_of_getElem? here).symm⟩

theorem lt_size_of_kindAt (found : kindAt tokens index = some kind) : index < tokens.size := by
  obtain ⟨token, here, _⟩ := kindAt_eq_some found
  exact (Array.getElem?_eq_some_iff.mp here).1

theorem isSome_kindAt (within : index < tokens.size) : (kindAt tokens index).isSome := by
  rw [kindAt, Array.getElem?_eq_getElem within]
  rfl

/-! ## Between two indices -/

/-- The tokens from `start` up to `stop`. -/
def tokensBetween (tokens : Array Token) (start stop : Nat) : List Token :=
  (tokens.extract start stop).toList

section Between

variable {start place stop : Nat}

@[simp] theorem tokensBetween_self : tokensBetween tokens start start = [] := by
  simp [tokensBetween]

theorem tokensBetween_append (low : start ≤ place) (high : place ≤ stop) :
    tokensBetween tokens start place ++ tokensBetween tokens place stop =
      tokensBetween tokens start stop := by
  rw [tokensBetween, tokensBetween, ← Array.toList_append, Array.extract_append_extract,
    Nat.min_eq_left low, Nat.max_eq_right high]
  rfl

theorem tokensBetween_succ (here : tokens[index]? = some token) :
    tokensBetween tokens index (index + 1) = [token] := by
  obtain ⟨within, rfl⟩ := Array.getElem?_eq_some_iff.mp here
  rw [tokensBetween, Array.toList_extract, List.extract_eq_take_drop, Nat.add_sub_cancel_left,
    List.drop_eq_getElem_cons (by simpa using within)]
  simp

/-- The first token comes first. -/
theorem tokensBetween_cons (here : tokens[start]? = some token) (later : start < stop) :
    tokensBetween tokens start stop = token :: tokensBetween tokens (start + 1) stop := by
  rw [← tokensBetween_append (Nat.le_succ start) later, tokensBetween_succ here]
  rfl

/-- The last token comes last. -/
theorem tokensBetween_concat (here : tokens[stop]? = some token) (later : start ≤ stop) :
    tokensBetween tokens start (stop + 1) = tokensBetween tokens start stop ++ [token] := by
  rw [← tokensBetween_append later (Nat.le_succ stop), tokensBetween_succ here]

end Between

end MiniC
