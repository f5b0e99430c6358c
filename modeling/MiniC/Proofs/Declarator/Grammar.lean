/-
# MiniC.Proofs.Declarator.Grammar — what a declarator means

The grammar of declarators over the tokens of a file, with the type that each phrase makes of the
type it starts from:

* a `*` in front is a pointer to the type, for what stands behind it;
* a last `[N]` is an array of the type and a last parameter list a function that returns it, for
  what stands in front;
* a group is the declarator in it, and a name is the name that is declared;
* an entry of a parameter list is the name of a type and a declarator.

`Spans tokens visible form phrase start stop` says that the tokens from `start` up to `stop` are
the phrase, where `visible` tells the names of types. In the strict form a name or a group comes
first and only suffixes follow. The loose form is wider: names and groups may stand behind
suffixes, as long as one name is declared in all, and an integer or a `]` may stand wherever a
suffix may and means nothing.
-/
import MiniC.Parser.Declarator
import MiniC.Proofs.Tokens

namespace MiniC

set_option autoImplicit false

/-! ## Tokens that tell -/

/-- Whether a declarator ends in front of such a token. -/
def Kind.endsDeclarator : Kind → Bool
  | .endOfFile | .symbol .semicolon | .symbol .equal | .symbol .comma | .symbol .openBrace
  | .symbol .closeParen => true
  | _ => false

/-- A token in front of which a declarator ends stands there. -/
def EndsAt (tokens : Array Token) (index : Nat) : Prop :=
  ∃ kind, kindAt tokens index = some kind ∧ kind.endsDeclarator

/-- The name of a type stands there. -/
def NamesType (tokens : Array Token) (visible : String → Option Ty) (index : Nat) (ty : Ty) :
    Prop :=
  ∃ spelling, kindAt tokens index = some (.name spelling) ∧ visible spelling = some ty

/-- A parenthesis in front of this token opens a parameter list. -/
def OpensList (tokens : Array Token) (visible : String → Option Ty) (index : Nat) : Prop :=
  kindAt tokens index = some (.symbol .closeParen) ∨ ∃ ty, NamesType tokens visible index ty

/-! ## Phrases -/

/-- What tokens can be, with what it means. -/
inductive Phrase where
  /-- A declarator over a type. -/
  | whole (base : Ty) (declared : Declarator)
  /-- A declarator over a type without a `*` in front. -/
  | core (base : Ty) (declared : Declarator)
  /-- The entries of a parameter list that is not empty. -/
  | entries (parameters : List (Parameter Ty))

/-- How much the order of the parts of a declarator is looked at. -/
inductive Form where
  | strict
  | loose

/-- The parameter that a declarator behind a type name at `first` makes. -/
def Declarator.toParameter (declared : Declarator) (first : Position) : Parameter Ty :=
  ⟨declared.name.map (·.name), declared.ty, (declared.name.map (·.position)).getD first⟩

/-- The tokens from `start` up to `stop` are the phrase. Lengths stay below `UInt64.size`; those
that are read from a source do, since its literals are at most `maxLiteral`. -/
inductive Spans (tokens : Array Token) (visible : String → Option Ty) :
    Form → Phrase → (start stop : Nat) → Prop
  | star {form : Form} {base : Ty} {declared : Declarator} {start stop : Nat}
      (star : kindAt tokens start = some (.symbol .star))
      (rest : Spans tokens visible form
        (.whole (.pointer ⟨.site (placeAt tokens start), none⟩ base) declared) (start + 1) stop) :
      Spans tokens visible form (.whole base declared) start stop
  | unstarred {form : Form} {base : Ty} {declared : Declarator} {start stop : Nat}
      (core : Spans tokens visible form (.core base declared) start stop) :
      Spans tokens visible form (.whole base declared) start stop
  | nothing {form : Form} {base : Ty} {start : Nat} :
      Spans tokens visible form (.core base ⟨base, none⟩) start start
  | name {form : Form} {base : Ty} {start : Nat} {spelling : String}
      (named : kindAt tokens start = some (.name spelling)) :
      Spans tokens visible form (.core base ⟨base, some ⟨spelling, placeAt tokens start⟩⟩)
        start (start + 1)
  | group {form : Form} {base : Ty} {declared : Declarator} {start stop : Nat}
      (opening : kindAt tokens start = some (.symbol .openParen))
      (grouping : ¬OpensList tokens visible (start + 1))
      (inner : Spans tokens visible form (.whole base declared) (start + 1) stop)
      (closing : kindAt tokens stop = some (.symbol .closeParen)) :
      Spans tokens visible form (.core base declared) start (stop + 1)
  | array {form : Form} {base : Ty} {declared : Declarator} {start place length : Nat}
      (rest : Spans tokens visible form
        (.core (.array ⟨.site (placeAt tokens place), none⟩ base (UInt64.ofNat length)) declared)
        start place)
      (opening : kindAt tokens place = some (.symbol .openBracket))
      (counted : kindAt tokens (place + 1) = some (.integer length)) (fits : length < UInt64.size)
      (closing : kindAt tokens (place + 2) = some (.symbol .closeBracket)) :
      Spans tokens visible form (.core base declared) start (place + 3)
  | emptyList {form : Form} {base : Ty} {declared : Declarator} {start place : Nat}
      (rest : Spans tokens visible form
        (.core (.function ⟨.site (placeAt tokens place), none⟩ base []) declared) start place)
      (opening : kindAt tokens place = some (.symbol .openParen))
      (closing : kindAt tokens (place + 1) = some (.symbol .closeParen)) :
      Spans tokens visible form (.core base declared) start (place + 2)
  | list {form : Form} {base : Ty} {declared : Declarator} {parameters : List (Parameter Ty)}
      {start place stop : Nat}
      (rest : Spans tokens visible form
        (.core (.function ⟨.site (placeAt tokens place), none⟩ base parameters) declared)
        start place)
      (opening : kindAt tokens place = some (.symbol .openParen))
      (entries : Spans tokens visible form (.entries parameters) (place + 1) stop)
      (closing : kindAt tokens stop = some (.symbol .closeParen)) :
      Spans tokens visible form (.core base declared) start (stop + 1)
  | laterName {base ty : Ty} {start place : Nat} {spelling : String}
      (rest : Spans tokens visible .loose (.core base ⟨ty, none⟩) start place)
      (named : kindAt tokens place = some (.name spelling)) :
      Spans tokens visible .loose (.core base ⟨ty, some ⟨spelling, placeAt tokens place⟩⟩)
        start (place + 1)
  | laterGroup {base between ty : Ty} {inside outside : Option DeclaredName}
      {start place stop : Nat}
      (rest : Spans tokens visible .loose (.core between ⟨ty, outside⟩) start place)
      (opening : kindAt tokens place = some (.symbol .openParen))
      (grouping : ¬OpensList tokens visible (place + 1))
      (inner : Spans tokens visible .loose (.whole base ⟨between, inside⟩) (place + 1) stop)
      (closing : kindAt tokens stop = some (.symbol .closeParen))
      (once : inside = none ∨ outside = none) :
      Spans tokens visible .loose (.core base ⟨ty, outside.or inside⟩) start (stop + 1)
  | stray {base : Ty} {declared : Declarator} {start place : Nat}
      (rest : Spans tokens visible .loose (.core base declared) start place)
      (skipped : kindAt tokens place = some (.symbol .closeBracket) ∨
        ∃ value, kindAt tokens place = some (.integer value)) :
      Spans tokens visible .loose (.core base declared) start (place + 1)
  | last {form : Form} {base : Ty} {declared : Declarator} {start stop : Nat}
      (typed : NamesType tokens visible start base)
      (declares : Spans tokens visible form (.whole base declared) (start + 1) stop) :
      Spans tokens visible form (.entries [declared.toParameter (placeAt tokens start)]) start stop
  | more {form : Form} {base : Ty} {declared : Declarator} {parameters : List (Parameter Ty)}
      {start place stop : Nat}
      (typed : NamesType tokens visible start base)
      (declares : Spans tokens visible form (.whole base declared) (start + 1) place)
      (comma : kindAt tokens place = some (.symbol .comma))
      (others : Spans tokens visible form (.entries parameters) (place + 1) stop) :
      Spans tokens visible form
        (.entries (declared.toParameter (placeAt tokens start) :: parameters)) start stop

namespace Spans

variable {tokens : Array Token} {visible : String → Option Ty} {form : Form} {phrase : Phrase}
  {start stop : Nat}

theorem le (spans : Spans tokens visible form phrase start stop) : start ≤ stop := by
  induction spans <;> omega

/-- Where there are no tokens, nothing is declared. -/
theorem eq_of_nothing {base : Ty} {declared : Declarator}
    (spans : Spans tokens visible form (.core base declared) start stop) (empty : start = stop) :
    declared = ⟨base, none⟩ := by
  cases spans with
  | nothing => rfl
  | name => omega
  | group _ _ inner => have := inner.le; omega
  | array rest | emptyList rest | laterName rest | stray rest => have := rest.le; omega
  | list rest _ entries => have := rest.le; have := entries.le; omega
  | laterGroup rest _ _ inner => have := rest.le; have := inner.le; omega

/-- Entries begin with the name of a type. -/
theorem namesType_of_entries {parameters : List (Parameter Ty)}
    (spans : Spans tokens visible form (.entries parameters) start stop) :
    ∃ ty, NamesType tokens visible start ty := by
  cases spans with
  | last typed | more typed => exact ⟨_, typed⟩

end Spans

/-- The tokens from the cursor up to `stop` are the name of a type and a declarator over it. -/
def Declares (form : Form) (tokens : Array Token) (state : State) (declared : Declarator)
    (stop : Nat) : Prop :=
  ∃ base, NamesType tokens state.scopes.findType? state.cursor base ∧
    Spans tokens state.scopes.findType? form (.whole base declared) (state.cursor + 1) stop

end MiniC
