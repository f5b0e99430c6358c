/-
# MiniC.Proofs.Expression.Yield — expressions take up their tokens

A tree can be written back: a literal or a name is its token, an operator stands before its operand
or between its two, and a cast and the arguments of a call stand in parentheses of their own. That
is all of the source that a tree tells; grouping parentheses leave no trace in it.
`Unparses` writes a tree back in both ways at once, without the groups and with some put in.

Reading an expression takes up, in order, the tokens that writing it back with suitable groups
yields, and places every node where the first of the tokens stands that it is written back with
without them: `unparses_of_runs`.
-/
import MiniC.Proofs.Expression.Completeness
import MiniC.Source

namespace MiniC

set_option autoImplicit false

/-! ## Writing back -/

/-- The first of the tokens stands at the place. -/
def StartsAt (written : List Token) (place : Position) : Prop :=
  written.head?.map Token.position = some place

theorem StartsAt.append {written : List Token} {place : Position} (starts : StartsAt written place)
    (more : List Token) : StartsAt (written ++ more) place := by
  cases written with
  | nil => cases starts
  | cons first rest => exact starts

/-- What is written back. -/
inductive Piece where
  | expression (value : Expression)
  /-- The arguments of a call. -/
  | arguments (values : List Expression)

/-- In source order the piece is written back as `own`, and as `shown` with balanced parentheses
around some of its expressions. Every node stands where the first of its own tokens does. A cast
shows the tokens that its declarator was read from, with the scopes of the state. -/
inductive Unparses (tokens : Array Token) (state : State) :
    Piece → (own shown : List Token) → Prop
  | integer {ty : Ty} {number : Nat} {position : Position} {token : Token}
      (word : token.kind = .integer number) (starts : StartsAt [token] position) :
      Unparses tokens state (.expression (.integer ty number position)) [token] [token]
  | name {declaration : Declaration} {spelling : String} {position : Position} {token : Token}
      (word : token.kind = .name spelling) (starts : StartsAt [token] position) :
      Unparses tokens state (.expression (.name declaration spelling position)) [token] [token]
  | unary {ty : Ty} {operator : UnaryOperator} {operand : Expression} {position : Position}
      {mark : Token} {own shown : List Token} (word : mark.kind = .symbol operator.symbol)
      (behind : Unparses tokens state (.expression operand) own shown)
      (starts : StartsAt (mark :: own) position) :
      Unparses tokens state (.expression (.unary ty operator operand position)) (mark :: own)
        (mark :: shown)
  | binary {ty : Ty} {operator : BinaryOperator} {left right : Expression} {position : Position}
      {mark : Token} {own shown own' shown' : List Token}
      (before : Unparses tokens state (.expression left) own shown)
      (word : mark.kind = .symbol operator.symbol)
      (behind : Unparses tokens state (.expression right) own' shown')
      (starts : StartsAt (own ++ mark :: own') position) :
      Unparses tokens state (.expression (.binary ty operator left right position))
        (own ++ mark :: own') (shown ++ mark :: shown')
  | cast {ty : Ty} {operand : Expression} {position : Position} {opening closing : Token}
      {start stop : Nat} {own shown : List Token} (opens : opening.kind = .symbol .openParen)
      (declares : Parser.Runs tokens Parser.declarator { state with cursor := start } ⟨ty, none⟩
        { state with cursor := stop })
      (closes : closing.kind = .symbol .closeParen)
      (behind : Unparses tokens state (.expression operand) own shown)
      (starts : StartsAt (opening :: tokensBetween tokens start stop ++ closing :: own) position) :
      Unparses tokens state (.expression (.cast ty operand position))
        (opening :: tokensBetween tokens start stop ++ closing :: own)
        (opening :: tokensBetween tokens start stop ++ closing :: shown)
  | call {ty : Ty} {callee : Expression} {values : List Expression} {position : Position}
      {opening closing : Token} {own shown own' shown' : List Token}
      (before : Unparses tokens state (.expression callee) own shown)
      (opens : opening.kind = .symbol .openParen)
      (inside : Unparses tokens state (.arguments values) own' shown')
      (closes : closing.kind = .symbol .closeParen)
      (starts : StartsAt (own ++ opening :: own' ++ [closing]) position) :
      Unparses tokens state (.expression (.call ty callee values position))
        (own ++ opening :: own' ++ [closing]) (shown ++ opening :: shown' ++ [closing])
  | group {value : Expression} {opening closing : Token} {own shown : List Token}
      (opens : opening.kind = .symbol .openParen)
      (inside : Unparses tokens state (.expression value) own shown)
      (closes : closing.kind = .symbol .closeParen) :
      Unparses tokens state (.expression value) own (opening :: shown ++ [closing])
  | noArgument : Unparses tokens state (.arguments []) [] []
  | lastArgument {value : Expression} {own shown : List Token}
      (last : Unparses tokens state (.expression value) own shown) :
      Unparses tokens state (.arguments [value]) own shown
  | moreArguments {value next : Expression} {values : List Expression} {comma : Token}
      {own shown own' shown' : List Token}
      (first : Unparses tokens state (.expression value) own shown)
      (separates : comma.kind = .symbol .comma)
      (others : Unparses tokens state (.arguments (next :: values)) own' shown') :
      Unparses tokens state (.arguments (value :: next :: values)) (own ++ comma :: own')
        (shown ++ comma :: shown')

variable {tokens : Array Token} {state : State} {start place stop : Nat}

theorem Unparses.startsAt {value : Expression} {own shown : List Token}
    (unparses : Unparses tokens state (.expression value) own shown) :
    StartsAt own value.position := by
  generalize shape : Piece.expression value = piece at unparses
  induction unparses generalizing value with
  | group _ _ _ ih => exact ih shape
  | noArgument | lastArgument | moreArguments => cases shape
  | _ =>
    cases shape
    assumption

/-! ## What is read is written back -/

/-- The tokens from `start` up to `stop` are the phrase written back. Further arguments stand behind
a first one. -/
def Reading.Yields (tokens : Array Token) (state : State) (start stop : Nat) : Reading → Prop
  | above _ _ value | single _ value | called _ value =>
    ∃ own, Unparses tokens state (.expression value) own (tokensBetween tokens start stop)
  | arguments _ values =>
    ∃ own, Unparses tokens state (.arguments values) own (tokensBetween tokens start stop)
  | further _ values => ∀ {first : Expression} {own shown : List Token},
    Unparses tokens state (.expression first) own shown →
    ∃ own', Unparses tokens state (.arguments (first :: values)) own'
      (shown ++ tokensBetween tokens start stop)

namespace Unparses

/-- Tokens in parentheses are a group. -/
theorem of_group {value : Expression} {own : List Token} (low : start + 1 ≤ stop)
    (opening : kindAt tokens start = some (.symbol .openParen))
    (inside : Unparses tokens state (.expression value) own (tokensBetween tokens (start + 1) stop))
    (closing : kindAt tokens stop = some (.symbol .closeParen)) :
    Unparses tokens state (.expression value) own (tokensBetween tokens start (stop + 1)) := by
  obtain ⟨first, here, opens, _⟩ := kindAt_eq_some opening
  obtain ⟨last, there, closes, _⟩ := kindAt_eq_some closing
  rw [tokensBetween_concat there (Nat.le_of_lt low), tokensBetween_cons here low]
  exact .group opens inside closes

theorem of_call {ty : Ty} {callee : Expression} {values : List Expression} {own own' : List Token}
    (low : start ≤ place) (high : place + 1 ≤ stop)
    (before : Unparses tokens state (.expression callee) own (tokensBetween tokens start place))
    (opening : kindAt tokens place = some (.symbol .openParen))
    (inside : Unparses tokens state (.arguments values) own'
      (tokensBetween tokens (place + 1) stop))
    (closing : kindAt tokens stop = some (.symbol .closeParen)) :
    ∃ whole, Unparses tokens state (.expression (.call ty callee values callee.position)) whole
      (tokensBetween tokens start (stop + 1)) := by
  obtain ⟨first, here, opens, _⟩ := kindAt_eq_some opening
  obtain ⟨last, there, closes, _⟩ := kindAt_eq_some closing
  have split : tokensBetween tokens start (stop + 1) =
      tokensBetween tokens start place ++ first :: tokensBetween tokens (place + 1) stop ++
        [last] := by
    rw [tokensBetween_concat there (by omega), ← tokensBetween_append low (Nat.le_of_lt high),
      tokensBetween_cons here high]
  rw [split]
  have starts := before.startsAt.append (first :: own' ++ [last])
  rw [← List.append_assoc] at starts
  exact ⟨_, .call before opens inside closes starts⟩

theorem of_cast {ty : Ty} {value : Expression} {own : List Token} (low : start + 1 ≤ place)
    (high : place + 1 ≤ stop) (opening : kindAt tokens start = some (.symbol .openParen))
    (declares : Parser.Runs tokens Parser.declarator { state with cursor := start + 1 } ⟨ty, none⟩
      { state with cursor := place })
    (closing : kindAt tokens place = some (.symbol .closeParen))
    (behind : Unparses tokens state (.expression value) own
      (tokensBetween tokens (place + 1) stop)) :
    ∃ whole, Unparses tokens state (.expression (.cast ty value (placeAt tokens start))) whole
      (tokensBetween tokens start stop) := by
  obtain ⟨first, here, opens, position⟩ := kindAt_eq_some opening
  obtain ⟨last, there, closes, _⟩ := kindAt_eq_some closing
  have split : tokensBetween tokens start stop =
      first :: tokensBetween tokens (start + 1) place ++
        last :: tokensBetween tokens (place + 1) stop := by
    rw [tokensBetween_cons here (by omega), ← tokensBetween_append low (Nat.le_of_lt high),
      tokensBetween_cons there high]
    rfl
  rw [split, ← position]
  exact ⟨_, .cast opens declares closes behind rfl⟩

theorem of_binary {ty : Ty} {operator : BinaryOperator} {left right : Expression}
    {own own' : List Token} (low : start ≤ place) (high : place + 1 ≤ stop)
    (before : Unparses tokens state (.expression left) own (tokensBetween tokens start place))
    (mark : kindAt tokens place = some (.symbol operator.symbol))
    (behind : Unparses tokens state (.expression right) own'
      (tokensBetween tokens (place + 1) stop)) :
    ∃ whole, Unparses tokens state
      (.expression (.binary ty operator left right left.position)) whole
      (tokensBetween tokens start stop) := by
  obtain ⟨token, here, word, _⟩ := kindAt_eq_some mark
  rw [← tokensBetween_append low (Nat.le_of_lt high), tokensBetween_cons here high]
  exact ⟨_, .binary before word behind (before.startsAt.append _)⟩

end Unparses

/-- The grammar takes up every token of a phrase once and in order. -/
theorem Derives.yields {reading : Reading}
    (derives : Derives tokens state.scopes reading start stop) :
    reading.Yields tokens state start stop := by
  induction derives with
  | literal here =>
    obtain ⟨token, there, word, position⟩ := kindAt_eq_some here
    rw [Reading.Yields, tokensBetween_succ there, ← position]
    exact ⟨_, .integer word rfl⟩
  | name here =>
    obtain ⟨token, there, word, position⟩ := kindAt_eq_some here
    rw [Reading.Yields, tokensBetween_succ there, ← position]
    exact ⟨_, .name word rfl⟩
  | group opening _ inner closing ih =>
    obtain ⟨own, inside⟩ := ih
    exact ⟨own, inside.of_group inner.le opening closing⟩
  | call before opening _ inside closing ih ihInside =>
    obtain ⟨own, callee⟩ := ih
    obtain ⟨own', values⟩ := ihInside
    exact callee.of_call before.le inside.le opening values closing
  | noArgument =>
    rw [Reading.Yields, tokensBetween_self]
    exact ⟨[], .noArgument⟩
  | firstArgument first _ others ih further =>
    obtain ⟨own, value⟩ := ih
    rw [Reading.Yields, ← tokensBetween_append first.le others.le]
    exact further value
  | noFurther =>
    intro first own shown value
    rw [tokensBetween_self, List.append_nil]
    exact ⟨own, .lastArgument value⟩
  | nextArgument comma next _ others ih further =>
    obtain ⟨own', value⟩ := ih
    intro first own shown before
    obtain ⟨token, here, separates, _⟩ := kindAt_eq_some comma
    obtain ⟨whole, behind⟩ := further value
    rw [tokensBetween_cons here (Nat.lt_of_lt_of_le next.le others.le),
      ← tokensBetween_append next.le others.le]
    exact ⟨_, .moreArguments before separates behind⟩
  | called _ ih => exact ih
  | @cast _ base ty _ start place _ opening typed declares closing operand _ ih =>
    obtain ⟨own, value⟩ := ih
    have read : Parser.Runs tokens Parser.declarator { state with cursor := start + 1 } ⟨ty, none⟩
        { state with cursor := place } :=
      Parser.runs_declarator_iff.mpr ⟨⟨base, typed, declares⟩, ⟨_, closing, rfl⟩, rfl⟩
    exact value.of_cast (Nat.le_of_lt declares.le) operand.le opening read closing
  | unary mark operand _ ih =>
    obtain ⟨own, value⟩ := ih
    obtain ⟨token, here, word, position⟩ := kindAt_eq_some mark
    rw [Reading.Yields, tokensBetween_cons here operand.le, ← position]
    exact ⟨_, .unary word value rfl⟩
  | operand _ ih => exact ih
  | binary _ before mark behind _ ih ihBehind =>
    obtain ⟨own, left⟩ := ih
    obtain ⟨own', right⟩ := ihBehind
    exact left.of_binary before.le behind.le mark right

namespace Parser

/-- Reading an expression takes up the tokens that the tree is written back with, in order. -/
theorem unparses_of_runs {after : State} {suggested : Option Ty} {value : Expression}
    (run : Runs tokens (expression suggested) state value after) :
    state.cursor < after.cursor ∧ after.cursor < tokens.size ∧
      ∃ own, Unparses tokens state (.expression value) own
        (tokensBetween tokens state.cursor after.cursor) := by
  obtain ⟨derives, _, behind, _⟩ := derived_of_runs run
  exact ⟨derives.lt, lt_size_of_kindAt behind, derives.yields⟩

/-- Besides the built-in types, `x` is known as a value of type `int32` and `f` as a function. -/
theorem unparses_of_runs_grouped :
    let int8 := Ty.builtin (.integer 8 true)
    let int32 := Ty.builtin (.integer 32 true)
    let f := Ty.function ⟨.builtin, none⟩ int32
      [⟨none, int8, Position.start⟩, ⟨none, int32, Position.start⟩]
    let state : State := ⟨0, { Scopes.root Ty.builtins with
      values := [[("x", ⟨"x", int32, Position.start⟩), ("f", ⟨"f", f, Position.start⟩)]] }, none⟩
    ∃ tokens value after, tokensOf "-(x + 1) * f((int8) x, 2)" = .ok tokens ∧
      Runs tokens.toArray (expression none) state value after ∧ after.cursor = 16 ∧
      ∃ own, Unparses tokens.toArray state (.expression value) own
        (tokensBetween tokens.toArray 0 16) := by
  intro int8 int32 f state
  have read : ((tokensOf "-(x + 1) * f((int8) x, 2)").toOption.map fun tokens =>
      match expression none tokens.toArray state with
      | .ok _ after => some after.cursor
      | .error .. => none) = some (some 16) := by decide +kernel
  obtain ⟨tokens, lexed, read⟩ := exists_ok_of_map_eq_some read
  rcases run : expression none tokens.toArray state with ⟨value, after⟩ | ⟨_, _⟩
  · rw [run] at read
    have stop := Option.some.inj read
    obtain ⟨_, _, unparses⟩ := unparses_of_runs run
    rw [stop] at unparses
    exact ⟨tokens, value, after, lexed, run, stop, unparses⟩
  · rw [run] at read
    cases read

end Parser

end MiniC
