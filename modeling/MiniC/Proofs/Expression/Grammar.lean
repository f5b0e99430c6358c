/-
# MiniC.Proofs.Expression.Grammar — what an expression means

The grammar of expressions over the tokens of a file, with the tree that each phrase stands for:

* a literal, a name or a group with the calls behind it is an operand, and so is a cast or a unary
  operator with the operand behind it;
* above a precedence stands an operand, or a tighter operator between two expressions: what is on
  its left binds at least as tight as it does, and what is on its right binds tighter;
* the arguments of a call are expressions with commas between them, one for each parameter.

`Derives tokens scopes reading start stop` says that the tokens from `start` up to `stop` are the
phrase. It does not look at the token behind the phrase. Where an expression ends is another matter:
in front of `(` or a tighter operator none does (`EndsExpressionAt`).
-/
import MiniC.Parser.Expression
import MiniC.Proofs.Declarator.Grammar

namespace MiniC

set_option autoImplicit false

/-! ## Tokens that tell -/

/-- Whether an expression begins with such a token. -/
def Kind.beginsExpression : Kind → Bool
  | .integer _ | .name _ | .symbol .openParen => true
  | kind => kind.unaryOperator?.isSome

/-- Whether an expression above the minimum ends in front of such a token. -/
def Kind.endsExpression (minimum : Nat) (kind : Kind) : Bool :=
  kind != .symbol .openParen &&
    kind.binaryOperator?.all fun operator => operator.precedence ≤ minimum

/-- A token in front of which an expression above the minimum ends stands there. -/
def EndsExpressionAt (tokens : Array Token) (minimum index : Nat) : Prop :=
  ∃ kind, kindAt tokens index = some kind ∧ kind.endsExpression minimum

/-! ## Phrases -/

/-- What tokens of an expression can be, with the trees that they stand for. -/
inductive Reading where
  /-- An expression whose operators bind tighter than the minimum. -/
  | above (minimum : Nat) (suggested : Option Ty) (value : Expression)
  /-- An operand. -/
  | single (suggested : Option Ty) (value : Expression)
  /-- An operand that a call may follow. -/
  | called (suggested : Option Ty) (value : Expression)
  /-- The arguments for the parameters. -/
  | arguments (parameters : List (Parameter Ty)) (values : List Expression)
  /-- The arguments for the parameters behind the first, each with a comma in front. -/
  | further (parameters : List (Parameter Ty)) (values : List Expression)

/-- The tokens from `start` up to `stop` are the phrase. -/
inductive Derives (tokens : Array Token) (scopes : Scopes) : Reading → (start stop : Nat) → Prop
  | literal {suggested : Option Ty} {ty : Ty} {number start : Nat}
      (here : kindAt tokens start = some (.integer number))
      (typed : suggested.filter Ty.isInteger = some ty) :
      Derives tokens scopes (.called suggested (.integer ty number (placeAt tokens start)))
        start (start + 1)
  | name {suggested : Option Ty} {declaration : Declaration} {spelling : String} {start : Nat}
      (here : kindAt tokens start = some (.name spelling))
      (known : scopes.findValue? spelling = some declaration) :
      Derives tokens scopes (.called suggested (.name declaration spelling (placeAt tokens start)))
        start (start + 1)
  | group {suggested : Option Ty} {value : Expression} {start stop : Nat}
      (opening : kindAt tokens start = some (.symbol .openParen))
      (untyped : ¬∃ ty, NamesType tokens scopes.findType? (start + 1) ty)
      (inner : Derives tokens scopes (.above 0 suggested value) (start + 1) stop)
      (closing : kindAt tokens stop = some (.symbol .closeParen)) :
      Derives tokens scopes (.called suggested value) start (stop + 1)
  | call {suggested : Option Ty} {callee : Expression} {result : Ty}
      {parameters : List (Parameter Ty)} {values : List Expression} {start place stop : Nat}
      (before : Derives tokens scopes (.called suggested callee) start place)
      (opening : kindAt tokens place = some (.symbol .openParen))
      (callable : callee.ty.signature? = some (result, parameters))
      (inside : Derives tokens scopes (.arguments parameters values) (place + 1) stop)
      (closing : kindAt tokens stop = some (.symbol .closeParen)) :
      Derives tokens scopes (.called suggested (.call result callee values callee.position))
        start (stop + 1)
  | noArgument {start : Nat} : Derives tokens scopes (.arguments [] []) start start
  | firstArgument {parameter : Parameter Ty} {parameters : List (Parameter Ty)}
      {value : Expression} {values : List Expression} {start place stop : Nat}
      (first : Derives tokens scopes (.above 0 (some parameter.ty) value) start place)
      (fits : value.ty.compatible parameter.ty)
      (others : Derives tokens scopes (.further parameters values) place stop) :
      Derives tokens scopes (.arguments (parameter :: parameters) (value :: values)) start stop
  | noFurther {start : Nat} : Derives tokens scopes (.further [] []) start start
  | nextArgument {parameter : Parameter Ty} {parameters : List (Parameter Ty)}
      {value : Expression} {values : List Expression} {start place stop : Nat}
      (comma : kindAt tokens start = some (.symbol .comma))
      (next : Derives tokens scopes (.above 0 (some parameter.ty) value) (start + 1) place)
      (fits : value.ty.compatible parameter.ty)
      (others : Derives tokens scopes (.further parameters values) place stop) :
      Derives tokens scopes (.further (parameter :: parameters) (value :: values)) start stop
  | called {suggested : Option Ty} {value : Expression} {start stop : Nat}
      (operand : Derives tokens scopes (.called suggested value) start stop) :
      Derives tokens scopes (.single suggested value) start stop
  | cast {suggested : Option Ty} {base ty : Ty} {value : Expression} {start place stop : Nat}
      (opening : kindAt tokens start = some (.symbol .openParen))
      (typed : NamesType tokens scopes.findType? (start + 1) base)
      (declares : Spans tokens scopes.findType? .loose (.whole base ⟨ty, none⟩) (start + 2) place)
      (closing : kindAt tokens place = some (.symbol .closeParen))
      (operand : Derives tokens scopes (.above castPrecedence (some ty) value) (place + 1) stop)
      (fits : ty.sameShape value.ty || ty.size == value.ty.size) :
      Derives tokens scopes (.single suggested (.cast ty value (placeAt tokens start))) start stop
  | unary {suggested : Option Ty} {operator : UnaryOperator} {ty : Ty} {value : Expression}
      {start stop : Nat}
      (mark : kindAt tokens start = some (.symbol operator.symbol))
      (operand : Derives tokens scopes
        (.above unaryPrecedence (if operator.isSign then suggested else none) value) (start + 1)
        stop)
      (typed : operator.result? (placeAt tokens start) value.ty = some ty) :
      Derives tokens scopes (.single suggested (.unary ty operator value (placeAt tokens start)))
        start stop
  | operand {minimum : Nat} {suggested : Option Ty} {value : Expression} {start stop : Nat}
      (single : Derives tokens scopes (.single suggested value) start stop) :
      Derives tokens scopes (.above minimum suggested value) start stop
  | binary {minimum : Nat} {suggested : Option Ty} {operator : BinaryOperator} {ty : Ty}
      {left right : Expression} {start place stop : Nat}
      (tight : minimum < operator.precedence)
      (before : Derives tokens scopes (.above (operator.precedence - 1) suggested left) start place)
      (mark : kindAt tokens place = some (.symbol operator.symbol))
      (behind : Derives tokens scopes (.above operator.precedence (some left.ty) right)
        (place + 1) stop)
      (typed : operator.result? left.ty right.ty = some ty) :
      Derives tokens scopes
        (.above minimum suggested (.binary ty operator left right left.position)) start stop

/-- The phrase is an expression, and where it starts stands a token with which one begins. -/
def Reading.Begins (tokens : Array Token) (start : Nat) : Reading → Prop
  | above .. | single .. | called .. =>
    ∃ kind, kindAt tokens start = some kind ∧ kind.beginsExpression
  | arguments .. | further .. => True

namespace Derives

variable {tokens : Array Token} {scopes : Scopes} {reading : Reading} {start stop : Nat}

theorem le (derives : Derives tokens scopes reading start stop) : start ≤ stop := by
  induction derives with
  | cast _ _ declares => have := declares.le; omega
  | _ => omega

theorem begins (derives : Derives tokens scopes reading start stop) :
    reading.Begins tokens start := by
  induction derives with
  | literal here | name here | group here | cast here => exact ⟨_, here, rfl⟩
  | @unary _ operator _ _ _ _ mark => exact ⟨_, mark, by cases operator <;> rfl⟩
  | call _ _ _ _ _ ih => exact ih
  | binary _ _ _ _ _ ih => exact ih
  | called _ ih | operand _ ih => exact ih
  | noArgument | firstArgument | noFurther | nextArgument => trivial

/-- An expression is at least one token. -/
theorem lt {minimum : Nat} {suggested : Option Ty} {value : Expression}
    (derives : Derives tokens scopes (.above minimum suggested value) start stop) :
    start < stop := by
  cases derives with
  | operand single =>
    cases single with
    | called operand =>
      cases operand with
      | literal | name => exact Nat.lt_succ_self _
      | group _ _ inner =>
        have := inner.le
        omega
      | call before _ _ inside =>
        have := before.le
        have := inside.le
        omega
    | cast _ _ declares _ operand =>
      have := declares.le
      have := operand.le
      omega
    | unary _ operand =>
      have := operand.le
      omega
  | binary _ before _ behind =>
    have := before.le
    have := behind.le
    omega

end Derives

end MiniC
