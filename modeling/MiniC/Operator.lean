/-
# MiniC.Operator — operators, their symbols and how tightly they bind

Unary operators stand before their operand and bind tighter than every binary one. Binary
operators associate to the left; `*` and `/` bind tightest, then `+` and `-`, then the four
orderings, then `==`. An assignment either stores its value or first applies one of the four
arithmetic operators to the target and the value.

Each operator is written with one symbol. `ofSymbol?_symbol` and `symbol_of_ofSymbol?`, once for
each family, say that reading an operator off a symbol undoes writing it.
-/
import MiniC.Token

namespace MiniC

set_option autoImplicit false

/-! ## Unary operators -/

inductive UnaryOperator where
  | plus
  | minus
  | addressOf
  | dereference
  deriving DecidableEq, Repr

namespace UnaryOperator

def all : List UnaryOperator := [plus, minus, addressOf, dereference]

def symbol : UnaryOperator → Symbol
  | plus => .plus
  | minus => .minus
  | addressOf => .ampersand
  | dereference => .star

def ofSymbol? : Symbol → Option UnaryOperator
  | .plus => some plus
  | .minus => some minus
  | .ampersand => some addressOf
  | .star => some dereference
  | _ => none

@[simp] theorem ofSymbol?_symbol (operator : UnaryOperator) :
    ofSymbol? operator.symbol = some operator := by
  cases operator <;> rfl

theorem symbol_of_ofSymbol? {symbol : Symbol} {operator : UnaryOperator}
    (found : ofSymbol? symbol = some operator) : operator.symbol = symbol := by
  cases symbol <;> simp_all [ofSymbol?] <;> subst found <;> rfl

/-- Whether the operator is a sign. -/
def isSign : UnaryOperator → Bool
  | plus | minus => true
  | addressOf | dereference => false

end UnaryOperator

/-! ## Binary operators -/

inductive BinaryOperator where
  | add
  | subtract
  | multiply
  | divide
  | less
  | lessEqual
  | greater
  | greaterEqual
  | equal
  deriving DecidableEq, Repr

namespace BinaryOperator

def all : List BinaryOperator :=
  [add, subtract, multiply, divide, less, lessEqual, greater, greaterEqual, equal]

def symbol : BinaryOperator → Symbol
  | add => .plus
  | subtract => .minus
  | multiply => .star
  | divide => .slash
  | less => .less
  | lessEqual => .lessEqual
  | greater => .greater
  | greaterEqual => .greaterEqual
  | equal => .equalEqual

def ofSymbol? : Symbol → Option BinaryOperator
  | .plus => some add
  | .minus => some subtract
  | .star => some multiply
  | .slash => some divide
  | .less => some less
  | .lessEqual => some lessEqual
  | .greater => some greater
  | .greaterEqual => some greaterEqual
  | .equalEqual => some equal
  | _ => none

@[simp] theorem ofSymbol?_symbol (operator : BinaryOperator) :
    ofSymbol? operator.symbol = some operator := by
  cases operator <;> rfl

theorem symbol_of_ofSymbol? {symbol : Symbol} {operator : BinaryOperator}
    (found : ofSymbol? symbol = some operator) : operator.symbol = symbol := by
  cases symbol <;> simp_all [ofSymbol?] <;> subst found <;> rfl

def isArithmetic : BinaryOperator → Bool
  | add | subtract | multiply | divide => true
  | _ => false

def isRelational : BinaryOperator → Bool
  | less | lessEqual | greater | greaterEqual => true
  | _ => false

/-- How tightly the operator binds its operands; more is tighter. -/
def precedence : BinaryOperator → Nat
  | multiply | divide => 4
  | add | subtract => 3
  | less | lessEqual | greater | greaterEqual => 2
  | equal => 1

theorem precedence_pos (operator : BinaryOperator) : 0 < operator.precedence := by
  cases operator <;> decide

end BinaryOperator

/-! ## Assignments -/

inductive AssignmentOperator where
  | assign
  | add
  | subtract
  | multiply
  | divide
  deriving DecidableEq, Repr

namespace AssignmentOperator

def all : List AssignmentOperator := [assign, add, subtract, multiply, divide]

def symbol : AssignmentOperator → Symbol
  | assign => .equal
  | add => .plusEqual
  | subtract => .minusEqual
  | multiply => .starEqual
  | divide => .slashEqual

def ofSymbol? : Symbol → Option AssignmentOperator
  | .equal => some assign
  | .plusEqual => some add
  | .minusEqual => some subtract
  | .starEqual => some multiply
  | .slashEqual => some divide
  | _ => none

@[simp] theorem ofSymbol?_symbol (operator : AssignmentOperator) :
    ofSymbol? operator.symbol = some operator := by
  cases operator <;> rfl

theorem symbol_of_ofSymbol? {symbol : Symbol} {operator : AssignmentOperator}
    (found : ofSymbol? symbol = some operator) : operator.symbol = symbol := by
  cases symbol <;> simp_all [ofSymbol?] <;> subst found <;> rfl

/-- The operator applied before storing. -/
def binary? : AssignmentOperator → Option BinaryOperator
  | assign => none
  | add => some .add
  | subtract => some .subtract
  | multiply => some .multiply
  | divide => some .divide

end AssignmentOperator

end MiniC
