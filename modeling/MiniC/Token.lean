/-
# MiniC.Token — the words of the language

A token is a kind with the place and the byte length of its text. The kinds are names, integer
literals, seven keywords, twenty-three symbols and the end of the file.

Each keyword and symbol has one spelling, kept in one table each, which serves to recognise the
word as well as to show it: `Keyword.ofSpelling?_spelling` and `Symbol.ofSpelling?_spelling` say
that a spelling is recognised as its own word, and `Keyword.spelling_of_ofSpelling?` and
`Symbol.spelling_of_ofSpelling?` that nothing else is.
-/
import MiniC.Position

namespace MiniC

set_option autoImplicit false

/-! ## Keywords -/

/-- The reserved words. -/
inductive Keyword where
  | typedef
  | distinct
  | cond
  | otherwise
  | loop
  | ret
  | var
  deriving DecidableEq, Repr

namespace Keyword

def all : List Keyword := [typedef, distinct, cond, otherwise, loop, ret, var]

def spelling : Keyword → String
  | typedef => "typedef"
  | distinct => "distinct"
  | cond => "if"
  | otherwise => "else"
  | loop => "while"
  | ret => "return"
  | var => "var"

/-- The keyword spelled `word`. -/
def ofSpelling? (word : String) : Option Keyword :=
  all.find? fun keyword => keyword.spelling == word

theorem mem_all (keyword : Keyword) : keyword ∈ all := by
  cases keyword <;> decide

@[simp] theorem ofSpelling?_spelling (keyword : Keyword) :
    ofSpelling? keyword.spelling = some keyword := by
  cases keyword <;> decide

theorem spelling_of_ofSpelling? {word : String} {keyword : Keyword}
    (found : ofSpelling? word = some keyword) : keyword.spelling = word := by
  simpa using List.find?_some found

end Keyword

/-! ## Symbols -/

/-- Punctuation and operators. -/
inductive Symbol where
  | comma
  | semicolon
  | openParen
  | closeParen
  | openBracket
  | closeBracket
  | openBrace
  | closeBrace
  | plus
  | minus
  | star
  | slash
  | equal
  | less
  | greater
  | ampersand
  | plusEqual
  | minusEqual
  | starEqual
  | slashEqual
  | equalEqual
  | lessEqual
  | greaterEqual
  deriving DecidableEq, Repr

namespace Symbol

def all : List Symbol :=
  [comma, semicolon, openParen, closeParen, openBracket, closeBracket, openBrace, closeBrace,
   plus, minus, star, slash, equal, less, greater, ampersand, plusEqual, minusEqual, starEqual,
   slashEqual, equalEqual, lessEqual, greaterEqual]

def spelling : Symbol → List Char
  | comma => [',']
  | semicolon => [';']
  | openParen => ['(']
  | closeParen => [')']
  | openBracket => ['[']
  | closeBracket => [']']
  | openBrace => ['{']
  | closeBrace => ['}']
  | plus => ['+']
  | minus => ['-']
  | star => ['*']
  | slash => ['/']
  | equal => ['=']
  | less => ['<']
  | greater => ['>']
  | ampersand => ['&']
  | plusEqual => ['+', '=']
  | minusEqual => ['-', '=']
  | starEqual => ['*', '=']
  | slashEqual => ['/', '=']
  | equalEqual => ['=', '=']
  | lessEqual => ['<', '=']
  | greaterEqual => ['>', '=']

/-- The symbol spelled `text`. -/
def ofSpelling? (text : List Char) : Option Symbol :=
  all.find? fun symbol => symbol.spelling == text

theorem mem_all (symbol : Symbol) : symbol ∈ all := by
  cases symbol <;> decide

@[simp] theorem ofSpelling?_spelling (symbol : Symbol) :
    ofSpelling? symbol.spelling = some symbol := by
  cases symbol <;> decide

theorem spelling_of_ofSpelling? {text : List Char} {symbol : Symbol}
    (found : ofSpelling? text = some symbol) : symbol.spelling = text := by
  simpa using List.find?_some found

/-- A symbol between single quotes, as diagnostics show it. -/
def quoted (symbol : Symbol) : String :=
  "'" ++ String.ofList symbol.spelling ++ "'"

end Symbol

/-! ## Tokens -/

/-- What a token is, its place aside. -/
inductive Kind where
  | endOfFile
  | name (spelling : String)
  | integer (value : Nat)
  | keyword (word : Keyword)
  | symbol (mark : Symbol)
  deriving DecidableEq, Repr, Inhabited

namespace Kind

/-- A kind as diagnostics show it. -/
def describe : Kind → String
  | endOfFile => "end of file"
  | name spelling => "identifier '" ++ spelling ++ "'"
  | integer value => "integer literal " ++ toString value
  | keyword word => "'" ++ word.spelling ++ "'"
  | symbol mark => mark.quoted

end Kind

/-- A kind, the place where its text begins, and the bytes of that text. -/
structure Token where
  kind : Kind
  position : Position
  length : Nat
  deriving DecidableEq, Repr, Inhabited

end MiniC
