/-
# MiniC.Parser.Basic — reading tokens with scopes at hand

A parser reads an array of tokens, the last of which is the end of the file. Its state is the
index of the current token, the open scopes, and the return type of the function being read, if
any. A parser that fails leaves the state it failed in, so that a later reading can go on from
there.

The cursor moves forward one token at a time and never past the end of the file; `seek` puts it
back to where it once stood. Looking at a token where there is none is a fault of its own. `inScope`
closes the level that it opens, and `returning` restores the return type that it replaces, whether
the parser inside succeeds or fails.
-/
import MiniC.Scopes

namespace MiniC

set_option autoImplicit false

/-- What changes while tokens are read. -/
structure State where
  /-- The index of the current token. -/
  cursor : Nat
  scopes : Scopes
  /-- The return type of the function whose body is being read. -/
  returnType : Option Ty

/-- Readers of a token array. -/
abbrev Parser := ReaderT (Array Token) (EStateM CompileError State)

namespace Parser

variable {α β : Type}

/-! ## Running -/

@[simp] theorem pure_apply (value : α) (tokens : Array Token) (state : State) :
    (pure value : Parser α) tokens state = .ok value state := rfl

/-- One parser after another: the second goes on where the first succeeds. -/
theorem bind_apply (first : Parser α) (second : α → Parser β) (tokens : Array Token)
    (state : State) :
    (first >>= second) tokens state =
      match first tokens state with
      | .ok value after => second value tokens after
      | .error error after => .error error after := by
  simp only [bind, ReaderT.bind, EStateM.bind]
  cases first tokens state <;> rfl

/-! ## Failing -/

/-- Fails at a given place. -/
def failAt (fault : Fault) (position : Position) : Parser α := fun _ state =>
  .error ⟨fault, position⟩ state

/-- Yields a value, or fails with an error that carries its place. -/
def ofExcept : Except CompileError α → Parser α
  | .ok value => pure value
  | .error error => failAt error.fault error.position

/-! ## The cursor -/

/-- The current token. -/
def peek : Parser Token := fun tokens state =>
  match tokens[state.cursor]? with
  | some token => .ok token state
  | none => .error ⟨.outsideTokens, Position.start⟩ state

/-- The index of the current token. -/
def cursor : Parser Nat := fun _ state =>
  .ok state.cursor state

/-- How many tokens stand from the cursor on. -/
def remaining : Parser Nat := fun tokens state =>
  .ok (tokens.size - state.cursor) state

/-- Puts the cursor at an index. -/
def seek (index : Nat) : Parser Unit := fun _ state =>
  .ok () { state with cursor := index }

/-- Passes the current token and yields it; the end of the file is never passed. -/
def advance : Parser Token := do
  let token ← peek
  if token.kind = .endOfFile then return token
  else
    seek ((← cursor) + 1)
    return token

/-- Fails at the current token. -/
def fail (fault : Fault) : Parser α := do
  failAt fault (← peek).position

theorem peek_apply {tokens : Array Token} {state : State} {token : Token}
    (current : tokens[state.cursor]? = some token) : peek tokens state = .ok token state := by
  simp [peek, current]

/-- A token other than the end of the file is passed. -/
theorem advance_apply {tokens : Array Token} {state : State} {token : Token}
    (current : tokens[state.cursor]? = some token) (more : token.kind ≠ .endOfFile) :
    advance tokens state = .ok token { state with cursor := state.cursor + 1 } := by
  simp only [advance, bind_apply, peek_apply current, if_neg more]
  rfl

/-- The end of the file is not passed. -/
theorem advance_apply_of_end {tokens : Array Token} {state : State} {token : Token}
    (current : tokens[state.cursor]? = some token) (ended : token.kind = .endOfFile) :
    advance tokens state = .ok token state := by
  simp only [advance, bind_apply, peek_apply current, if_pos ended]
  rfl

theorem fail_apply {tokens : Array Token} {state : State} {token : Token} (fault : Fault)
    (current : tokens[state.cursor]? = some token) :
    (fail fault : Parser α) tokens state = .error ⟨fault, token.position⟩ state := by
  simp only [fail, bind_apply, peek_apply current]
  rfl

/-! ## Expecting a symbol -/

/-- Whether the current token is the given symbol. -/
def check (mark : Symbol) : Parser Bool := do
  return (← peek).kind == .symbol mark

/-- Passes the given symbol if it is the current token. -/
def accept (mark : Symbol) : Parser Bool := do
  if ← check mark then
    let _ ← advance
    return true
  else
    return false

/-- Passes the given symbol, which has to be the current token. -/
def expect (mark : Symbol) (place : Place) : Parser Unit := do
  unless ← accept mark do
    fail (.missing mark place (← peek).kind)

/-! ## Scopes -/

/-- The type that a name stands for. -/
def findType? (name : String) : Parser (Option Ty) := fun _ state =>
  .ok (state.scopes.findType? name) state

/-- The declaration that a name stands for. -/
def findValue? (name : String) : Parser (Option Declaration) := fun _ state =>
  .ok (state.scopes.findValue? name) state

/-- The number of open levels. -/
def depth : Parser Nat := fun _ state =>
  .ok state.scopes.depth state

def declare (declaration : Declaration) : Parser Unit := fun _ state =>
  match state.scopes.declare declaration with
  | .ok scopes => .ok () { state with scopes }
  | .error error => .error error state

def define (name : String) (ty : Ty) (position : Position) : Parser Unit := fun _ state =>
  match state.scopes.define name ty position with
  | .ok scopes => .ok () { state with scopes }
  | .error error => .error error state

/-- Runs a parser in a level of its own. -/
def inScope (inner : Parser α) : Parser α := fun tokens state =>
  match inner tokens { state with scopes := state.scopes.push } with
  | .ok value after => .ok value { after with scopes := after.scopes.pop }
  | .error error after => .error error { after with scopes := after.scopes.pop }

/-! ## The enclosing function -/

/-- The return type of the function being read. -/
def returnType : Parser (Option Ty) := fun _ state =>
  .ok state.returnType state

/-- Runs a parser inside a function with the given return type. -/
def returning (ty : Ty) (inner : Parser α) : Parser α := fun tokens state =>
  match inner tokens { state with returnType := some ty } with
  | .ok value after => .ok value { after with returnType := state.returnType }
  | .error error after => .error error { after with returnType := state.returnType }

end Parser

end MiniC
