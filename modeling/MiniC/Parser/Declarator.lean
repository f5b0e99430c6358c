/-
# MiniC.Parser.Declarator — declarators

A declarator follows a type name and wraps the named type in pointers, arrays and functions around
the name that it declares, if any:

* `int32 *values[4]` declares an array of four pointers to `int32`,
* `int32 (*grid)[4]` declares a pointer to an array of four `int32`,
* `int32 (*chosen(int32 base))(int32)` declares a function that returns a pointer to a function.

Suffixes bind tighter than a leading `*`, and parentheses regroup. A declarator is read in two
passes. The first wraps the type in the leading pointers and then only looks for the end, noting
where each component at the outermost level begins: a name, a `[` or a `(`. The second visits the
components from the last to the first, since the one nearest to the name is the outermost part of
the declared type. In the end the cursor stands where the first pass ended.

A parenthesis opens a parameter list if a `)` or a type name follows, and a group otherwise.
-/
import MiniC.Parser.Recursion

namespace MiniC

set_option autoImplicit false

/-- A declared name and its place. -/
structure DeclaredName where
  name : String
  position : Position
  deriving Repr

/-- A declarator as read: the type it makes, and the name it declares. -/
structure Declarator where
  ty : Ty
  name : Option DeclaredName
  deriving Repr

/-- A declarator declares one name. -/
def Declarator.withName (declarator : Declarator) (declared : DeclaredName) :
    Except CompileError Declarator :=
  if declarator.name.isSome then .error ⟨.secondName declared.name, declared.position⟩
  else .ok { declarator with name := some declared }

/-! ## The first pass -/

/-- The components noted so far, latest first, and the number of open parentheses. -/
structure Scan where
  components : List Nat
  depth : Nat
  deriving DecidableEq, Repr

/-- What the first pass does at a token. -/
inductive ScanStep where
  | stop
  | stray
  | pass (scan : Scan)
  deriving DecidableEq, Repr

namespace Scan

/-- Notes a component at the outermost level. -/
def note (scan : Scan) (index : Nat) : Scan :=
  if scan.depth = 0 then { scan with components := index :: scan.components } else scan

/-- What to do at the token of the given index and kind. -/
def step (scan : Scan) (index : Nat) : Kind → ScanStep
  | .endOfFile | .symbol .semicolon | .symbol .equal => .stop
  | .symbol .openParen => .pass { scan.note index with depth := scan.depth + 1 }
  | .symbol .closeParen =>
    if scan.depth = 0 then .stop else .pass { scan with depth := scan.depth - 1 }
  | .symbol .comma | .symbol .openBrace => if scan.depth = 0 then .stop else .pass scan
  | .name _ | .symbol .openBracket => .pass (scan.note index)
  | .integer _ | .symbol .closeBracket => .pass scan
  | _ => if scan.depth = 0 then .stray else .pass scan

end Scan

namespace Parser

/-- One token of the first pass. -/
def scanToken (scan : Scan) : Parser (Option Scan) := do
  let token ← peek
  match scan.step (← cursor) token.kind with
  | .stop => return none
  | .stray => fail (.strayInDeclarator token.kind)
  | .pass scan =>
    let _ ← advance
    return some scan

/-- Finds the end of a declarator; yields its components, latest first. -/
def scanComponents : Parser (List Nat) := do
  return (← iterate scanToken ⟨[], 0⟩).components

/-! ## Components -/

/-- Whether the current token names a type. -/
def isTypeName : Parser Bool := do
  match (← peek).kind with
  | .name spelling => return (← findType? spelling).isSome
  | _ => return false

/-- A name that stands for a type. -/
def typeName : Parser Ty := do
  let token ← peek
  match token.kind with
  | .name spelling =>
    match ← findType? spelling with
    | some ty =>
      let _ ← advance
      return ty
    | none => fail (.expectedTypeName token.kind)
  | kind => fail (.expectedTypeName kind)

/-- `[N]` behind an element type. -/
def arraySuffix (element : Ty) : Parser Ty := do
  let opening ← peek
  expect .openBracket .openingArrayLength
  match (← peek).kind with
  | .integer length =>
    if length < UInt64.size then
      let _ ← advance
      expect .closeBracket .afterArrayLength
      return .array ⟨.site opening.position, none⟩ element (UInt64.ofNat length)
    else fail (.invalidArrayLength length)
  | kind => fail (.expectedArrayLength kind)

/-- One entry of a parameter list. -/
def parameter (declarator : Option Ty → Parser Declarator) : Parser (Parameter Ty) := do
  let first ← peek
  let declared ← declarator none
  return ⟨declared.name.map (·.name), declared.ty,
    (declared.name.map (·.position)).getD first.position⟩

/-- A further entry behind a comma, if one follows. -/
def nextParameter (declarator : Option Ty → Parser Declarator)
    (read : Array (Parameter Ty)) : Parser (Option (Array (Parameter Ty))) := do
  if ← accept .comma then return some (read.push (← parameter declarator))
  else return none

/-- The entries of a parameter list, if any. -/
def parameters (declarator : Option Ty → Parser Declarator) :
    Parser (Array (Parameter Ty)) := do
  if ← check .closeParen then return #[]
  else iterate (nextParameter declarator) #[← parameter declarator]

/-- The rest of a parameter list behind its opening parenthesis. -/
def parameterList (declarator : Option Ty → Parser Declarator) :
    Parser (List (Parameter Ty)) := do
  let read ← parameters declarator
  expect .closeParen .afterParameterList
  return read.toList

/-- A component that begins with a parenthesis: a parameter list or a group. -/
def parenthesized (declarator : Option Ty → Parser Declarator) (built : Declarator) :
    Parser Declarator := do
  let opening ← advance
  if (← check .closeParen) || (← isTypeName) then
    let parameters ← parameterList declarator
    return { built with ty := .function ⟨.site opening.position, none⟩ built.ty parameters }
  else
    let inner ← declarator (some built.ty)
    expect .closeParen .closingDeclaratorGroup
    match inner.name with
    | some declared => ofExcept ({ built with ty := inner.ty }.withName declared)
    | none => return { built with ty := inner.ty }

/-- Wraps what the later components built in the component that begins at `start`. -/
def component (declarator : Option Ty → Parser Declarator) (built : Declarator) (start : Nat) :
    Parser Declarator := do
  seek start
  let token ← peek
  match token.kind with
  | .symbol .openBracket => return { built with ty := ← arraySuffix built.ty }
  | .symbol .openParen => parenthesized declarator built
  | .name spelling => ofExcept (built.withName ⟨spelling, token.position⟩)
  | kind => fail (.unreadableComponent kind)

/-! ## Declarators -/

/-- The type that a declarator starts from. -/
def baseType : Option Ty → Parser Ty
  | some ty => pure ty
  | none => typeName

/-- A pointer to a type, if a star follows. -/
def pointer (ty : Ty) : Parser (Option Ty) := do
  let token ← peek
  if ← accept .star then return some (.pointer ⟨.site token.position, none⟩ ty)
  else return none

/-- A declarator around `base`, where `declarator` reads those inside it. -/
def declaratorStep (declarator : Option Ty → Parser Declarator) (base : Option Ty) :
    Parser Declarator := do
  let ty ← iterate pointer (← baseType base)
  let components ← scanComponents
  let stop ← cursor
  let built ← components.foldlM (component declarator) ⟨ty, none⟩
  seek stop
  return built

/-- A declarator around `base`; without one, behind a type name of its own. -/
def declaratorAround (base : Option Ty) : Parser Declarator :=
  recurse declaratorStep base

/-- A type name and the declarator behind it. -/
def declarator : Parser Declarator :=
  declaratorAround none

end Parser

end MiniC
