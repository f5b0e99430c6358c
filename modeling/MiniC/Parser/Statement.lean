/-
# MiniC.Parser.Statement — statements, blocks and functions

Statements bind names as they are read: a declaration after its initializer, a function before its
body, a type name at its definition. Every block has a level of its own, and the parameters of a
function share the level of its body. Functions are defined at the outermost level only.

A function of another type than `void` returns on all paths. A `void` function that does not gets
a return without a value at its closing brace.
-/
import MiniC.Parser.Expression
import MiniC.Tree.Coverage

namespace MiniC

set_option autoImplicit false

/-- The assignment operator that a token may stand for. -/
def Kind.assignmentOperator? : Kind → Option AssignmentOperator
  | .symbol mark => AssignmentOperator.ofSymbol? mark
  | _ => none

namespace Parser

/-! ## Blocks -/

/-- A further statement, unless a closing brace or the end of the file stands there. -/
def nextInBlock (statement : Parser Statement) (read : Array Statement) :
    Parser (Option (Array Statement)) := do
  match (← peek).kind with
  | .symbol .closeBrace | .endOfFile => return none
  | _ => return some (read.push (← statement))

/-- Statements up to a closing brace or the end of the file. -/
def blockStatements (statement : Parser Statement) : Parser (List Statement) := do
  return (← iterate (nextInBlock statement) #[]).toList

/-- Statements between braces, and the place of the closing one. -/
def braced (statement : Parser Statement) : Parser (Block Statement × Position) := do
  let opening ← peek
  expect .openBrace .openingBlock
  let statements ← blockStatements statement
  let closing ← peek
  expect .closeBrace .closingBlock
  return (⟨statements, opening.position⟩, closing.position)

/-- A block in a level of its own. -/
def block (statement : Parser Statement) : Parser (Block Statement) := do
  return (← inScope (braced statement)).1

/-! ## Functions -/

/-- The declarations of the parameters of a function, which all have names. -/
def parameterDeclarations (parameters : List (Parameter Ty)) : Parser (List Declaration) :=
  parameters.mapM fun parameter =>
    match parameter.name with
    | some name => return ⟨name, parameter.ty, parameter.position⟩
    | none => failAt .unnamedParameter parameter.position

/-- The body of a function in the current level, closed by a return on every path. -/
def functionBody (statement : Parser Statement) (parameters : List Declaration) (result : Ty) :
    Parser (Block Statement) := do
  parameters.forM declare
  let (body, closing) ← returning result (braced statement)
  if returnsOnAllPaths body.statements then return body
  else if result.isVoid then
    return { body with statements := body.statements ++ [.ret none closing] }
  else failAt .missingReturn closing

/-- A function definition behind its declarator. The function is known in its own body. -/
def functionDefinition (statement : Parser Statement) (ty : Ty) (name : DeclaredName) :
    Parser Statement := do
  if 1 < (← depth) then failAt .nestedFunction name.position
  else
    match ty.signature? with
    | none => failAt (.notFunctionType ty) name.position
    | some (result, parameters) =>
      let parameters ← parameterDeclarations parameters
      let declaration : Declaration := ⟨name.name, ty, name.position⟩
      declare declaration
      let body ← inScope (functionBody statement parameters result)
      return .function declaration parameters body

/-! ## Declarations -/

/-- A type name, a declarator and the name that it has to declare. -/
def namedDeclarator : Parser (Ty × DeclaredName) := do
  let first ← peek
  let declared ← declarator
  match declared.name with
  | some name => return (declared.ty, name)
  | none => failAt .unnamedDeclaration first.position

/-- The initializer of a declaration, if one follows. -/
def initializer (ty : Ty) : Parser (Option Expression) := do
  if ← accept .equal then
    let value ← expression (some ty)
    if value.ty.compatible ty then return some value
    else failAt (.initializerMismatch value.ty ty) value.position
  else return none

/-- A variable declaration behind its declarator. -/
def variableDeclaration (ty : Ty) (name : DeclaredName) : Parser Statement := do
  let value ← initializer ty
  expect .semicolon .afterDeclaration
  let declaration : Declaration := ⟨name.name, ty, name.position⟩
  declare declaration
  return .declaration declaration value

/-- A declaration or a function definition, both of which begin with a type name. -/
def declaration (statement : Parser Statement) : Parser Statement := do
  let (ty, name) ← namedDeclarator
  if ty.isFunction && (← check .openBrace) then functionDefinition statement ty name
  else variableDeclaration ty name

/-- `var`, a name and its initializer, which gives the type. -/
def inferredDeclaration : Parser Statement := do
  let _ ← advance
  let token ← peek
  match token.kind with
  | .name spelling =>
    let _ ← advance
    expect .equal .afterVariableName
    let value ← expression none
    expect .semicolon .afterDeclaration
    let declaration : Declaration := ⟨spelling, value.ty, token.position⟩
    declare declaration
    return .declaration declaration (some value)
  | kind => fail (.expectedIdentifier kind)

/-- `typedef`, which names a type. -/
def typedef : Parser Statement := do
  let keyword ← advance
  let (ty, name) ← namedDeclarator
  expect .semicolon .afterTypeDefinition
  define name.name ty name.position
  return .typedef name.name ty keyword.position

/-- `distinct`, which names a new instance of a type. -/
def distinct : Parser Statement := do
  let keyword ← advance
  let (base, name) ← namedDeclarator
  expect .semicolon .afterTypeDefinition
  let ty := base.distinctAt (.site name.position) name.name
  define name.name ty name.position
  return .distinct name.name ty keyword.position

/-! ## Control flow -/

/-- A condition is of type `bool` or of a distinct copy of it. -/
def condition : Parser Expression := do
  let value ← expression (some Ty.bool)
  if value.ty.isBool then return value
  else failAt (.conditionNotBool value.ty) value.position

/-- The alternative of a conditional, if one follows. -/
def alternative (statement : Parser Statement) : Parser (Option (Block Statement)) := do
  if (← peek).kind == .keyword .otherwise then
    let _ ← advance
    return some (← block statement)
  else return none

def conditional (statement : Parser Statement) : Parser Statement := do
  let keyword ← advance
  let test ← condition
  let whenTrue ← block statement
  let otherwise ← alternative statement
  return .conditional test whenTrue otherwise keyword.position

def loop (statement : Parser Statement) : Parser Statement := do
  let keyword ← advance
  let test ← condition
  return .loop test (← block statement) keyword.position

/-- The value of a return in a function of the given result, up to the semicolon. -/
def returnValue (result : Ty) (keyword : Position) : Parser (Option Expression) := do
  if ← check .semicolon then
    if result.isVoid then return none
    else failAt (.returnsNothing result) keyword
  else
    let value ← expression (some result)
    if result.isVoid then failAt .returnsValueFromVoid value.position
    else if value.ty.compatible result then return some value
    else failAt (.returnMismatch value.ty result) value.position

/-- A return, which stands inside a function. -/
def ret : Parser Statement := do
  let keyword ← advance
  match ← returnType with
  | none => failAt .returnOutsideFunction keyword.position
  | some result =>
    let value ← returnValue result keyword.position
    expect .semicolon .afterReturn
    return .ret value keyword.position

/-! ## Expressions -/

/-- An assignment to `target`, before its operator. -/
def assignment (target : Expression) (operator : AssignmentOperator) : Parser Statement := do
  if target.isAssignable then
    let token ← advance
    let value ← expression (some target.ty)
    if operator.accepts target.ty value.ty then
      expect .semicolon .afterAssignment
      return .assignment target operator value target.position
    else failAt (.assignmentMismatch operator target.ty value.ty) token.position
  else failAt .notAssignable target.position

/-- An expression for its own sake, or an assignment. -/
def expressionStatement : Parser Statement := do
  let value ← expression none
  match (← peek).kind.assignmentOperator? with
  | some operator => assignment value operator
  | none =>
    expect .semicolon .afterExpression
    return .expression value

/-! ## Statements -/

/-- A statement, which its first token tells. -/
def statementStep (statement : Parser Statement) : Parser Statement := do
  match (← peek).kind with
  | .keyword .typedef => typedef
  | .keyword .distinct => distinct
  | .keyword .cond => conditional statement
  | .keyword .loop => loop statement
  | .keyword .ret => ret
  | .keyword .var => inferredDeclaration
  | .symbol .openBrace => return .block (← block statement)
  | _ =>
    if ← isTypeName then declaration statement
    else expressionStatement

/-- A statement. -/
def statement : Parser Statement :=
  recurse (fun (again : Unit → Parser Statement) _ => statementStep (again ())) ()

/-- A further statement, unless the end of the file stands there. -/
def nextInFile (read : Array Statement) : Parser (Option (Array Statement)) := do
  match (← peek).kind with
  | .endOfFile => return none
  | _ => return some (read.push (← statement))

/-- Statements up to the end of the file. -/
def fileStatements : Parser (List Statement) := do
  return (← iterate nextInFile #[]).toList

end Parser

end MiniC
