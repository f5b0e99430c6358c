/-
# MiniC.Parser.Progress.Statement — why reading statements ends

A statement meets itself inside a block only, behind the brace that opens it.

* `guarded_statementStep` — statements inside a statement stand behind a token.
* `statement_eq` — so a statement is what its step makes of statements.
-/
import MiniC.Parser.Progress.Expression
import MiniC.Parser.Statement

namespace MiniC.Parser

set_option autoImplicit false

variable {tokens : Array Token} {start : Nat} {one other : Parser Statement}

/-! ## Blocks -/

theorem lands_nextInBlock (inner : Lands tokens start one other) (read : Array Statement) :
    Lands tokens start (nextInBlock one read) (nextInBlock other read) := by
  refine lands_bind lands_peek fun token => ?_
  split
  · exact lands_pure _
  · exact lands_pure _
  · exact lands_bind inner fun _ => lands_pure _

theorem lands_blockStatements (inner : Lands tokens start one other) :
    Lands tokens start (blockStatements one) (blockStatements other) :=
  lands_bind (lands_iterate (lands_nextInBlock inner) _) fun _ => lands_pure _

/-- Statements between braces stand behind the brace that opens them. -/
theorem lands_braced (inner : Lands tokens (start + 1) one other) :
    Lands tokens start (braced one) (braced other) :=
  lands_bind lands_peek fun _ =>
    lands_expect_bind _ _ <|
      lands_bind (lands_blockStatements inner) fun _ =>
        lands_bind lands_peek fun _ => lands_bind (lands_expect _ _) fun _ => lands_pure _

theorem lands_block (inner : Lands tokens (start + 1) one other) :
    Lands tokens start (block one) (block other) :=
  lands_bind (lands_inScope (lands_braced inner)) fun _ => lands_pure _

/-! ## Functions -/

theorem lands_parameterDeclarations (parameters : List (Parameter Ty)) :
    Lands tokens start (parameterDeclarations parameters) (parameterDeclarations parameters) := by
  refine lands_mapM _ fun parameter _ => ?_
  split
  · exact lands_pure _
  · exact lands_failAt _ _

theorem lands_functionBody (inner : Lands tokens (start + 1) one other)
    (parameters : List Declaration) (result : Ty) :
    Lands tokens start (functionBody one parameters result)
      (functionBody other parameters result) := by
  refine lands_bind (lands_forM _ fun _ _ => lands_declare _) fun _ =>
    lands_bind (lands_returning _ (lands_braced inner)) fun ⟨body, closing⟩ => ?_
  dsimp only
  split
  · exact lands_pure _
  · split
    · exact lands_pure _
    · exact lands_failAt _ _

theorem lands_functionDefinition (inner : Lands tokens (start + 1) one other) (ty : Ty)
    (name : DeclaredName) :
    Lands tokens start (functionDefinition one ty name) (functionDefinition other ty name) := by
  refine lands_bind lands_depth fun depth => ?_
  split
  · exact lands_failAt _ _
  · split
    · exact lands_failAt _ _
    · exact lands_bind (lands_parameterDeclarations _) fun _ =>
        lands_bind (lands_declare _) fun _ =>
        lands_bind (lands_inScope (lands_functionBody inner _ _)) fun _ => lands_pure _

/-! ## Declarations -/

theorem lands_namedDeclarator : Lands tokens start namedDeclarator namedDeclarator := by
  refine lands_bind lands_peek fun first => lands_bind lands_declarator fun declared => ?_
  split
  · exact lands_pure _
  · exact lands_failAt _ _

theorem lands_initializer (ty : Ty) :
    Lands tokens start (initializer ty) (initializer ty) := by
  refine lands_bind (lands_accept _) fun found => ?_
  split
  · refine lands_bind (lands_expression _) fun value => ?_
    split
    · exact lands_pure _
    · exact lands_failAt _ _
  · exact lands_pure _

theorem lands_variableDeclaration (ty : Ty) (name : DeclaredName) :
    Lands tokens start (variableDeclaration ty name) (variableDeclaration ty name) :=
  lands_bind (lands_initializer _) fun _ => lands_bind (lands_expect _ _) fun _ =>
    lands_bind (lands_declare _) fun _ => lands_pure _

theorem lands_declaration (inner : Lands tokens (start + 1) one other) :
    Lands tokens start (declaration one) (declaration other) := by
  refine lands_bind lands_namedDeclarator fun ⟨ty, name⟩ => ?_
  refine lands_bind (lands_check _) fun brace => ?_
  split
  · exact lands_functionDefinition inner _ _
  · exact lands_variableDeclaration _ _

theorem lands_inferredDeclaration :
    Lands tokens start inferredDeclaration inferredDeclaration := by
  refine lands_bind lands_advance fun _ => lands_bind lands_peek fun token => ?_
  split
  · exact lands_bind lands_advance fun _ => lands_bind (lands_expect _ _) fun _ =>
      lands_bind (lands_expression _) fun _ => lands_bind (lands_expect _ _) fun _ =>
      lands_bind (lands_declare _) fun _ => lands_pure _
  · exact lands_fail _

theorem lands_typedef : Lands tokens start typedef typedef :=
  lands_bind lands_advance fun _ => lands_bind lands_namedDeclarator fun _ =>
    lands_bind (lands_expect _ _) fun _ => lands_bind (lands_define _ _ _) fun _ => lands_pure _

theorem lands_distinct : Lands tokens start distinct distinct :=
  lands_bind lands_advance fun _ => lands_bind lands_namedDeclarator fun _ =>
    lands_bind (lands_expect _ _) fun _ => lands_bind (lands_define _ _ _) fun _ => lands_pure _

/-! ## Control flow -/

theorem lands_condition : Lands tokens start condition condition := by
  refine lands_bind (lands_expression _) fun value => ?_
  split
  · exact lands_pure _
  · exact lands_failAt _ _

theorem lands_alternative (inner : Lands tokens (start + 1) one other) :
    Lands tokens start (alternative one) (alternative other) := by
  refine lands_bind lands_peek fun token => ?_
  split
  · exact lands_bind lands_advance fun _ => lands_bind (lands_block inner) fun _ => lands_pure _
  · exact lands_pure _

theorem lands_conditional (inner : Lands tokens (start + 1) one other) :
    Lands tokens start (conditional one) (conditional other) :=
  lands_bind lands_advance fun _ => lands_bind lands_condition fun _ =>
    lands_bind (lands_block inner) fun _ => lands_bind (lands_alternative inner) fun _ =>
    lands_pure _

theorem lands_loop (inner : Lands tokens (start + 1) one other) :
    Lands tokens start (loop one) (loop other) :=
  lands_bind lands_advance fun _ => lands_bind lands_condition fun _ =>
    lands_bind (lands_block inner) fun _ => lands_pure _

theorem lands_returnValue (result : Ty) (keyword : Position) :
    Lands tokens start (returnValue result keyword) (returnValue result keyword) := by
  refine lands_bind (lands_check _) fun bare => ?_
  split
  · split
    · exact lands_pure _
    · exact lands_failAt _ _
  · refine lands_bind (lands_expression _) fun value => ?_
    split
    · exact lands_failAt _ _
    · split
      · exact lands_pure _
      · exact lands_failAt _ _

theorem lands_ret : Lands tokens start ret ret := by
  refine lands_bind lands_advance fun keyword => lands_bind lands_returnType fun result => ?_
  split
  · exact lands_failAt _ _
  · exact lands_bind (lands_returnValue _ _) fun _ => lands_bind (lands_expect _ _) fun _ =>
      lands_pure _

/-! ## Expressions -/

theorem lands_assignment (target : Expression) (operator : AssignmentOperator) :
    Lands tokens start (assignment target operator) (assignment target operator) := by
  unfold assignment
  split
  · refine lands_bind lands_advance fun _ => lands_bind (lands_expression _) fun value => ?_
    split
    · exact lands_bind (lands_expect _ _) fun _ => lands_pure _
    · exact lands_failAt _ _
  · exact lands_failAt _ _

theorem lands_expressionStatement :
    Lands tokens start expressionStatement expressionStatement := by
  refine lands_bind (lands_expression _) fun value => lands_bind lands_peek fun token => ?_
  split
  · exact lands_assignment _ _
  · exact lands_bind (lands_expect _ _) fun _ => lands_pure _

/-! ## Statements -/

theorem lands_statementStep (inner : Lands tokens (start + 1) one other) :
    Lands tokens start (statementStep one) (statementStep other) := by
  refine lands_bind lands_peek fun token => ?_
  split
  · exact lands_typedef
  · exact lands_distinct
  · exact lands_conditional inner
  · exact lands_loop inner
  · exact lands_ret
  · exact lands_inferredDeclaration
  · exact lands_bind (lands_block inner) fun _ => lands_pure _
  · refine lands_bind lands_isTypeName fun typed => ?_
    split
    · exact lands_declaration inner
    · exact lands_expressionStatement

/-- Statements inside a statement stand behind a token. -/
theorem guarded_statementStep :
    Guarded fun (again : Unit → Parser Statement) _ => statementStep (again ()) :=
  fun _ _ _ _ inner _ => lands_statementStep (inner ())

theorem lands_statement : Lands tokens start statement statement :=
  lands_recurse guarded_statementStep ()

/-- A statement is what its step makes of statements. -/
theorem statement_eq {state : State} (within : state.cursor ≤ tokens.size) :
    statement tokens state = statementStep statement tokens state :=
  recurse_eq guarded_statementStep () within

end MiniC.Parser
