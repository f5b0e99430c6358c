/-
# MiniC.Proofs.Safety.Statement — statements are read inside the tokens

A statement meets itself behind the brace of a block only, and every turn of a block takes a
statement, which takes a token. So blocks come to an end as expressions do.
-/
import MiniC.Proofs.Safety.Expression

namespace MiniC

set_option autoImplicit false

/-- A function type has a signature. -/
theorem Ty.signature?_isSome {ty : Ty} (functional : ty.isFunction = true) :
    ty.signature?.isSome = true := by
  cases ty with
  | scalar tag kind => cases kind <;> cases functional
  | pointer | array => cases functional
  | function => rfl

namespace Parser

variable {tokens : Array Token} {start : Nat} {state : State}

/-! ## Blocks -/

theorem safe_blockStatements (inner : Safe tokens start statement) :
    Safe tokens start (blockStatements statement) := by
  refine safe_bind (safe_iterate advancing_nextInBlock (fun read => ?_) _) fun _ => safe_pure _
  refine safe_bind safe_peek fun token => ?_
  split
  · exact safe_pure _
  · exact safe_pure _
  · exact safe_bind inner fun _ => safe_pure _

section Behind

variable (inner : Safe tokens (start + 1) statement)

include inner

theorem safe_braced : Safe tokens start (braced statement) :=
  safe_bind safe_peek fun _ => safe_expect_bind _ (by decide) <|
    safe_bind (safe_blockStatements inner) fun _ => safe_bind safe_peek fun _ =>
      safe_bind (safe_expect _ (by decide)) fun _ => safe_pure _

theorem safe_block : Safe tokens start (block statement) :=
  safe_bind (safe_inScope (safe_braced inner)) fun _ => safe_pure _

/-! ## Functions -/

theorem safe_functionBody (parameters : List Declaration) (result : Ty) :
    Safe tokens start (functionBody statement parameters result) := by
  refine safe_bind (safe_forM _ safe_declare) fun _ =>
    safe_bind (safe_returning _ (safe_braced inner)) fun ⟨body, closing⟩ => ?_
  dsimp only
  split
  · exact safe_pure _
  · split
    · exact safe_pure _
    · exact safe_failAt rfl _

omit inner in
theorem safe_parameterDeclarations (parameters : List (Parameter Ty)) :
    Safe tokens start (parameterDeclarations parameters) := by
  refine safe_mapM _ fun parameter => ?_
  split
  · exact safe_pure _
  · exact safe_failAt rfl _

theorem safe_functionDefinition {ty : Ty} (functional : ty.isFunction = true)
    (name : DeclaredName) : Safe tokens start (functionDefinition statement ty name) := by
  refine safe_bind (fun state sound => (safeAt_pure sound _).of_eq id rfl) fun depth => ?_
  split
  · exact safe_failAt rfl _
  · split
    · next missing =>
      have signature := Ty.signature?_isSome functional
      rw [missing] at signature
      cases signature
    · exact safe_bind (safe_parameterDeclarations _) fun _ => safe_bind (safe_declare _) fun _ =>
        safe_bind (safe_inScope (safe_functionBody inner _ _)) fun _ => safe_pure _

end Behind

/-! ## Declarations -/

theorem safe_namedDeclarator : Safe tokens start namedDeclarator := by
  refine safe_bind safe_peek fun first => safe_bind safe_declarator fun declared => ?_
  split
  · exact safe_pure _
  · exact safe_failAt rfl _

theorem safe_initializer (ty : Ty) : Safe tokens start (initializer ty) := by
  refine safe_bind (safe_accept _) fun found => ?_
  split
  · refine safe_bind (safe_expression _) fun value => ?_
    split
    · exact safe_pure _
    · exact safe_failAt rfl _
  · exact safe_pure _

theorem safe_variableDeclaration (ty : Ty) (name : DeclaredName) :
    Safe tokens start (variableDeclaration ty name) :=
  safe_bind (safe_initializer _) fun _ => safe_bind (safe_expect _ (by decide)) fun _ =>
    safe_bind (safe_declare _) fun _ => safe_pure _

theorem safe_declaration (inner : Safe tokens (start + 1) statement) :
    Safe tokens start (declaration statement) := by
  refine safe_bind safe_namedDeclarator fun ⟨ty, name⟩ => safe_bind (safe_check _) fun braced => ?_
  split
  · next functional =>
    exact safe_functionDefinition inner (Bool.and_eq_true_iff.mp functional).1 _
  · exact safe_variableDeclaration _ _

theorem safe_inferredDeclaration : Safe tokens start inferredDeclaration := by
  refine safe_bind safe_advance fun _ => safe_bind safe_peek fun token => ?_
  split
  · exact safe_bind safe_advance fun _ => safe_bind (safe_expect _ (by decide)) fun _ =>
      safe_bind (safe_expression _) fun _ => safe_bind (safe_expect _ (by decide)) fun _ =>
      safe_bind (safe_declare _) fun _ => safe_pure _
  · exact safe_fail rfl

theorem safe_typedef : Safe tokens start typedef :=
  safe_bind safe_advance fun _ => safe_bind safe_namedDeclarator fun _ =>
    safe_bind (safe_expect _ (by decide)) fun _ => safe_bind (safe_define _ _ _) fun _ =>
    safe_pure _

theorem safe_distinct : Safe tokens start distinct :=
  safe_bind safe_advance fun _ => safe_bind safe_namedDeclarator fun _ =>
    safe_bind (safe_expect _ (by decide)) fun _ => safe_bind (safe_define _ _ _) fun _ =>
    safe_pure _

/-! ## Control flow -/

theorem safe_condition : Safe tokens start condition := by
  refine safe_bind (safe_expression _) fun value => ?_
  split
  · exact safe_pure _
  · exact safe_failAt rfl _

section Behind

variable (inner : Safe tokens (start + 1) statement)

include inner

theorem safe_alternative : Safe tokens start (alternative statement) := by
  refine safe_bind safe_peek fun token => ?_
  split
  · exact safe_bind safe_advance fun _ => safe_bind (safe_block inner) fun _ => safe_pure _
  · exact safe_pure _

theorem safe_conditional : Safe tokens start (conditional statement) :=
  safe_bind safe_advance fun _ => safe_bind safe_condition fun _ =>
    safe_bind (safe_block inner) fun _ => safe_bind (safe_alternative inner) fun _ => safe_pure _

theorem safe_loop : Safe tokens start (loop statement) :=
  safe_bind safe_advance fun _ => safe_bind safe_condition fun _ =>
    safe_bind (safe_block inner) fun _ => safe_pure _

end Behind

theorem safe_returnValue (result : Ty) (keyword : Position) :
    Safe tokens start (returnValue result keyword) := by
  refine safe_bind (safe_check _) fun bare => ?_
  split
  · split
    · exact safe_pure _
    · exact safe_failAt rfl _
  · refine safe_bind (safe_expression _) fun value => ?_
    split
    · exact safe_failAt rfl _
    · split
      · exact safe_pure _
      · exact safe_failAt rfl _

theorem safe_ret : Safe tokens start ret := by
  refine safe_bind safe_advance fun keyword => safe_bind safe_returnType fun result => ?_
  split
  · exact safe_failAt rfl _
  · exact safe_bind (safe_returnValue _ _) fun _ => safe_bind (safe_expect _ (by decide)) fun _ =>
      safe_pure _

/-! ## Expressions -/

theorem safe_assignment (target : Expression) (operator : AssignmentOperator) :
    Safe tokens start (assignment target operator) := by
  unfold assignment
  split
  · refine safe_bind safe_advance fun _ => safe_bind (safe_expression _) fun value => ?_
    split
    · exact safe_bind (safe_expect _ (by decide)) fun _ => safe_pure _
    · exact safe_failAt rfl _
  · exact safe_failAt rfl _

theorem safe_expressionStatement : Safe tokens start expressionStatement := by
  refine safe_bind (safe_expression _) fun value => safe_bind safe_peek fun token => ?_
  split
  · exact safe_assignment _ _
  · exact safe_bind (safe_expect _ (by decide)) fun _ => safe_pure _

/-! ## Statements -/

theorem safe_statementStep (inner : Safe tokens (start + 1) statement) :
    Safe tokens start (statementStep statement) := by
  refine safe_bind safe_peek fun token => ?_
  split
  · exact safe_typedef
  · exact safe_distinct
  · exact safe_conditional inner
  · exact safe_loop inner
  · exact safe_ret
  · exact safe_inferredDeclaration
  · exact safe_bind (safe_block inner) fun _ => safe_pure _
  · refine safe_bind safe_isTypeName fun typed => ?_
    split
    · exact safe_declaration inner
    · exact safe_expressionStatement

theorem safe_statement : Safe tokens start statement := by
  refine safe_of_later (fun _ : Unit => statement) (fun start later _ state sound => ?_) start ()
  exact (safe_statementStep (later ()) state sound).of_eq id
    (statement_eq (Nat.le_of_lt sound.high))

theorem safe_nextInFile (read : Array Statement) : Safe tokens start (nextInFile read) := by
  refine safe_bind safe_peek fun token => ?_
  split
  · exact safe_pure _
  · exact safe_bind safe_statement fun _ => safe_pure _

theorem safe_fileStatements : Safe tokens start fileStatements :=
  safe_bind (safe_iterate advancing_nextInFile safe_nextInFile _) fun _ => safe_pure _

end Parser

end MiniC
