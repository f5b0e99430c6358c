/-
# MiniC.Proofs.Lookahead.Statement — a statement looks no token ahead

A statement ends with a semicolon or a brace, and depends on no token behind it, but that a
conditional looks for an `else`: `stops_statement`.
-/
import MiniC.Parser.Statement
import MiniC.Proofs.Lookahead.Expression

namespace MiniC.Parser

set_option autoImplicit false

variable {tokens tokens' : Array Token} {one other : Parser Statement}

section Inside

variable (inner : Stops tokens tokens' 1 one other)

include inner

/-! ## Blocks -/

theorem glances_nextInBlock (read : Array Statement) :
    Glances tokens tokens' (nextInBlock one read) (nextInBlock other read) := by
  refine glances_bind glances_peek fun token => ?_
  split
  · exact keeps_pure _
  · exact keeps_pure _
  · exact glances_bind inner.glances fun _ => keeps_pure _

theorem stops_braced : Stops tokens tokens' 1 (braced one) (braced other) :=
  stops_bind_of_glances glances_peek fun _ =>
    stops_bind_of_glances (glances_expect _ _) fun _ =>
    stops_bind_of_glances (glances_bind (glances_iterate (glances_nextInBlock inner) _) fun _ =>
      keeps_pure _) fun _ =>
    stops_bind_of_glances glances_peek fun _ =>
    stops_bind (stops_expect _ _) fun _ => keeps_pure _

theorem stops_block : Stops tokens tokens' 1 (block one) (block other) :=
  stops_bind (keeps_inScope (stops_braced inner)) fun _ => keeps_pure _

/-! ## Functions -/

theorem stops_functionBody (parameters : List Declaration) (result : Ty) :
    Stops tokens tokens' 1 (functionBody one parameters result)
      (functionBody other parameters result) := by
  refine stops_bind_of_glances (stops_forM _ fun _ => keeps_declare _).glances fun _ =>
    stops_bind (keeps_returning _ (stops_braced inner)) fun (body, closing) => ?_
  dsimp only
  split
  · exact keeps_pure _
  · split
    · exact keeps_pure _
    · exact keeps_failAt _ _

omit inner in
theorem stops_parameterDeclarations (parameters : List (Parameter Ty)) :
    Stops tokens tokens' 0 (parameterDeclarations parameters) (parameterDeclarations parameters) := by
  refine stops_mapM _ fun parameter => ?_
  split
  · exact keeps_pure _
  · exact keeps_failAt _ _

theorem stops_functionDefinition (ty : Ty) (name : DeclaredName) :
    Stops tokens tokens' 1 (functionDefinition one ty name) (functionDefinition other ty name) := by
  refine stops_bind_of_glances keeps_depth fun depth => ?_
  split
  · exact keeps_failAt _ _
  · split
    · exact keeps_failAt _ _
    · exact stops_bind_of_glances (stops_parameterDeclarations _).glances fun _ =>
        stops_bind_of_glances (keeps_declare _) fun _ =>
        stops_bind (keeps_inScope (stops_functionBody inner _ _)) fun _ => keeps_pure _

end Inside

/-! ## Declarations -/

theorem glances_namedDeclarator :
    Glances tokens tokens' namedDeclarator namedDeclarator := by
  refine glances_bind glances_peek fun first => glances_bind glances_declarator fun declared => ?_
  split
  · exact keeps_pure _
  · exact keeps_failAt _ _

theorem glances_initializer (ty : Ty) :
    Glances tokens tokens' (initializer ty) (initializer ty) := by
  refine glances_bind (glances_accept _) fun found => ?_
  split
  · refine glances_bind (glances_expression _) fun value => ?_
    split
    · exact keeps_pure _
    · exact keeps_failAt _ _
  · exact keeps_pure _

theorem stops_variableDeclaration (ty : Ty) (name : DeclaredName) :
    Stops tokens tokens' 1 (variableDeclaration ty name) (variableDeclaration ty name) :=
  stops_bind_of_glances (glances_initializer _) fun _ => stops_bind (stops_expect _ _) fun _ =>
    stops_bind (keeps_declare _) fun _ => keeps_pure _

theorem stops_declaration (inner : Stops tokens tokens' 1 one other) :
    Stops tokens tokens' 1 (declaration one) (declaration other) := by
  refine stops_bind_of_glances glances_namedDeclarator fun (ty, name) =>
    stops_bind_of_glances (glances_check _) fun brace => ?_
  split
  · exact stops_functionDefinition inner _ _
  · exact stops_variableDeclaration _ _

theorem stops_inferredDeclaration :
    Stops tokens tokens' 1 inferredDeclaration inferredDeclaration := by
  refine stops_bind_of_glances glances_advance fun _ =>
    stops_bind_of_glances glances_peek fun token => ?_
  split
  · exact stops_bind_of_glances glances_advance fun _ =>
      stops_bind_of_glances (glances_expect _ _) fun _ =>
      stops_bind_of_glances (glances_expression _) fun _ => stops_bind (stops_expect _ _) fun _ =>
      stops_bind (keeps_declare _) fun _ => keeps_pure _
  · exact keeps_fail _

theorem stops_typedef : Stops tokens tokens' 1 typedef typedef :=
  stops_bind_of_glances glances_advance fun _ =>
    stops_bind_of_glances glances_namedDeclarator fun _ => stops_bind (stops_expect _ _) fun _ =>
    stops_bind (keeps_define _ _ _) fun _ => keeps_pure _

theorem stops_distinct : Stops tokens tokens' 1 distinct distinct :=
  stops_bind_of_glances glances_advance fun _ =>
    stops_bind_of_glances glances_namedDeclarator fun _ => stops_bind (stops_expect _ _) fun _ =>
    stops_bind (keeps_define _ _ _) fun _ => keeps_pure _

/-! ## Control flow -/

theorem glances_condition : Glances tokens tokens' condition condition := by
  refine glances_bind (glances_expression _) fun value => ?_
  split
  · exact keeps_pure _
  · exact keeps_failAt _ _

section Inside

variable (inner : Stops tokens tokens' 1 one other)

include inner

/-- Where no alternative is read no `else` stands, and none may come to stand there. -/
theorem stops_alternative : Stops tokens tokens' 0 (alternative one) (alternative other) := by
  intro state after value run
  obtain ⟨token, _, looked, run⟩ := runs_bind.mp run
  obtain ⟨here, rfl⟩ := runs_peek.mp looked
  split at run
  · next otherwise =>
    have taken : Stops tokens tokens' 1
        (advance >>= fun _ => block one >>= fun body => pure (some body))
        (advance >>= fun _ => block other >>= fun body => pure (some body)) :=
      stops_bind_of_glances glances_advance fun _ =>
        stops_bind (stops_block inner) fun _ => keeps_pure _
    obtain ⟨low, same⟩ := taken _ _ _ run
    refine ⟨Nat.le_of_succ_le low, fun continues => ?_⟩
    have there := continues.same _ (Nat.lt_of_succ_le low)
    refine runs_bind.mpr ⟨token, state, runs_peek.mpr ⟨by rw [there, here], rfl⟩, ?_⟩
    rw [if_pos otherwise]
    exact same continues
  · next absent =>
    obtain ⟨rfl, rfl⟩ := runs_pure.mp run
    refine ⟨Nat.le_refl _, fun continues => ?_⟩
    have within := (Array.getElem?_eq_some_iff.mp here).1
    have within' := Nat.lt_of_lt_of_le within continues.size_le
    refine runs_bind.mpr ⟨_, state, runs_peek.mpr ⟨Array.getElem?_eq_getElem within', rfl⟩, ?_⟩
    rw [if_neg]
    · exact runs_pure.mpr ⟨rfl, rfl⟩
    · intro found
      refine absent (beq_iff_eq.mpr (Option.some.inj ?_))
      rw [← kindAt_of_getElem? here]
      refine continues.free ?_
      rw [kindAt_of_getElem? (Array.getElem?_eq_getElem within'), eq_of_beq found]

theorem stops_conditional : Stops tokens tokens' 1 (conditional one) (conditional other) :=
  stops_bind_of_glances glances_advance fun _ => stops_bind_of_glances glances_condition fun _ =>
    stops_bind (stops_block inner) fun _ => stops_bind (stops_alternative inner) fun _ =>
    keeps_pure _

theorem stops_loop : Stops tokens tokens' 1 (loop one) (loop other) :=
  stops_bind_of_glances glances_advance fun _ => stops_bind_of_glances glances_condition fun _ =>
    stops_bind (stops_block inner) fun _ => keeps_pure _

end Inside

theorem glances_returnValue (result : Ty) (keyword : Position) :
    Glances tokens tokens' (returnValue result keyword) (returnValue result keyword) := by
  refine glances_bind (glances_check _) fun bare => ?_
  split
  · split
    · exact keeps_pure _
    · exact keeps_failAt _ _
  · refine glances_bind (glances_expression _) fun value => ?_
    split
    · exact keeps_failAt _ _
    · split
      · exact keeps_pure _
      · exact keeps_failAt _ _

theorem stops_ret : Stops tokens tokens' 1 ret ret := by
  refine stops_bind_of_glances glances_advance fun keyword =>
    stops_bind_of_glances keeps_returnType fun result => ?_
  split
  · exact keeps_failAt _ _
  · exact stops_bind_of_glances (glances_returnValue _ _) fun _ =>
      stops_bind (stops_expect _ _) fun _ => keeps_pure _

/-! ## Expressions -/

theorem stops_assignment (target : Expression) (operator : AssignmentOperator) :
    Stops tokens tokens' 1 (assignment target operator) (assignment target operator) := by
  unfold assignment
  split
  · refine stops_bind_of_glances glances_advance fun _ =>
      stops_bind_of_glances (glances_expression _) fun value => ?_
    split
    · exact stops_bind (stops_expect _ _) fun _ => keeps_pure _
    · exact keeps_failAt _ _
  · exact keeps_failAt _ _

theorem stops_expressionStatement :
    Stops tokens tokens' 1 expressionStatement expressionStatement := by
  refine stops_bind_of_glances (glances_expression _) fun value =>
    stops_bind_of_glances glances_peek fun token => ?_
  split
  · exact stops_assignment _ _
  · exact stops_bind (stops_expect _ _) fun _ => keeps_pure _

/-! ## Statements -/

theorem stops_statementStep (inner : Stops tokens tokens' 1 one other) :
    Stops tokens tokens' 1 (statementStep one) (statementStep other) := by
  refine stops_bind_of_glances glances_peek fun token => ?_
  split
  · exact stops_typedef
  · exact stops_distinct
  · exact stops_conditional inner
  · exact stops_loop inner
  · exact stops_ret
  · exact stops_inferredDeclaration
  · exact stops_bind (stops_block inner) fun _ => keeps_pure _
  · refine stops_bind_of_glances glances_isTypeName fun typed => ?_
    split
    · exact stops_declaration inner
    · exact stops_expressionStatement

/-- A statement depends on the tokens that it takes, and on no further one being `else`. -/
theorem stops_statement : Stops tokens tokens' 1 statement statement := by
  have inside : ∀ one other : Unit → Parser Statement,
      (∀ input, Stops tokens tokens' 1 (one input) (other input)) →
      ∀ _ : Unit, Stops tokens tokens' 1 (statementStep (one ())) (statementStep (other ())) :=
    fun _ _ inner _ => stops_statementStep (inner ())
  exact keeps_recurse (fun _ continues => continues.size_le) inside ()

end MiniC.Parser
