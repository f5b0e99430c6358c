/-
# MiniC.Proofs.Built.Expression — the types that declarators and expressions make

A declarator makes pointers, arrays and functions of a type that is known, and an expression makes
pointers. The other types of an expression are those of what its names stand for and parts of them,
those of its casts and the type that is suggested for its literals, and `bool`.

* `ensures_declaratorAround` — the type of a declarator is built.
* `ensures_expressionAbove` — the types of an expression are, those of its parts included.
-/
import MiniC.Proofs.Built

namespace MiniC

set_option autoImplicit false

/-! ## The types of an expression -/

namespace Expression

mutual

/-- The types of an expression and of those inside it. -/
def types : Expression → List Ty
  | integer ty .. => [ty]
  | name declaration .. => [declaration.ty]
  | unary ty _ operand _ => ty :: operand.types
  | binary ty _ left right _ => ty :: (left.types ++ right.types)
  | cast ty operand _ => ty :: operand.types
  | call ty callee arguments _ => ty :: (callee.types ++ typesAll arguments)
termination_by structural expression => expression

def typesAll : List Expression → List Ty
  | [] => []
  | expression :: rest => expression.types ++ typesAll rest
termination_by structural expressions => expressions

end

theorem ty_mem_types (expression : Expression) : expression.ty ∈ expression.types := by
  cases expression <;> exact List.mem_cons_self

theorem mem_typesAll {expressions : List Expression} {ty : Ty} :
    ty ∈ typesAll expressions ↔ ∃ expression ∈ expressions, ty ∈ expression.types := by
  induction expressions with
  | nil => simp [typesAll]
  | cons expression rest ih => simp [typesAll, ih]

/-- The types of the expression are built. -/
def Built (made : String → Ty → Prop) (expression : Expression) : Prop :=
  ∀ ty ∈ expression.types, ty.Built made

theorem Built.ty {made : String → Ty → Prop} {expression : Expression}
    (built : expression.Built made) : expression.ty.Built made :=
  built _ expression.ty_mem_types

end Expression

theorem UnaryOperator.built_of_result? {made : String → Ty → Prop} {operator : UnaryOperator}
    {site : Position} {operand ty : Ty} (built : operand.Built made)
    (result : operator.result? site operand = some ty) : ty.Built made := by
  cases operator with
  | plus | minus =>
    simp only [result?, Option.ite_none_right_eq_some] at result
    cases result.2
    exact built
  | addressOf =>
    cases result
    exact .pointer built
  | dereference => exact built.pointee? result

theorem BinaryOperator.built_of_result? {made : String → Ty → Prop} {operator : BinaryOperator}
    {left right ty : Ty} (built : left.Built made)
    (result : operator.result? left right = some ty) : ty.Built made := by
  unfold result? at result
  split at result
  · simp only [Option.ite_none_right_eq_some] at result
    cases result.2
    exact built
  · split at result <;> simp only [Option.ite_none_right_eq_some] at result <;> cases result.2 <;>
      exact Ty.built_bool

/-- Operands of `==` that it does not take are not compatible. -/
theorem BinaryOperator.not_compatible_of_result? {left right : Ty}
    (refused : BinaryOperator.equal.result? left right = none) : left.compatible right = false := by
  cases fits : left.compatible right with
  | false => rfl
  | true => simp [result?, isArithmetic, isRelational, fits] at refused

namespace Parser

variable {made : String → Ty → Prop}

theorem built_some {ty : Ty} (built : ty.Built made) : ∀ other ∈ some ty, other.Built made := by
  intro other same
  rwa [← Option.some.inj same]

/-- Only `==` tells operands that have to match. -/
theorem told_of_noBinaryOperator {operator : BinaryOperator} {left right : Ty}
    (leftBuilt : left.Built made) (rightBuilt : right.Built made)
    (refused : operator.result? left right = none) :
    (Fault.noBinaryOperator operator left right).Told made := by
  refine Fault.told_of_pair rfl leftBuilt rightBuilt ?_
  cases operator with
  | equal => exact .inr (BinaryOperator.not_compatible_of_result? refused)
  | _ => exact .inl rfl

/-! ## Declarators -/

theorem tame_isTypeName : Tame made isTypeName := by
  refine ensures_bind tame_peek fun token _ => ?_
  split
  · exact ensures_bind (ensures_findType? _) fun _ _ => ensures_pure trivial
  · exact ensures_pure trivial

theorem ensures_typeName : Ensures made (Ty.Built made) typeName := by
  refine ensures_bind tame_peek fun token _ => ?_
  split
  · refine ensures_bind (ensures_findType? _) fun found known => ?_
    split
    · next ty => exact ensures_bind tame_advance fun _ _ => ensures_pure (known ty rfl)
    · exact ensures_fail (Fault.told_of_untyped rfl)
  · exact ensures_fail (Fault.told_of_untyped rfl)

theorem ensures_pointer {ty : Ty} (built : ty.Built made) :
    Ensures made (fun wrapped => ∀ ty ∈ wrapped, ty.Built made) (pointer ty) := by
  refine ensures_bind tame_peek fun token _ => ensures_bind (tame_accept _) fun found _ => ?_
  split
  · refine ensures_pure fun wrapped same => ?_
    obtain rfl := Option.some.inj same
    exact .pointer built
  · exact ensures_pure nofun

theorem tame_scanComponents : Tame made scanComponents := by
  refine ensures_bind (ensures_iterate (I := fun _ => True) (fun scan _ => ?_) trivial) fun _ _ =>
    ensures_pure trivial
  refine ensures_bind tame_peek fun token _ => ensures_bind tame_cursor fun index _ => ?_
  split
  · exact ensures_pure fun _ _ => trivial
  · exact ensures_fail (Fault.told_of_untyped rfl)
  · exact ensures_bind tame_advance fun _ _ => ensures_pure fun _ _ => trivial

theorem ensures_arraySuffix {element : Ty} (built : element.Built made) :
    Ensures made (Ty.Built made) (arraySuffix element) := by
  refine ensures_bind tame_peek fun opening _ => ensures_bind (tame_expect _ _) fun _ _ =>
    ensures_bind tame_peek fun token _ => ?_
  split
  · split
    · exact ensures_bind tame_advance fun _ _ => ensures_bind (tame_expect _ _) fun _ _ =>
        ensures_pure (.array built)
    · exact ensures_fail (Fault.told_of_untyped rfl)
  · exact ensures_fail (Fault.told_of_untyped rfl)

/-- A declarator that gets a name keeps its type. -/
theorem ensures_withName (built : Declarator) (fits : built.ty.Built made)
    (declared : DeclaredName) :
    Ensures made (fun result => Ty.Built made result.ty) (ofExcept (built.withName declared)) := by
  unfold Declarator.withName
  split
  · exact ensures_failAt (Fault.told_of_untyped rfl) _
  · exact ensures_pure fits

section Inside

variable {inner : Option Ty → Parser Declarator}
  (each : ∀ base : Option Ty, (∀ ty ∈ base, ty.Built made) →
    Ensures made (fun declared => Ty.Built made declared.ty) (inner base))

include each

theorem ensures_parameterList :
    Ensures made (fun parameters => ∀ parameter ∈ parameters, Ty.Built made parameter.ty)
      (parameterList inner) := by
  have one : Ensures made (fun entry => Ty.Built made entry.ty) (parameter inner) :=
    ensures_bind tame_peek fun _ _ => ensures_bind (each none nofun) fun _ built =>
      ensures_pure built
  have further : ∀ read : Array (Parameter Ty), (∀ entry ∈ read, Ty.Built made entry.ty) →
      Ensures made (fun next => ∀ more ∈ next, ∀ entry ∈ more, Ty.Built made entry.ty)
        (nextParameter inner read) := by
    intro read before
    refine ensures_bind (tame_accept _) fun found _ => ?_
    split
    · refine ensures_bind one fun last built => ensures_pure fun more same entry member => ?_
      obtain rfl := Option.some.inj same
      rcases Array.mem_push.mp member with member | rfl
      · exact before entry member
      · exact built
    · exact ensures_pure nofun
  have all : Ensures made (fun read => ∀ entry ∈ read, Ty.Built made entry.ty)
      (parameters inner) := by
    refine ensures_bind (tame_check _) fun found _ => ?_
    split
    · exact ensures_pure nofun
    · refine ensures_bind one fun first built => ensures_iterate further fun entry member => ?_
      rwa [Array.mem_singleton.mp member]
  exact ensures_bind all fun read built => ensures_bind (tame_expect _ _) fun _ _ =>
    ensures_pure fun entry member => built entry (Array.mem_toList_iff.mp member)

theorem ensures_parenthesized {built : Declarator} (fits : built.ty.Built made) :
    Ensures made (fun declared => Ty.Built made declared.ty) (parenthesized inner built) := by
  refine ensures_bind tame_advance fun opening _ => ensures_bind (tame_check _) fun closed _ =>
    ensures_bind tame_isTypeName fun typed _ => ?_
  split
  · exact ensures_bind (ensures_parameterList each) fun _ entries =>
      ensures_pure (.function fits entries)
  · refine ensures_bind (each _ (built_some fits)) fun group inside =>
      ensures_bind (tame_expect _ _) fun _ _ => ?_
    split
    · exact ensures_withName ⟨group.ty, built.name⟩ inside _
    · exact ensures_pure inside

theorem ensures_component {built : Declarator} (fits : built.ty.Built made) (start : Nat) :
    Ensures made (fun declared => Ty.Built made declared.ty) (component inner built start) := by
  refine ensures_bind (tame_seek _) fun _ _ => ensures_bind tame_peek fun token _ => ?_
  split
  · exact ensures_bind (ensures_arraySuffix fits) fun _ wrapped => ensures_pure wrapped
  · exact ensures_parenthesized each fits
  · exact ensures_withName built fits _
  · exact ensures_fail (Fault.told_of_untyped rfl)

theorem ensures_declaratorStep {base : Option Ty} (fits : ∀ ty ∈ base, ty.Built made) :
    Ensures made (fun declared => Ty.Built made declared.ty) (declaratorStep inner base) := by
  have start : Ensures made (Ty.Built made) (baseType base) := by
    cases base with
    | some ty => exact ensures_pure (fits ty rfl)
    | none => exact ensures_typeName
  refine ensures_bind start fun ty known =>
    ensures_bind (ensures_iterate (fun _ built => ensures_pointer built) known) fun wrapped built =>
    ensures_bind tame_scanComponents fun components _ => ensures_bind tame_cursor fun stop _ => ?_
  exact ensures_bind
    (ensures_foldlM (fun _ start fits => ensures_component each fits start) components built)
    fun _ fits => ensures_bind (tame_seek _) fun _ _ => ensures_pure fits

end Inside

/-- The type of a declarator is built, if the one that it is around is. -/
theorem ensures_declaratorAround {base : Option Ty} (fits : ∀ ty ∈ base, ty.Built made) :
    Ensures made (fun declared => Ty.Built made declared.ty) (declaratorAround base) :=
  ensures_recurse (I := fun base : Option Ty => ∀ ty ∈ base, ty.Built made)
    (fun _ each _ fits => ensures_declaratorStep each fits) fits

theorem ensures_declarator : Ensures made (fun declared => Ty.Built made declared.ty) declarator :=
  ensures_declaratorAround nofun

/-! ## Expressions -/

theorem ensures_literal (value : Nat) {suggested : Option Ty}
    (fits : ∀ ty ∈ suggested, ty.Built made) :
    Ensures made (Expression.Built made) (literal value suggested) := by
  unfold literal
  split
  · next ty taken =>
    have built := fits ty (Option.filter_eq_some_iff.mp taken).1
    refine ensures_bind tame_advance fun token _ => ensures_pure fun part member => ?_
    rwa [List.mem_singleton.mp member]
  · exact ensures_fail (Fault.told_of_untyped rfl)

theorem ensures_reference (spelling : String) :
    Ensures made (Expression.Built made) (reference spelling) := by
  refine ensures_bind (ensures_findValue? _) fun found known => ?_
  split
  · next declared =>
    refine ensures_bind tame_advance fun token _ => ensures_pure fun part member => ?_
    rw [List.mem_singleton.mp member]
    exact known declared rfl
  · exact ensures_fail (Fault.told_of_untyped rfl)

theorem tame_separator (index : Nat) : Tame made (separator index) := by
  unfold separator
  split
  · exact tame_expect _ _
  · exact ensures_pure trivial

section Inside

variable {inner : ExpressionParser}
  (each : ∀ (minimum : Nat) (suggested : Option Ty), (∀ ty ∈ suggested, ty.Built made) →
    Ensures made (Expression.Built made) (inner minimum suggested))

include each

theorem ensures_cast (opening : Position) :
    Ensures made (Expression.Built made) (cast inner opening) := by
  refine ensures_bind ensures_declarator fun declared target => ?_
  split
  · exact ensures_failAt (Fault.told_of_untyped rfl) _
  · have suggested : ∀ ty ∈ some declared.ty, ty.Built made := by
      intro ty same
      obtain rfl := Option.some.inj same
      exact target
    refine ensures_bind (tame_expect _ _) fun _ _ =>
      ensures_bind (each _ _ (built_some target)) fun operand built => ?_
    split
    · exact ensures_pure (List.forall_mem_cons.mpr ⟨target, built⟩)
    · exact ensures_failAt (Fault.told_of_pair rfl built.ty target (.inl rfl)) _

theorem ensures_grouped {suggested : Option Ty} (fits : ∀ ty ∈ suggested, ty.Built made) :
    Ensures made (Expression.Built made) (grouped inner suggested) := by
  refine ensures_bind tame_advance fun opening _ => ensures_bind tame_isTypeName fun typed _ => ?_
  split
  · exact ensures_cast each _
  · exact ensures_bind (each _ _ fits) fun content built =>
      ensures_bind (tame_expect _ _) fun _ _ => ensures_pure built

theorem ensures_primary {suggested : Option Ty} (fits : ∀ ty ∈ suggested, ty.Built made) :
    Ensures made (Expression.Built made) (primary inner suggested) := by
  refine ensures_bind tame_peek fun token _ => ?_
  split
  · exact ensures_literal _ fits
  · exact ensures_reference _
  · exact ensures_grouped each fits
  · exact ensures_fail (Fault.told_of_untyped rfl)

theorem ensures_argumentsFrom (expected index : Nat) {parameters : List (Parameter Ty)}
    (fits : ∀ parameter ∈ parameters, Ty.Built made parameter.ty) :
    Ensures made (fun read => ∀ argument ∈ read, Expression.Built made argument)
      (argumentsFrom inner expected index parameters) := by
  induction parameters generalizing index with
  | nil => exact ensures_pure nofun
  | cons parameter rest ih =>
    obtain ⟨here, later⟩ := List.forall_mem_cons.mp fits
    refine ensures_bind (tame_check _) fun closed _ => ?_
    split
    · exact ensures_fail (Fault.told_of_untyped rfl)
    · refine ensures_bind (tame_separator _) fun _ _ =>
        ensures_bind (each _ _ (built_some here)) fun argument built => ?_
      split
      · exact ensures_bind (ih (index + 1) later) fun others more =>
          ensures_pure (List.forall_mem_cons.mpr ⟨built, more⟩)
      · next differ =>
        exact ensures_failAt
          (Fault.told_of_pair rfl built.ty here (.inr (Bool.eq_false_iff.mpr differ))) _

theorem ensures_arguments {parameters : List (Parameter Ty)}
    (fits : ∀ parameter ∈ parameters, Ty.Built made parameter.ty) :
    Ensures made (fun read => ∀ argument ∈ read, Expression.Built made argument)
      (arguments inner parameters) := by
  refine ensures_bind (ensures_argumentsFrom each _ 0 fits) fun read built =>
    ensures_bind (tame_check _) fun closed _ => ensures_bind (tame_check _) fun more _ => ?_
  split
  · exact ensures_fail (Fault.told_of_untyped rfl)
  · exact ensures_bind (tame_expect _ _) fun _ _ => ensures_pure built

theorem ensures_call {callee : Expression} (built : callee.Built made) :
    Ensures made (fun next => ∀ value ∈ next, Expression.Built made value) (call inner callee) := by
  refine ensures_bind (tame_check _) fun opened _ => ?_
  split
  · split
    · next result parameters signature =>
      obtain ⟨resultBuilt, fits⟩ := built.ty.signature? signature
      refine ensures_bind tame_advance fun _ _ =>
        ensures_bind (ensures_arguments each fits) fun read all => ensures_pure fun value same => ?_
      obtain rfl := Option.some.inj same
      refine List.forall_mem_cons.mpr ⟨resultBuilt, fun ty member => ?_⟩
      rcases List.mem_append.mp member with inside | inside
      · exact built ty inside
      · obtain ⟨argument, within, there⟩ := Expression.mem_typesAll.mp inside
        exact all argument within ty there
    · exact ensures_fail (Fault.told_of_single rfl built.ty)
  · exact ensures_pure nofun

theorem ensures_called {suggested : Option Ty} (fits : ∀ ty ∈ suggested, ty.Built made) :
    Ensures made (Expression.Built made) (called inner suggested) :=
  ensures_bind (ensures_primary each fits) fun _ built =>
    ensures_iterate (fun _ built => ensures_call each built) built

theorem ensures_signed (operator : UnaryOperator) {suggested : Option Ty}
    (fits : ∀ ty ∈ suggested, ty.Built made) :
    Ensures made (Expression.Built made) (signed inner operator suggested) := by
  have handed : ∀ ty ∈ (if operator.isSign then suggested else none), ty.Built made := by
    split
    · exact fits
    · exact nofun
  refine ensures_bind tame_advance fun token _ =>
    ensures_bind (each _ _ handed) fun operand built => ?_
  split
  · next result =>
    exact ensures_pure (List.forall_mem_cons.mpr
      ⟨UnaryOperator.built_of_result? built.ty result, built⟩)
  · exact ensures_failAt (Fault.told_of_single rfl built.ty) _

theorem ensures_unary {suggested : Option Ty} (fits : ∀ ty ∈ suggested, ty.Built made) :
    Ensures made (Expression.Built made) (unary inner suggested) := by
  refine ensures_bind tame_peek fun token _ => ?_
  split
  · exact ensures_signed each _ fits
  · exact ensures_called each fits

theorem ensures_extended (minimum : Nat) {left : Expression} (built : left.Built made) :
    Ensures made (fun next => ∀ value ∈ next, Expression.Built made value)
      (extended inner minimum left) := by
  refine ensures_bind tame_peek fun token _ => ?_
  split
  · split
    · exact ensures_pure nofun
    · refine ensures_bind tame_advance fun token _ =>
        ensures_bind (each _ _ (built_some built.ty)) fun right rightBuilt => ?_
      split
      · next result =>
        refine ensures_pure fun value same => ?_
        obtain rfl := Option.some.inj same
        exact List.forall_mem_cons.mpr ⟨BinaryOperator.built_of_result? built.ty result,
          List.forall_mem_append.mpr ⟨built, rightBuilt⟩⟩
      · next refused =>
        exact ensures_failAt (told_of_noBinaryOperator built.ty rightBuilt.ty refused) _
  · exact ensures_pure nofun

theorem ensures_climb (minimum : Nat) {suggested : Option Ty}
    (fits : ∀ ty ∈ suggested, ty.Built made) :
    Ensures made (Expression.Built made) (climb inner minimum suggested) :=
  ensures_bind (ensures_unary each fits) fun _ built =>
    ensures_iterate (fun _ built => ensures_extended each minimum built) built

end Inside

/-- The types of an expression are built, if the one that is suggested is. -/
theorem ensures_expressionAbove (minimum : Nat) {suggested : Option Ty}
    (fits : ∀ ty ∈ suggested, ty.Built made) :
    Ensures made (Expression.Built made) (expressionAbove minimum suggested) :=
  ensures_recurse (I := fun input : Nat × Option Ty => ∀ ty ∈ input.2, ty.Built made)
    (fun _ each input fits => ensures_climb (fun minimum suggested => each (minimum, suggested))
      input.1 fits) fits

theorem ensures_expression {suggested : Option Ty} (fits : ∀ ty ∈ suggested, ty.Built made) :
    Ensures made (Expression.Built made) (expression suggested) :=
  ensures_expressionAbove 0 fits

end Parser

end MiniC
