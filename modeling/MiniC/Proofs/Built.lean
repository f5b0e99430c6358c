/-
# MiniC.Proofs.Built — reading makes no types but by its constructions

A type that reading comes to is built in, or it was known before, or it is a pointer, an array or a
function made of such types, or the copy that a definition names. So where all types that a state
holds are built, those of what is read are, and those that an error tells. An error that holds two
types against each other found that they are not compatible.

* `State.Built` — all types that a state holds are built.
* `Fault.Told` — all types that a fault tells are built, and two that it holds against each other
  are not compatible.
* `EnsuresAt`, `Ensures` — what a parser reads, and that its errors tell such faults.
-/
import MiniC.Proofs.Description
import MiniC.Proofs.Frame
import MiniC.Proofs.Scopes
import MiniC.Source

namespace MiniC

set_option autoImplicit false

/-! ## Faults -/

namespace Fault

/-- The types that a fault tells. -/
def types : Fault → List Ty
  | notFunctionType ty | returnsNothing ty | conditionNotBool ty | noUnaryOperator _ ty
  | notCallable ty => [ty]
  | initializerMismatch one other | returnMismatch one other | argumentMismatch _ one other
  | assignmentMismatch _ one other | noBinaryOperator _ one other | invalidCast one other =>
    [one, other]
  | _ => []

/-- The two types that have to match and do not: those of an initializer, a returned value, an
argument or an assigned value and what it is for, or of the operands of `==`. -/
def mismatch? : Fault → Option (Ty × Ty)
  | initializerMismatch one other | returnMismatch one other | argumentMismatch _ one other
  | assignmentMismatch .assign one other | noBinaryOperator .equal one other => some (one, other)
  | _ => none

theorem types_of_mismatch? {fault : Fault} {one other : Ty}
    (mismatch : fault.mismatch? = some (one, other)) : fault.types = [one, other] := by
  unfold mismatch? at mismatch
  split at mismatch <;> cases mismatch <;> rfl

/-- The message shows both types. -/
theorem message_of_mismatch? {fault : Fault} {one other : Ty}
    (mismatch : fault.mismatch? = some (one, other)) :
    ∃ before between behind,
      fault.message = before ++ one.describe ++ between ++ other.describe ++ behind := by
  unfold mismatch? at mismatch
  split at mismatch <;> cases mismatch
  · exact ⟨"Initializer type ", _, "", String.append_empty.symm⟩
  · exact ⟨"Return type ", _, "", String.append_empty.symm⟩
  · next number => exact ⟨"Argument " ++ toString number ++ " has type ", _, "",
      String.append_empty.symm⟩
  · exact ⟨"Cannot apply '=' to ", _, "", String.append_empty.symm⟩
  · exact ⟨"No binary operator '==' for types ", _, "", String.append_empty.symm⟩

/-- The types that a fault tells are built, and types that it holds against each other are not
compatible. -/
structure Told (made : String → Ty → Prop) (fault : Fault) : Prop where
  built : ∀ ty ∈ fault.types, ty.Built made
  apart : ∀ one other, fault.mismatch? = some (one, other) → one.compatible other = false

variable {made : String → Ty → Prop} {fault : Fault}

theorem told_of_untyped (untyped : fault.types = []) : fault.Told made := by
  refine ⟨fun ty member => ?_, fun one other mismatch => ?_⟩
  · rw [untyped] at member
    cases member
  · rw [types_of_mismatch? mismatch] at untyped
    cases untyped

theorem told_of_single {ty : Ty} (single : fault.types = [ty]) (built : ty.Built made) :
    fault.Told made := by
  refine ⟨fun other member => ?_, fun one other mismatch => ?_⟩
  · rw [single, List.mem_singleton] at member
    rwa [member]
  · rw [types_of_mismatch? mismatch] at single
    cases single

theorem told_of_pair {one other : Ty} (pair : fault.types = [one, other])
    (built : one.Built made) (otherBuilt : other.Built made)
    (apart : fault.mismatch? = none ∨ one.compatible other = false) : fault.Told made := by
  refine ⟨fun ty member => ?_, fun left right mismatch => ?_⟩
  · rw [pair] at member
    rcases List.mem_cons.mp member with rfl | member
    · exact built
    · rwa [List.mem_singleton.mp member]
  · rw [types_of_mismatch? mismatch] at pair
    cases pair
    exact apart.resolve_left (by simp [mismatch])

/-- Types that have to match and are told to differ have different texts. -/
theorem Told.describe_ne (told : fault.Told made) (wellNamed : Ty.WellNamed made) {one other : Ty}
    (mismatch : fault.mismatch? = some (one, other)) : one.describe ≠ other.describe := by
  intro same
  have types := types_of_mismatch? mismatch
  have built : ∀ ty ∈ [one, other], ty.Built made := types ▸ told.built
  have outlines := (built one List.mem_cons_self).outline_eq wellNamed
    (built other (List.mem_cons_of_mem _ List.mem_cons_self)) same
  have fits := Ty.compatible_of_outline_eq outlines
  rw [told.apart one other mismatch] at fits
  cases fits

end Fault

/-! ## Parts of types -/

namespace Ty

/-- The types that a type is directly made of. -/
def parts : Ty → List Ty
  | scalar .. => []
  | pointer _ pointee => [pointee]
  | array _ element _ => [element]
  | function _ result parameters => result :: parameters.map (·.ty)

theorem parts_retag (tag : Tag) (ty : Ty) : (ty.retag tag).parts = ty.parts := by
  cases ty <;> rfl

variable {made : String → Ty → Prop} {ty : Ty}

theorem Built.parts (built : ty.Built made) : ∀ part ∈ ty.parts, part.Built made := by
  induction built with
  | @builtin name ty known =>
    have none : ∀ entry ∈ builtins, entry.2.parts = [] := by decide
    intro part member
    rw [none _ known] at member
    cases member
  | distinct _ _ ih =>
    rw [Ty.distinctAt, parts_retag]
    exact ih
  | pointer built | array built =>
    intro part member
    rwa [List.mem_singleton.mp member]
  | function built each =>
    intro part member
    rcases List.mem_cons.mp member with rfl | member
    · exact built
    · obtain ⟨parameter, within, rfl⟩ := List.mem_map.mp member
      exact each parameter within

theorem Built.pointee? (built : ty.Built made) {pointee : Ty}
    (points : ty.pointee? = some pointee) : pointee.Built made := by
  cases ty with
  | pointer tag inner =>
    obtain rfl : inner = pointee := Option.some.inj points
    exact built.parts _ List.mem_cons_self
  | _ => cases points

theorem Built.signature? (built : ty.Built made) {result : Ty} {parameters : List (Parameter Ty)}
    (signature : ty.signature? = some (result, parameters)) :
    result.Built made ∧ ∀ parameter ∈ parameters, parameter.ty.Built made := by
  cases ty with
  | function tag =>
    cases signature
    exact ⟨built.parts _ List.mem_cons_self, fun parameter member =>
      built.parts _ (List.mem_cons_of_mem _ (List.mem_map_of_mem member))⟩
  | _ => cases signature

theorem built_bool : Ty.bool.Built made :=
  @Built.builtin made "bool" Ty.bool (by decide)

end Ty

/-! ## States -/

/-- A level binds a name to the value. -/
def Namespace.Knows {α : Type} (levels : Namespace α) (value : α) : Prop :=
  ∃ level ∈ levels, ∃ name, (name, value) ∈ level

namespace Namespace

variable {α : Type} {levels after : Namespace α} {name : String} {value known : α}

theorem knows_of_find? (found : levels.find? name = some value) : levels.Knows value := by
  obtain ⟨level, opened, bound⟩ := List.exists_of_findSome?_eq_some found
  refine ⟨level, opened, name, ?_⟩
  clear opened
  induction level with
  | nil => cases bound
  | cons entry rest ih =>
    rw [List.lookup_cons] at bound
    split at bound
    · next same =>
      cases bound
      rw [beq_iff_eq.mp same]
      exact List.mem_cons_self
    · exact List.mem_cons_of_mem _ (ih bound)

theorem Gains.knows (gains : levels.Gains name value after) (knows : after.Knows known) :
    known = value ∨ levels.Knows known := by
  obtain ⟨level, outer, rfl, _, rfl⟩ := gains
  obtain ⟨found, opened, other, member⟩ := knows
  rcases List.mem_cons.mp opened with rfl | opened
  · rcases List.mem_cons.mp member with same | member
    · exact .inl (Prod.mk.inj same).2
    · exact .inr ⟨level, List.mem_cons_self, other, member⟩
  · exact .inr ⟨found, List.mem_cons_of_mem _ opened, other, member⟩

theorem knows_of_push (knows : Knows ([] :: levels) known) : levels.Knows known := by
  obtain ⟨level, opened, other, member⟩ := knows
  rcases List.mem_cons.mp opened with rfl | opened
  · cases member
  · exact ⟨level, opened, other, member⟩

theorem knows_of_tail (knows : Knows levels.tail known) : levels.Knows known := by
  obtain ⟨level, opened, bound⟩ := knows
  exact ⟨level, List.mem_of_mem_tail opened, bound⟩

end Namespace

/-- All types that the state holds are built. -/
structure State.Built (made : String → Ty → Prop) (state : State) : Prop where
  types : ∀ ty, state.scopes.types.Knows ty → ty.Built made
  values : ∀ declared : Declaration, state.scopes.values.Knows declared → declared.ty.Built made
  result : ∀ ty, state.returnType = some ty → ty.Built made

namespace State.Built

variable {made : String → Ty → Prop} {state : State}

theorem initial : Built made State.initial := by
  refine ⟨fun ty knows => ?_, fun declared knows => ?_, nofun⟩
  · obtain ⟨level, opened, name, member⟩ := knows
    obtain rfl := List.mem_singleton.mp opened
    exact .builtin (List.mem_reverse.mp member)
  · obtain ⟨level, opened, name, member⟩ := knows
    obtain rfl := List.mem_singleton.mp opened
    cases member

theorem seek (built : state.Built made) (cursor : Nat) : Built made { state with cursor } :=
  ⟨built.types, built.values, built.result⟩

theorem findType? (built : state.Built made) {name : String} {ty : Ty}
    (found : state.scopes.findType? name = some ty) : ty.Built made :=
  built.types ty (Namespace.knows_of_find? found)

theorem findValue? (built : state.Built made) {name : String} {declared : Declaration}
    (found : state.scopes.findValue? name = some declared) : declared.ty.Built made :=
  built.values declared (Namespace.knows_of_find? found)

theorem push (built : state.Built made) :
    Built made { state with scopes := state.scopes.push } :=
  ⟨fun ty knows => built.types ty (Namespace.knows_of_push knows),
    fun declared knows => built.values declared (Namespace.knows_of_push knows), built.result⟩

theorem pop (built : state.Built made) :
    Built made { state with scopes := state.scopes.pop } := by
  unfold Scopes.pop
  split
  · exact ⟨fun ty knows => built.types ty (Namespace.knows_of_tail knows),
      fun declared knows => built.values declared (Namespace.knows_of_tail knows), built.result⟩
  · exact built

theorem declare (built : state.Built made) {declared : Declaration} {scopes : Scopes}
    (declaring : state.scopes.declare declared = .ok scopes) (fits : declared.ty.Built made) :
    Built made { state with scopes } := by
  obtain ⟨gains, kept⟩ := Scopes.declare_eq_ok.mp declaring
  refine ⟨fun ty knows => built.types ty (kept ▸ knows), fun known knows => ?_, built.result⟩
  rcases gains.knows knows with rfl | before
  · exact fits
  · exact built.values known before

theorem declareAll {declarations : List Declaration} {opened : Scopes} (built : state.Built made)
    (declaring : declarations.foldlM Scopes.declare state.scopes = .ok opened)
    (fits : ∀ declared ∈ declarations, Ty.Built made declared.ty) :
    Built made { state with scopes := opened } := by
  induction declarations generalizing state with
  | nil =>
    cases declaring
    exact built
  | cons declared rest ih =>
    obtain ⟨here, later⟩ := List.forall_mem_cons.mp fits
    rw [List.foldlM_cons] at declaring
    rcases one : state.scopes.declare declared with error | scopes
    · rw [one] at declaring
      cases declaring
    · rw [one] at declaring
      have others := ih (built.declare one here) declaring later
      exact others

theorem define (built : state.Built made) {name : String} {ty : Ty} {position : Position}
    {scopes : Scopes} (defining : state.scopes.define name ty position = .ok scopes)
    (fits : ty.Built made) : Built made { state with scopes } := by
  obtain ⟨gains, kept⟩ := Scopes.define_eq_ok.mp defining
  refine ⟨fun known knows => ?_, fun declared knows => built.values declared (kept ▸ knows),
    built.result⟩
  rcases gains.knows knows with rfl | before
  · exact fits
  · exact built.types known before

theorem returning (built : state.Built made) {result : Option Ty}
    (fits : ∀ ty, result = some ty → ty.Built made) :
    Built made { state with returnType := result } :=
  ⟨built.types, built.values, fits⟩

end State.Built

/-- A refused name is no matter of types. -/
theorem Scopes.untyped_of_declare {scopes : Scopes} {declared : Declaration} {error : CompileError}
    (refused : scopes.declare declared = .error error) : error.fault.types = [] := by
  unfold Scopes.declare at refused
  split at refused <;> cases refused <;> rfl

theorem Scopes.untyped_of_define {scopes : Scopes} {name : String} {ty : Ty} {position : Position}
    {error : CompileError} (refused : scopes.define name ty position = .error error) :
    error.fault.types = [] := by
  unfold Scopes.define at refused
  split at refused <;> cases refused <;> rfl

namespace Parser

/-! ## Parsers in a state -/

section At

variable {α β σ : Type} {made : String → Ty → Prop} {tokens : Array Token} {state : State}
  {P : α → State → Prop} {Q : β → State → Prop}

/-- In the state, what the parser reads and leaves has the property, and an error tells built types
only. -/
structure EnsuresAt (made : String → Ty → Prop) (tokens : Array Token) (state : State)
    (P : α → State → Prop) (parser : Parser α) : Prop where
  done : ∀ value after, Runs tokens parser state value after → P value after
  failed : ∀ error after, parser tokens state = .error error after → error.fault.Told made

theorem EnsuresAt.of_runs {parser : Parser α} {value : α} {after : State}
    (run : Runs tokens parser state value after) (holds : P value after) :
    EnsuresAt made tokens state P parser := by
  refine ⟨fun result later again => ?_, fun error later failed => ?_⟩
  · cases run.symm.trans again
    exact holds
  · cases run.symm.trans failed

theorem ensuresAt_pure {value : α} (holds : P value state) :
    EnsuresAt made tokens state P (pure value) :=
  .of_runs rfl holds

theorem ensuresAt_failAt {fault : Fault} (told : fault.Told made) (position : Position) :
    EnsuresAt made tokens state P (failAt fault position) := by
  refine ⟨fun result after run => absurd run not_runs_failAt, fun error after failed => ?_⟩
  cases failed
  exact told

/-- What is read second is read in the state that the first parser leaves. -/
theorem ensuresAt_bind {first : Parser α} {second : α → Parser β}
    (before : EnsuresAt made tokens state P first)
    (behind : ∀ value between, Runs tokens first state value between → P value between →
      EnsuresAt made tokens between Q (second value)) :
    EnsuresAt made tokens state Q (first >>= second) := by
  refine ⟨fun value after run => ?_, fun error after failed => ?_⟩
  · obtain ⟨value, between, here, there⟩ := runs_bind.mp run
    exact (behind value between here (before.done value between here)).done _ _ there
  · rw [bind_apply] at failed
    rcases result : first tokens state with ⟨value, between⟩ | ⟨found, between⟩ <;>
      rw [result] at failed
    · exact (behind value between result (before.done value between result)).failed _ _ failed
    · cases failed
      exact before.failed _ _ result

theorem EnsuresAt.mono {parser : Parser α} {R : α → State → Prop}
    (ensures : EnsuresAt made tokens state P parser)
    (weaker : ∀ value after, Runs tokens parser state value after → P value after →
      R value after) : EnsuresAt made tokens state R parser :=
  ⟨fun value after run => weaker value after run (ensures.done value after run), ensures.failed⟩

theorem EnsuresAt.of_eq {parser other : Parser α} {later : State}
    (ensures : EnsuresAt made tokens later P other)
    (run : parser tokens state = other tokens later) : EnsuresAt made tokens state P parser :=
  ⟨fun value after read => ensures.done value after (run.symm.trans read),
    fun error after failed => ensures.failed error after (run.symm.trans failed)⟩

/-- What every turn keeps, the outcome of a repetition has. -/
theorem ensuresAt_iterate {step : σ → Parser (Option σ)} {I : σ → State → Prop}
    (each : ∀ current between, I current between → EnsuresAt made tokens between
      (fun next after => I (next.getD current) after) (step current))
    {current : σ} (holds : I current state) :
    EnsuresAt made tokens state I (iterate step current) := by
  refine EnsuresAt.of_eq ?_ (iterate_apply step current tokens state)
  generalize tokens.size - state.cursor + 1 = bound
  induction bound generalizing current state with
  | zero => exact ensuresAt_failAt (Fault.told_of_untyped rfl) _
  | succ bound ih =>
    refine ensuresAt_bind (each current state holds) fun next between _ kept => ?_
    cases next with
    | some next => exact ih kept
    | none => exact ensuresAt_pure kept

/-- What is read in a level of its own leaves it when that is closed. -/
theorem ensuresAt_inScope {inner : Parser α}
    (ensures : EnsuresAt made tokens { state with scopes := state.scopes.push } P inner) :
    EnsuresAt made tokens state
      (fun value after => ∃ closing, P value closing ∧
        after = { closing with scopes := closing.scopes.pop }) (inScope inner) := by
  refine ⟨fun value after run => ?_, fun error after failed => ?_⟩
  · obtain ⟨closing, inside, rfl⟩ := runs_inScope.mp run
    exact ⟨closing, ensures.done value closing inside, rfl⟩
  · rw [inScope] at failed
    split at failed <;> cases failed
    next failed => exact ensures.failed _ _ failed

theorem ensuresAt_returning {ty : Ty} {inner : Parser α}
    (ensures : EnsuresAt made tokens { state with returnType := some ty } P inner) :
    EnsuresAt made tokens state
      (fun value after => ∃ closing, P value closing ∧
        after = { closing with returnType := state.returnType }) (returning ty inner) := by
  refine ⟨fun value after run => ?_, fun error after failed => ?_⟩
  · obtain ⟨closing, inside, rfl⟩ := runs_returning.mp run
    exact ⟨closing, ensures.done value closing inside, rfl⟩
  · rw [returning] at failed
    split at failed <;> cases failed
    next failed => exact ensures.failed _ _ failed

theorem ensuresAt_declare (declared : Declaration) :
    EnsuresAt made tokens state
      (fun _ after => ∃ scopes, state.scopes.declare declared = .ok scopes ∧
        after = { state with scopes }) (declare declared) := by
  refine ⟨fun _ _ run => runs_declare.mp run, fun error after failed => ?_⟩
  rw [declare] at failed
  split at failed <;> cases failed
  next refused => exact Fault.told_of_untyped (Scopes.untyped_of_declare refused)

theorem ensuresAt_define (name : String) (ty : Ty) (position : Position) :
    EnsuresAt made tokens state
      (fun _ after => ∃ scopes, state.scopes.define name ty position = .ok scopes ∧
        after = { state with scopes }) (define name ty position) := by
  refine ⟨fun _ _ run => runs_define.mp run, fun error after failed => ?_⟩
  rw [define] at failed
  split at failed <;> cases failed
  next refused => exact Fault.told_of_untyped (Scopes.untyped_of_define refused)

end At

/-! ## Parsers in all states -/

section Everywhere

variable {ι σ α β : Type} {made : String → Ty → Prop} {P : α → Prop} {Q : β → Prop}

/-- Where all types that the state holds are built, they are afterwards, what the parser reads has
the property, and an error tells built types only. -/
def Ensures (made : String → Ty → Prop) (P : α → Prop) (parser : Parser α) : Prop :=
  ∀ (tokens : Array Token) (state : State), state.Built made →
    EnsuresAt made tokens state (fun value after => P value ∧ after.Built made) parser

theorem ensures_pure {value : α} (holds : P value) : Ensures made P (pure value) :=
  fun _ _ built => ensuresAt_pure ⟨holds, built⟩

theorem ensures_failAt {fault : Fault} (told : fault.Told made) (position : Position) :
    Ensures made P (failAt fault position) :=
  fun _ _ _ => ensuresAt_failAt told position

theorem ensures_bind {first : Parser α} {second : α → Parser β} (before : Ensures made P first)
    (behind : ∀ value, P value → Ensures made Q (second value)) :
    Ensures made Q (first >>= second) :=
  fun tokens state built => ensuresAt_bind (before tokens state built)
    fun value between _ ⟨holds, builtBetween⟩ => behind value holds tokens between builtBetween

/-- What every turn keeps, the outcome of a repetition has. -/
theorem ensures_iterate {step : σ → Parser (Option σ)} {I : σ → Prop}
    (each : ∀ current, I current →
      Ensures made (fun next => ∀ value ∈ next, I value) (step current))
    {current : σ} (holds : I current) : Ensures made I (iterate step current) := by
  refine fun tokens state built => ensuresAt_iterate (fun current between kept => ?_) ⟨holds, built⟩
  refine (each current kept.1 tokens between kept.2).mono fun next after _ done => ?_
  cases next with
  | none => exact ⟨kept.1, done.2⟩
  | some next => exact ⟨done.1 next rfl, done.2⟩

/-- What holds of a parser if it holds of those inside it, holds of the one that meets itself. -/
theorem ensures_recurse {body : (ι → Parser α) → ι → Parser α} {I : ι → Prop}
    (each : ∀ inner : ι → Parser α, (∀ input, I input → Ensures made P (inner input)) →
      ∀ input, I input → Ensures made P (body inner input))
    {input : ι} (holds : I input) : Ensures made P (recurse body input) := by
  have bounded : ∀ bound input, I input → Ensures made P (nested body bound input) := by
    intro bound
    induction bound with
    | zero => exact fun _ _ => ensures_failAt (Fault.told_of_untyped rfl) _
    | succ bound ih => exact fun input holds => each _ ih input holds
  intro tokens state built
  exact (bounded (tokens.size - state.cursor + 1) input holds tokens state built).of_eq rfl

theorem ensures_foldlM {step : σ → ι → Parser σ} {I : σ → Prop}
    (each : ∀ current input, I current → Ensures made I (step current input)) (inputs : List ι)
    {current : σ} (holds : I current) : Ensures made I (inputs.foldlM step current) := by
  induction inputs generalizing current with
  | nil => exact ensures_pure holds
  | cons input rest ih =>
    rw [List.foldlM_cons]
    exact ensures_bind (each current input holds) fun next kept => ih kept

/-! ### Primitives -/

/-- Of what a tame parser reads nothing is asked. -/
abbrev Tame (made : String → Ty → Prop) (parser : Parser α) : Prop :=
  Ensures made (fun _ => True) parser

theorem tame_peek : Tame made peek := by
  intro tokens state built
  refine ⟨fun token after run => ?_, fun error after failed => ?_⟩
  · obtain ⟨_, rfl⟩ := runs_peek.mp run
    exact ⟨trivial, built⟩
  · rw [peek] at failed
    split at failed <;> cases failed
    exact Fault.told_of_untyped rfl

theorem ensures_fail {fault : Fault} (told : fault.Told made) :
    Ensures made P (fail fault : Parser α) :=
  ensures_bind tame_peek fun _ _ => ensures_failAt told _

theorem tame_seek (index : Nat) : Tame made (seek index) :=
  fun _ _ built => .of_runs rfl ⟨trivial, built.seek index⟩

theorem tame_cursor : Tame made cursor :=
  fun _ _ built => .of_runs rfl ⟨trivial, built⟩

theorem tame_advance : Tame made advance := by
  refine ensures_bind tame_peek fun token _ => ?_
  split
  · exact ensures_pure trivial
  · exact ensures_bind tame_cursor fun _ _ => ensures_bind (tame_seek _) fun _ _ =>
      ensures_pure trivial

theorem tame_check (mark : Symbol) : Tame made (check mark) :=
  ensures_bind tame_peek fun _ _ => ensures_pure trivial

theorem tame_accept (mark : Symbol) : Tame made (accept mark) := by
  refine ensures_bind (tame_check mark) fun found _ => ?_
  split
  · exact ensures_bind tame_advance fun _ _ => ensures_pure trivial
  · exact ensures_pure trivial

theorem tame_expect (mark : Symbol) (place : Place) : Tame made (expect mark place) := by
  refine ensures_bind (tame_accept mark) fun found _ => ?_
  split
  · exact ensures_pure trivial
  · exact ensures_bind tame_peek fun _ _ => ensures_fail (Fault.told_of_untyped rfl)

theorem ensures_findType? (name : String) :
    Ensures made (fun found => ∀ ty ∈ found, ty.Built made) (findType? name) :=
  fun _ _ built => .of_runs rfl ⟨fun _ found => built.findType? found, built⟩

theorem ensures_findValue? (name : String) :
    Ensures made (fun found => ∀ declared ∈ found, Ty.Built made declared.ty) (findValue? name) :=
  fun _ _ built => .of_runs rfl ⟨fun _ found => built.findValue? found, built⟩

theorem tame_depth : Tame made depth :=
  fun _ _ built => .of_runs rfl ⟨trivial, built⟩

theorem ensures_returnType :
    Ensures made (fun found => ∀ ty ∈ found, ty.Built made) returnType :=
  fun _ _ built => .of_runs rfl ⟨fun _ found => built.result _ found, built⟩

theorem tame_declare {declared : Declaration} (fits : declared.ty.Built made) :
    Tame made (declare declared) := by
  refine fun tokens state built => (ensuresAt_declare declared).mono fun _ _ _ declaring => ?_
  obtain ⟨scopes, declaring, rfl⟩ := declaring
  exact ⟨trivial, built.declare declaring fits⟩

theorem tame_define {name : String} {ty : Ty} (fits : ty.Built made) (position : Position) :
    Tame made (define name ty position) := by
  refine fun tokens state built => (ensuresAt_define name ty position).mono fun _ _ _ defining => ?_
  obtain ⟨scopes, defining, rfl⟩ := defining
  exact ⟨trivial, built.define defining fits⟩

end Everywhere

end Parser

end MiniC
