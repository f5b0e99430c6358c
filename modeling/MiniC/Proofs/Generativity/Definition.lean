/-
# MiniC.Proofs.Generativity.Definition — a definition makes what was not there before

A `distinct` definition names a copy, whose instance is told by the place of that name. What comes
up before it does not depend on its tokens: were they the end of the file, reading would come to the
same states, with types that are built from other copies. So the copy is in none of these types.

* `cutAt`, `Reached.of_continues` — reading up to a token does not depend on what stands there.
* `Parser.Before` — the types that come up before a definition makes its copy.
* `Makes.not_mem_scalars` — a copy without parts is in none of them.
* `copy_compatible` — what the copies that calls and definitions make are compatible with.
-/
import MiniC.Proofs.Agreement.Statement
import MiniC.Proofs.Built.Statement
import MiniC.Proofs.Generativity
import MiniC.Proofs.Lookahead.Statement
import MiniC.Proofs.Relocation.Transfer

namespace MiniC

set_option autoImplicit false

/-! ## Tokens that are cut off -/

/-- The tokens with the end of the file in place of each from `stop` on. -/
def cutAt (tokens : Array Token) (stop : Nat) : Array Token :=
  tokens.mapIdx fun index token => if index < stop then token else ⟨.endOfFile, token.position, 0⟩

section Cut

variable {tokens : Array Token} {stop index : Nat}

theorem getElem?_cutAt (less : index < stop) : (cutAt tokens stop)[index]? = tokens[index]? := by
  rw [cutAt, Array.getElem?_mapIdx]
  simp only [if_pos less, Option.map_id']

theorem kindAt_cutAt (le : stop ≤ index) {kind : Kind}
    (here : kindAt (cutAt tokens stop) index = some kind) : kind = .endOfFile := by
  rw [kindAt, cutAt, Array.getElem?_mapIdx, Option.map_map] at here
  obtain ⟨token, _, rfl⟩ := Option.map_eq_some_iff.mp here
  simp only [Function.comp_apply, if_neg (Nat.not_lt.mpr le)]

theorem continues_cutAt : Continues tokens (cutAt tokens stop) stop where
  same _ less := getElem?_cutAt less
  size_le := Nat.le_of_eq Array.size_mapIdx.symm
  free otherwise := by cases kindAt_cutAt (Nat.le_refl stop) otherwise

end Cut

namespace Parser

variable {tokens tokens' : Array Token} {state entry : State}

/-! ## Reading up to a token -/

theorem Enters.of_agree (enters : Enters tokens state entry)
    (agree : Agree tokens tokens' (entry.cursor + 1)) : Enters tokens' state entry := by
  have kept : ∀ {kind : Kind}, kindAt tokens state.cursor = some kind →
      kindAt tokens' state.cursor = some kind := fun here => by
    rwa [agree.kindAt_eq (Nat.lt_succ_of_le enters.le_cursor)]
  cases enters with
  | block here => exact .block (kept here)
  | body keyword tested =>
    exact .body (keyword.imp kept kept) ((glances_condition _ _ _ tested).2 agree)
  | alternative keyword tested first otherwise =>
    -- The block in front of `else` stops there, so that `else` has to stand there still.
    obtain ⟨least, again⟩ := stops_block stops_statement _ _ _ first
    have before := agree.mono (Nat.le_succ _)
    refine .alternative (kept keyword) ((glances_condition _ _ _ tested).2 ?_)
      (again before.continues) ?_
    · exact before.mono (Nat.le_succ_of_le least)
    · rwa [before.kindAt_eq (Nat.lt_succ_self _)]
  | function naming outermost declaring bound =>
    exact .function ((glances_namedDeclarator _ _ _ naming).2 agree) outermost declaring bound

/-- What reading comes to depends on the tokens in front of it. -/
theorem Reached.of_continues (reached : Reached tokens state)
    (continues : Continues tokens tokens' state.cursor) : Reached tokens' state := by
  induction reached with
  | start => exact .start
  | next _ run ih =>
    obtain ⟨least, again⟩ := stops_statement _ _ _ run
    exact (ih (continues.mono (Nat.le_of_succ_le least))).next (again continues)
  | @enter state entry _ enters opened ih =>
    have agree : Agree tokens tokens' (entry.cursor + 1) := continues.toAgree
    refine (ih (agree.mono (Nat.succ_le_succ enters.le_cursor)).continues).enter
      (enters.of_agree agree) ?_
    rwa [agree.kindAt_eq (Nat.lt_succ_self _)]

/-! ## What comes up before a definition -/

/-- The types that a state holds. -/
inductive Holds (state : State) : Ty → Prop
  | type {ty : Ty} (knows : state.scopes.types.Knows ty) : Holds state ty
  | value {declared : Declaration} (knows : state.scopes.values.Knows declared) :
      Holds state declared.ty
  | result {ty : Ty} (returns : state.returnType = some ty) : Holds state ty

/-- The types that come up before the definition at the state makes its copy: those that are held
wherever a statement is to be read up to there, and the type that is copied. -/
inductive Before (tokens : Array Token) (state : State) : Ty → Prop
  | held {earlier : State} {ty : Ty} (reached : Reached tokens earlier)
      (le : earlier.cursor ≤ state.cursor) (holds : Holds earlier ty) : Before tokens state ty
  | base {base : Ty} {declared : DeclaredName} {behind : State}
      (naming : Runs tokens namedDeclarator { state with cursor := state.cursor + 1 }
        (base, declared) behind) : Before tokens state base

/-- They are built of the copies that are made in front of the definition. -/
theorem Before.built {ty : Ty} (before : Before tokens state ty) (reached : Reached tokens state) :
    ty.Built (Made (cutAt tokens state.cursor)) := by
  cases before with
  | held earlier le holds =>
    have built := (earlier.of_continues (continues_cutAt.mono le)).built
    cases holds with
    | type knows => exact built.types _ knows
    | value knows => exact built.values _ knows
    | result returns => exact built.result _ returns
  | base naming =>
    have built := (reached.of_continues continues_cutAt).built
    exact ((ensures_namedDeclarator tokens _ (built.seek _)).done _ _ naming).1

/-- The instance that a definition makes is told by where its name stands. -/
theorem Makes.tag_eq {name : String} {copy : Ty} (makes : Makes tokens state name copy) :
    ∃ index, state.cursor < index ∧ kindAt tokens index = some (.name name) ∧
      copy.tag = ⟨.site (placeAt tokens index), some name⟩ := by
  obtain ⟨base, declared, behind, naming, _, rfl, rfl⟩ := makes.header
  obtain ⟨index, low, here, place⟩ := named_of_runs_namedDeclarator naming
  refine ⟨index, Nat.lt_of_succ_lt low, here, ?_⟩
  rw [Ty.distinctAt, Ty.tag_retag, place]

/-- What a definition makes is in nothing that comes up before. -/
theorem Makes.not_mem_scalars {source : String} {tokens : List Token}
    (found : tokensOf source = .ok tokens) {name : String} {copy ty : Ty}
    (makes : Makes tokens.toArray state name copy) (before : Before tokens.toArray state ty) :
    copy ∉ ty.scalars := by
  intro member
  obtain ⟨index, behind, here, tag⟩ := makes.tag_eq
  rcases (before.built makes.reached).scalars copy member with ⟨_, known⟩ | ⟨_, _, again⟩
  · have unplaced : ∀ entry ∈ Ty.builtins, entry.2.tag.origin = .builtin := by decide
    have origin := unplaced _ known
    rw [tag] at origin
    cases origin
  · -- Made from the tokens in front of the definition, it would have its name at one of them.
    obtain ⟨other, _, there, otherTag⟩ := again.tag_eq
    have front : other < state.cursor :=
      Nat.lt_of_not_le fun le => by cases kindAt_cutAt le there
    have agree : Agree tokens.toArray (cutAt tokens.toArray state.cursor) state.cursor :=
      continues_cutAt.toAgree
    rw [agree.kindAt_eq front] at there
    rw [agree.placeAt_eq front, tag] at otherTag
    have place := Origin.site.inj (Tag.mk.inj otherTag).1
    have same := eq_of_placeAt_eq found here there place
    omega

/-- No call made what a source makes. -/
theorem madeBefore_of_built {ty : Ty} (built : ty.Built (Made tokens)) : ty.MadeBefore 0 := by
  induction built with
  | @builtin name ty known =>
    have plain : ∀ entry ∈ Ty.builtins, entry.2.tag.origin = .builtin ∧ entry.2.parts = [] := by
      decide
    obtain ⟨unmade, none⟩ := plain _ known
    refine .intro (fun number origin => ?_) fun part member => ?_
    · rw [unmade] at origin
      cases origin
    · rw [none] at member
      cases member
  | @distinct name origin base _ copied ih =>
    obtain ⟨state, makes⟩ := copied
    obtain ⟨index, _, _, tag⟩ := makes.tag_eq
    refine .of_site tag fun part member => ?_
    rw [Ty.distinctAt, Ty.parts_retag] at member
    exact ih.parts part member
  | pointer _ ih | array _ ih => exact .of_site rfl (List.forall_mem_singleton.mpr ih)
  | function _ _ ih each =>
    refine .of_site rfl (List.forall_mem_cons.mpr ⟨ih, fun part member => ?_⟩)
    obtain ⟨parameter, within, rfl⟩ := List.mem_map.mp member
    exact each parameter within

/-- The types that come up in a source may be given to calls. -/
theorem held_of_before {types : List Ty} (reached : Reached tokens state)
    (before : ∀ ty ∈ types, Before tokens state ty) : Held 0 types :=
  .given fun ty member => madeBefore_of_built ((before ty member).built reached)

/-- A definition that is read makes a copy of the type that its declarator declares. -/
theorem makes_of_runs (reached : Reached tokens state)
    (here : kindAt tokens state.cursor = some (.keyword .distinct)) {value : Statement}
    {after : State} (run : Runs tokens distinct state value after) :
    ∃ base declared behind,
      Runs tokens namedDeclarator { state with cursor := state.cursor + 1 } (base, declared)
        behind ∧
      Makes tokens state declared.name (base.distinctAt (.site declared.position) declared.name) ∧
      value = .distinct declared.name (base.distinctAt (.site declared.position) declared.name)
        (placeAt tokens state.cursor) := by
  obtain ⟨token, there, _, place⟩ := kindAt_eq_some here
  obtain ⟨_, _, passing, run⟩ := runs_bind.mp run
  obtain ⟨looked, rfl⟩ := (runs_advance (by simp [here])).mp passing
  obtain rfl := Option.some.inj (there.symm.trans looked)
  obtain ⟨⟨base, declared⟩, behind, naming, run⟩ := runs_bind.mp run
  obtain ⟨_, _, ending, run⟩ := runs_bind.mp run
  obtain ⟨_, _, _, done⟩ := runs_bind.mp run
  obtain ⟨rfl, rfl⟩ := runs_pure.mp done
  exact ⟨base, declared, behind, naming,
    ⟨reached, here, base, declared, behind, naming, (runs_expect.mp ending).1, rfl, rfl⟩,
    by rw [place]⟩

end Parser

/-- Copies are new instances, which matching notices for `void`, `bool` and integers alone. So are
those that calls make among all that is held, whatever was called before and whatever source the
calls were given types of, and those that the definitions of a source make among all that came up
before. -/
theorem copy_compatible :
    (∀ {made after : Nat} {types : List Ty} {original copy : Ty} {call : Making Ty},
      Held made types → CopyCall original call → call.run made = (copy, after) →
      (∀ ty ∈ types, copy.same ty = false) ∧ CopyLaw original copy (· ∈ types)) ∧
    (∀ {tokens : Array Token} {state : State} {types : List Ty}, Parser.Reached tokens state →
      (∀ ty ∈ types, Parser.Before tokens state ty) → Held 0 types) ∧
    ∀ {source : String} {tokens : List Token} {state after : State} {value : Statement},
      tokensOf source = .ok tokens → Parser.Reached tokens.toArray state →
      kindAt tokens.toArray state.cursor = some (.keyword .distinct) →
      Parser.Runs tokens.toArray Parser.distinct state value after →
      ∃ base declared behind,
        Parser.Runs tokens.toArray Parser.namedDeclarator
          { state with cursor := state.cursor + 1 } (base, declared) behind ∧
        value = .distinct declared.name (base.distinctAt (.site declared.position) declared.name)
          (placeAt tokens.toArray state.cursor) ∧
        CopyLaw base (base.distinctAt (.site declared.position) declared.name)
          (Parser.Before tokens.toArray state) := by
  refine ⟨fun held copies run => held.copyLaw copies run,
    fun reached before => Parser.held_of_before reached before, fun found reached here run => ?_⟩
  obtain ⟨base, declared, behind, naming, makes, rfl⟩ := Parser.makes_of_runs reached here run
  refine ⟨base, declared, behind, naming, rfl, copyLaw_retag fun plain ty before compared => ?_⟩
  rw [← base.shape_retag ⟨.site declared.position, some declared.name⟩] at plain
  exact makes.not_mem_scalars found before (Ty.mem_scalars_of_compared plain compared)

/-- A copy of `int32` that a call makes is no `int32`, nor is what a definition makes, and a pointer
to the one is no pointer to the other; a named copy of the pointer is as good as the pointer. -/
theorem copy_compatible_meters :
    let int := Ty.builtin (.integer 32 true)
    let copy := (int.duplicate.run 0).1
    let pointer := (copy.makePointer.run 1).1
    let named := ((pointer.distinct "Pointer").run 2).1
    let meters := int.distinctAt (.site ⟨15, 1, 16⟩) "Meters"
    let array := fun ty => Ty.array ⟨.builtin, none⟩ ty 3
    (Held 0 [int] ∧ copy.compatible int = false ∧ int.compatible copy = false) ∧
    pointer.compatible (.pointer ⟨.builtin, none⟩ int) = false ∧
    (Held 2 [pointer, copy, int] ∧ (array named).compatible (array pointer) = true) ∧
    ∃ tokens after, tokensOf "distinct int32 Meters;" = .ok tokens ∧
      Parser.Runs tokens.toArray Parser.distinct State.initial
        (.distinct "Meters" meters (placeAt tokens.toArray 0)) after ∧
      Parser.Before tokens.toArray State.initial int ∧ int.compatible meters = false := by
  intro int copy pointer named meters array
  have copies : CopyCall int int.duplicate := .duplicate
  have names : CopyCall pointer (pointer.distinct "Pointer") := .distinct "Pointer"
  have plain : int.shape ∈ [.void, .bool, .integer] := by decide
  have composite : pointer.shape ∈ [.pointer, .array, .function] := by decide
  have knows : State.initial.scopes.types.Knows int :=
    ⟨Ty.builtins.reverse, List.mem_cons_self, "int32", by decide⟩
  have known : Parser.Before #[] State.initial int := .held .start (Nat.le_refl _) (.type knows)
  have first : Held 0 [int] := copy_compatible.2.1 .start (List.forall_mem_singleton.mpr known)
  have second : Held 1 [copy, int] := first.call (.copy List.mem_cons_self copies) rfl
  have third : Held 2 [pointer, copy, int] := second.call (.pointer List.mem_cons_self) rfl
  have copied : CopyLaw int copy (· ∈ [int]) := (copy_compatible.1 first copies rfl).2
  have renamed : CopyLaw pointer named (· ∈ [pointer, copy, int]) :=
    (copy_compatible.1 third names rfl).2
  refine ⟨⟨first, copied.new plain int List.mem_cons_self copy .self⟩, ?_, ⟨third, ?_⟩, ?_⟩
  · have absent : ¬Compared copy (.pointer ⟨.builtin, none⟩ int) := fun compared =>
      absurd (Ty.mem_scalars_of_compared (by decide) compared) (by decide)
    exact (copied.apart plain pointer _ (.pointer .self) absent).1
  · have fits := renamed.replaced composite (array pointer) (array named) (.array .here)
    exact (fits (array pointer)).1.trans (Ty.compatible_refl _)
  · have read : ((tokensOf "distinct int32 Meters;").toOption.map fun tokens =>
        (kindAt tokens.toArray 0,
          match Parser.namedDeclarator tokens.toArray { State.initial with cursor := 1 } with
          | .ok (base, declared) _ => some (base, declared.name, declared.position)
          | .error _ _ => none,
          match Parser.distinct tokens.toArray State.initial with
          | .ok _ _ => true
          | .error _ _ => false)) =
            some (some (.keyword .distinct), some (int, "Meters", ⟨15, 1, 16⟩), true) := by
      decide +kernel
    obtain ⟨tokens, found, outcome⟩ := exists_ok_of_map_eq_some read
    obtain ⟨here, outcome⟩ := Prod.mk.inj outcome
    obtain ⟨header, runs⟩ := Prod.mk.inj outcome
    split at runs
    · next value after run =>
      obtain ⟨base, ⟨name, position⟩, behind, naming, rfl, law⟩ :=
        copy_compatible.2.2 found .start here run
      rw [show Parser.namedDeclarator tokens.toArray { State.initial with cursor := 1 } = _ from
        naming] at header
      obtain ⟨rfl, rfl, rfl⟩ : base = int ∧ name = "Meters" ∧ position = ⟨15, 1, 16⟩ := by
        simpa using header
      have before : Parser.Before tokens.toArray State.initial int := .base naming
      exact ⟨tokens, after, found, run, before, (law.new plain int before meters .self).2⟩
    · cases runs

end MiniC
