/-
# MiniC.Proofs.Effect — what reading leaves in the scopes

What reading changes it changes in the innermost level, whether it succeeds or fails, and what is
read in a level of its own changes nothing, since that level is closed again.

* `Stays` — with a level open inside another, the levels below the innermost one and the return type
  are those that the parser began with.
* `StillAt` — in the state nothing but the cursor changes: `stillAt_inScope`.
* `EffectAt` — in the state the scopes gain what the statement that is read names, and nothing else;
  they gain nothing by an error, apart from what is allowed for.
-/
import MiniC.Parser.Statement
import MiniC.Proofs.Frame
import MiniC.Proofs.Scopes

namespace MiniC

set_option autoImplicit false

/-! ## The innermost level -/

namespace Scopes

/-- At most the innermost level is another. -/
structure SameBelow (before after : Scopes) : Prop where
  paired : after.Paired
  types : after.types.tail = before.types.tail
  values : after.values.tail = before.values.tail

variable {scopes between after : Scopes}

theorem SameBelow.refl (paired : scopes.Paired) : scopes.SameBelow scopes :=
  ⟨paired, rfl, rfl⟩

theorem SameBelow.trans (first : scopes.SameBelow between) (second : between.SameBelow after) :
    scopes.SameBelow after :=
  ⟨second.paired, second.types.trans first.types, second.values.trans first.values⟩

theorem SameBelow.depth_eq (same : scopes.SameBelow after) (paired : scopes.Paired) :
    after.depth = scopes.depth := by
  have lengths := congrArg List.length same.values
  have opened := paired.opened
  have openedAfter := same.paired.opened
  simp only [List.length_tail, depth] at *
  omega

/-- Closing the innermost level takes back what was done in it. -/
theorem SameBelow.pop (same : scopes.push.SameBelow after) (paired : scopes.Paired) :
    after.pop = scopes := by
  have deep : 1 < after.depth := by
    rw [same.depth_eq paired.push, depth_push]
    exact Nat.succ_lt_succ paired.opened
  rw [Scopes.pop, if_pos deep, same.types, same.values]
  rfl

theorem SameBelow.of_values (paired : scopes.Paired) {name : String} {declaration : Declaration}
    (gains : scopes.values.Gains name declaration after.values)
    (kept : after.types = scopes.types) : scopes.SameBelow after := by
  refine ⟨⟨?_, ?_⟩, by rw [kept], gains.tail_eq⟩
  · rw [depth, gains.length_eq]
    exact paired.opened
  · rw [kept, gains.length_eq, paired.level]

theorem SameBelow.of_types (paired : scopes.Paired) {name : String} {ty : Ty}
    (gains : scopes.types.Gains name ty after.types)
    (kept : after.values = scopes.values) : scopes.SameBelow after := by
  refine ⟨⟨?_, ?_⟩, gains.tail_eq, by rw [kept]⟩
  · rw [depth, kept]
    exact paired.opened
  · rw [kept, gains.length_eq, paired.level]

end Scopes

/-- The scopes gain what the statement names, and nothing else. -/
def Statement.Binds (statement : Statement) (before after : Scopes) : Prop :=
  match statement with
  | .declaration declared _ | .function declared _ _ =>
    before.values.Gains declared.name declared after.values ∧ after.types = before.types
  | .typedef name ty _ | .distinct name ty _ =>
    before.types.Gains name ty after.types ∧ after.values = before.values
  | _ => after = before

theorem Statement.Binds.sameBelow {statement : Statement} {before after : Scopes}
    (binds : statement.Binds before after) (paired : before.Paired) : before.SameBelow after := by
  unfold Statement.Binds at binds
  split at binds
  · exact .of_values paired binds.1 binds.2
  · exact .of_values paired binds.1 binds.2
  · exact .of_types paired binds.1 binds.2
  · exact .of_types paired binds.1 binds.2
  · subst binds
    exact .refl paired

/-! ## States inside a level -/

/-- A state with a level open inside another. -/
structure State.Deep (state : State) : Prop where
  paired : state.scopes.Paired
  inside : 1 < state.scopes.depth

/-- At most the cursor and the innermost level are others. -/
structure State.SameAround (before after : State) : Prop where
  scopes : before.scopes.SameBelow after.scopes
  returnType : after.returnType = before.returnType

namespace State.SameAround

variable {before between after : State}

theorem trans (first : before.SameAround between) (second : between.SameAround after) :
    before.SameAround after :=
  ⟨first.scopes.trans second.scopes, second.returnType.trans first.returnType⟩

theorem deep (same : before.SameAround after) (deep : before.Deep) : after.Deep :=
  ⟨same.scopes.paired, by rw [same.scopes.depth_eq deep.paired]; exact deep.inside⟩

end State.SameAround

namespace Parser

variable {ι σ α β : Type} {tokens : Array Token} {state : State}

/-! ## Parsers that change nothing -/

/-- In the state the parser changes nothing but the cursor, however it ends. -/
def StillAt (tokens : Array Token) (state : State) (parser : Parser α) : Prop :=
  ∃ cursor, stateAfter (parser tokens state) = { state with cursor }

theorem OnlyMoves.still {parser : Parser α} (moves : OnlyMoves parser) :
    StillAt tokens state parser :=
  moves tokens state

theorem stillAt_bind {first : Parser α} {second : α → Parser β}
    (before : StillAt tokens state first)
    (behind : ∀ value cursor, StillAt tokens { state with cursor } (second value)) :
    StillAt tokens state (first >>= second) := by
  obtain ⟨cursor, same⟩ := before
  rw [StillAt, bind_apply]
  rcases result : first tokens state with ⟨value, between⟩ | ⟨error, between⟩ <;>
    rw [result] at same <;> obtain rfl : between = { state with cursor } := same
  · exact behind value cursor
  · exact ⟨cursor, rfl⟩

/-! ## Parsers that stay in their level -/

/-- Inside a level of its own the parser stays in that level, however it ends. -/
def Stays (parser : Parser α) : Prop :=
  ∀ (tokens : Array Token) (state : State), state.Deep →
    state.SameAround (stateAfter (parser tokens state))

theorem StillAt.sameAround {parser : Parser α} (still : StillAt tokens state parser)
    (paired : state.scopes.Paired) : state.SameAround (stateAfter (parser tokens state)) := by
  obtain ⟨cursor, same⟩ := still
  rw [same]
  exact ⟨.refl paired, rfl⟩

theorem OnlyMoves.stays {parser : Parser α} (moves : OnlyMoves parser) : Stays parser :=
  fun _ _ deep => moves.still.sameAround deep.paired

theorem stays_bind {first : Parser α} {second : α → Parser β} (before : Stays first)
    (behind : ∀ value, Stays (second value)) : Stays (first >>= second) := by
  intro tokens state deep
  have around := before tokens state deep
  rw [bind_apply]
  rcases result : first tokens state with ⟨value, between⟩ | ⟨error, between⟩ <;>
    rw [result] at around
  · exact around.trans (behind value tokens between (around.deep deep))
  · exact around

/-- What every turn keeps, however it ends, a repetition keeps. -/
theorem stateAfter_iterate_induct {step : σ → Parser (Option σ)} {P : State → Prop}
    (holds : P state)
    (keeps : ∀ current between, P between → P (stateAfter (step current tokens between)))
    (current : σ) : P (stateAfter (iterate step current tokens state)) := by
  have kept : ∃ _ : σ, P (stateAfter (iterate step current tokens state)) := by
    refine stateAfter_iterate (Q := fun _ between => P between) holds fun current between kept => ?_
    have turn := keeps current between kept
    refine ⟨fun next after run => ?_, fun error after failed => ?_⟩
    · rwa [run] at turn
    · rwa [failed] at turn
  exact kept.elim fun _ => id

theorem stays_iterate {step : σ → Parser (Option σ)} (each : ∀ current, Stays (step current))
    (current : σ) : Stays (iterate step current) := by
  intro tokens state deep
  have kept := stateAfter_iterate_induct
    (P := fun between => between.Deep ∧ state.SameAround between)
    ⟨deep, .refl deep.paired, rfl⟩
    (fun current between ⟨deepBetween, around⟩ => by
      have turn := each current tokens between deepBetween
      exact ⟨turn.deep deepBetween, around.trans turn⟩)
    current
  exact kept.2

theorem stays_forM {step : ι → Parser PUnit} (inputs : List ι)
    (each : ∀ input, Stays (step input)) : Stays (inputs.forM step) := by
  induction inputs with
  | nil => exact (onlyMoves_pure _).stays
  | cons input rest ih => exact stays_bind (each input) fun _ => ih

theorem stays_declare (declaration : Declaration) : Stays (declare declaration) := by
  intro tokens state deep
  rcases outcome : state.scopes.declare declaration with error | scopes
  · have run : declare declaration tokens state = .error error state := by rw [declare, outcome]
    rw [run]
    exact ⟨.refl deep.paired, rfl⟩
  · have run : declare declaration tokens state = .ok () { state with scopes } := by
      rw [declare, outcome]
    obtain ⟨gains, kept⟩ := Scopes.declare_eq_ok.mp outcome
    rw [run]
    exact ⟨.of_values deep.paired gains kept, rfl⟩

theorem stateAfter_returning (ty : Ty) (inner : Parser α) (tokens : Array Token) (state : State) :
    stateAfter (returning ty inner tokens state) =
      { stateAfter (inner tokens { state with returnType := some ty }) with
        returnType := state.returnType } := by
  rw [returning]
  split <;> next result => rw [result]; rfl

theorem stateAfter_inScope (inner : Parser α) (tokens : Array Token) (state : State) :
    stateAfter (inScope inner tokens state) =
      let closing := stateAfter (inner tokens { state with scopes := state.scopes.push })
      { closing with scopes := closing.scopes.pop } := by
  rw [inScope]
  split <;> next result => rw [result]; rfl

theorem stays_returning {inner : Parser α} (ty : Ty) (stays : Stays inner) :
    Stays (returning ty inner) := by
  intro tokens state deep
  obtain ⟨same, _⟩ := stays tokens { state with returnType := some ty } ⟨deep.paired, deep.inside⟩
  rw [stateAfter_returning]
  exact ⟨same, rfl⟩

/-- What is read in a level of its own leaves the scopes as they were. -/
theorem stillAt_inScope {inner : Parser α} (paired : state.scopes.Paired) (stays : Stays inner) :
    StillAt tokens state (inScope inner) := by
  obtain ⟨same, returnType⟩ := stays tokens { state with scopes := state.scopes.push }
    ⟨paired.push, Nat.succ_lt_succ paired.opened⟩
  refine ⟨(stateAfter (inner tokens { state with scopes := state.scopes.push })).cursor, ?_⟩
  rw [stateAfter_inScope]
  simp only [same.pop paired, returnType]

/-! ## Statements -/

/-- In the state the scopes gain what the statement that is read names. An error leaves them as they
were, or else as `left` allows. -/
structure EffectAt (tokens : Array Token) (left : Scopes → Prop) (state : State)
    (parser : Parser Statement) : Prop where
  returnType : (stateAfter (parser tokens state)).returnType = state.returnType
  done : ∀ statement after, Runs tokens parser state statement after →
    statement.Binds state.scopes after.scopes
  failed : ∀ error after, parser tokens state = .error error after →
    after.scopes = state.scopes ∨ left after.scopes

variable {left : Scopes → Prop}

theorem EffectAt.of_eq {parser other : Parser Statement} (effect : EffectAt tokens left state other)
    (run : parser tokens state = other tokens state) : EffectAt tokens left state parser := by
  obtain ⟨returnType, done, failed⟩ := effect
  rw [← run] at returnType failed
  exact ⟨returnType, fun statement after read => done statement after (run.symm.trans read), failed⟩

theorem EffectAt.mono {parser : Parser Statement} {allowed : Scopes → Prop}
    (effect : EffectAt tokens left state parser)
    (weaker : ∀ scopes, left scopes → allowed scopes) : EffectAt tokens allowed state parser :=
  ⟨effect.returnType, effect.done, fun error after run =>
    (effect.failed error after run).imp_right (weaker _)⟩

/-- A statement that binds nothing may be what has been read. -/
theorem effectAt_pure {statement : Statement}
    (unbound : statement.Binds state.scopes state.scopes) :
    EffectAt tokens left state (pure statement) := by
  refine ⟨rfl, fun read after run => ?_, fun error after run => ?_⟩
  · obtain ⟨rfl, rfl⟩ := runs_pure.mp run
    exact unbound
  · cases run

theorem effectAt_failAt (fault : Fault) (position : Position) :
    EffectAt tokens left state (failAt fault position) := by
  refine ⟨rfl, fun read after run => absurd run not_runs_failAt, fun error after run => ?_⟩
  cases run
  exact .inl rfl

/-- What is read after a parser that changes nothing is read in the same scopes. -/
theorem effectAt_bind {first : Parser α} {second : α → Parser Statement}
    (before : StillAt tokens state first)
    (behind : ∀ value cursor, Runs tokens first state value { state with cursor } →
      EffectAt tokens left { state with cursor } (second value)) :
    EffectAt tokens left state (first >>= second) := by
  obtain ⟨cursor, same⟩ := before
  rcases result : first tokens state with ⟨value, between⟩ | ⟨error, between⟩ <;>
    rw [result] at same <;> obtain rfl : between = { state with cursor } := same
  · have run : (first >>= second) tokens state = second value tokens { state with cursor } := by
      rw [bind_apply, result]
    obtain ⟨returnType, done, failed⟩ := behind value cursor result
    rw [← run] at returnType failed
    exact ⟨returnType, fun statement after read => done statement after (run.symm.trans read),
      failed⟩
  · have run : (first >>= second) tokens state = .error error { state with cursor } := by
      rw [bind_apply, result]
    refine ⟨by rw [run]; rfl, fun statement after read => ?_, fun error' after failed => ?_⟩
    · cases run.symm.trans read
    · cases run.symm.trans failed
      exact .inl rfl

/-- A statement that has changed the scopes, unless the change was refused, may be what has been
read. -/
theorem effectAt_change {change : Parser Unit} {outcome : Except CompileError Scopes}
    (run : change tokens state = match outcome with
      | .ok scopes => .ok () { state with scopes }
      | .error error => .error error state)
    {statement : Statement}
    (names : ∀ scopes, outcome = .ok scopes → statement.Binds state.scopes scopes) :
    EffectAt tokens left state (change >>= fun _ => pure statement) := by
  cases outcome with
  | error error =>
    have run : (change >>= fun _ => pure statement) tokens state = .error error state := by
      rw [bind_apply, run]
    refine ⟨by rw [run]; rfl, fun read after done => ?_, fun error' after failed => ?_⟩
    · cases run.symm.trans done
    · cases run.symm.trans failed
      exact .inl rfl
  | ok scopes =>
    have run : (change >>= fun _ => pure statement) tokens state =
        .ok statement { state with scopes } := by
      rw [bind_apply, run]
      rfl
    refine ⟨by rw [run]; rfl, fun read after done => ?_, fun error' after failed => ?_⟩
    · cases run.symm.trans done
      exact names scopes rfl
    · cases run.symm.trans failed

theorem effectAt_declare {declaration : Declaration} {statement : Statement}
    (names : ∀ scopes, state.scopes.values.Gains declaration.name declaration scopes.values ∧
      scopes.types = state.scopes.types → statement.Binds state.scopes scopes) :
    EffectAt tokens left state (declare declaration >>= fun _ => pure statement) :=
  effectAt_change rfl fun scopes declared => names scopes (Scopes.declare_eq_ok.mp declared)

theorem effectAt_define {name : String} {ty : Ty} {position : Position} {statement : Statement}
    (names : ∀ scopes, state.scopes.types.Gains name ty scopes.types ∧
      scopes.values = state.scopes.values → statement.Binds state.scopes scopes) :
    EffectAt tokens left state (define name ty position >>= fun _ => pure statement) :=
  effectAt_change rfl fun scopes defined => names scopes (Scopes.define_eq_ok.mp defined)

/-- A statement that leaves nothing behind by an error stays in its level. -/
theorem stays_of_effect {parser : Parser Statement}
    (effect : ∀ (tokens : Array Token) (state : State), state.Deep →
      EffectAt tokens (fun _ => False) state parser) : Stays parser := by
  intro tokens state deep
  obtain ⟨returnType, done, failed⟩ := effect tokens state deep
  refine ⟨?_, returnType⟩
  rcases result : parser tokens state with ⟨statement, after⟩ | ⟨error, after⟩
  · exact (done statement after result).sameBelow deep.paired
  · rw [show stateAfter (.error error after : EStateM.Result _ _ Statement) = after from rfl,
      (failed error after result).resolve_right id]
    exact .refl deep.paired

end Parser

end MiniC
