/-
# MiniC.Proofs.Agreement — scopes that agree on the names to come

Names enter the parser at tokens. What it asks of the scopes is what a name it finds there stands
for, and whether a name it is about to bind is bound in the innermost level already. So two states
at one token lead to the same, whatever else their scopes hold, if they agree on the names that are
spelled from there on.

* `State.Agree tokens start one other` — both stand at one token, not before `start`, and agree on
  every name that is spelled from `start` on.
* `SameOutcome` — the same value or the same error, in states that are related again.
* `Indifferent tokens start parser` — from states that agree the parser comes to the same, in states
  that agree. It is kept by every way of putting parsers together: `indifferent_bind`,
  `indifferent_iterate`, `indifferent_recurse`, `indifferent_foldlM`, `indifferent_inScope`.

The names of parameters are bound without being spelled, where a function type has a name of its
own. They are bound in a level that has just been opened, and there the two states agree on all
names: `State.AgreeInside`.
-/
import MiniC.Proofs.Effect

namespace MiniC

set_option autoImplicit false

/-- The name is spelled at `start` or behind. -/
def Spelled (tokens : Array Token) (start : Nat) (name : String) : Prop :=
  ∃ index, start ≤ index ∧ kindAt tokens index = some (.name name)

/-! ## One namespace -/

namespace Namespace

variable {α : Type} {one other after otherAfter : Namespace α} {name sought : String} {value : α}

/-- The name stands for the same in both, and either both innermost levels bind it or none. -/
structure AgreeAt (name : String) (one other : Namespace α) : Prop where
  found : one.find? name = other.find? name
  innermost : one.bindsInnermost name = other.bindsInnermost name

theorem AgreeAt.refl (name : String) (levels : Namespace α) : AgreeAt name levels levels :=
  ⟨rfl, rfl⟩

theorem AgreeAt.trans {between : Namespace α} (first : AgreeAt name one between)
    (second : AgreeAt name between other) : AgreeAt name one other :=
  ⟨first.found.trans second.found, first.innermost.trans second.innermost⟩

theorem AgreeAt.push (agree : AgreeAt name one other) : AgreeAt name ([] :: one) ([] :: other) :=
  ⟨agree.found, rfl⟩

theorem Gains.bindsInnermost_eq (gains : one.Gains name value after) (sought : String) :
    after.bindsInnermost sought = (sought == name || one.bindsInnermost sought) := by
  obtain ⟨level, outer, rfl, _, rfl⟩ := gains
  cases same : sought == name <;> simp [bindsInnermost, List.lookup_cons, same]

/-- A new binding leaves agreement as it is. -/
theorem AgreeAt.gains (agree : AgreeAt sought one other) (gains : one.Gains name value after)
    (otherGains : other.Gains name value otherAfter) : AgreeAt sought after otherAfter := by
  refine ⟨?_, ?_⟩
  · rw [find?_bind (bind_eq_ok.mpr gains), find?_bind (bind_eq_ok.mpr otherGains), agree.found]
  · rw [gains.bindsInnermost_eq, otherGains.bindsInnermost_eq, agree.innermost]

/-- One of the levels has one more binding. -/
def Adds (before : Namespace α) (name : String) (value : α) (after : Namespace α) : Prop :=
  ∃ inner level outer, before = inner ++ level :: outer ∧
    after = inner ++ ((name, value) :: level) :: outer

theorem Adds.length_eq (adds : one.Adds name value after) : after.length = one.length := by
  obtain ⟨inner, level, outer, rfl, rfl⟩ := adds
  simp

/-- A binding of another name changes nothing about a name, at whatever level. -/
theorem Adds.agreeAt (adds : one.Adds name value after) (ne : sought ≠ name) :
    AgreeAt sought one after := by
  obtain ⟨inner, level, outer, rfl, rfl⟩ := adds
  have same : ((name, value) :: level).lookup sought = level.lookup sought := by
    rw [List.lookup_cons, beq_false_of_ne ne]
  refine ⟨?_, ?_⟩
  · simp only [find?, List.findSome?_append, List.findSome?_cons, same]
  · cases inner with
    | nil => exact congrArg Option.isSome same.symm
    | cons => rfl

/-- Where both innermost levels bind a name or none does, both refuse it or both gain it. -/
theorem bind_alike (opened : one ≠ []) (otherOpened : other ≠ [])
    (innermost : one.bindsInnermost name = other.bindsInnermost name) (value : α) :
    one.bind name value = .error .taken ∧ other.bind name value = .error .taken ∨
      ∃ after otherAfter, one.Gains name value after ∧ other.Gains name value otherAfter := by
  obtain ⟨level, outer, rfl⟩ := List.exists_cons_of_ne_nil opened
  obtain ⟨otherLevel, otherOuter, rfl⟩ := List.exists_cons_of_ne_nil otherOpened
  simp only [bindsInnermost] at innermost
  rcases known : (level.lookup name).isSome with _ | _
  · rw [known] at innermost
    exact .inr ⟨_, _, ⟨level, outer, rfl, by simpa using known, rfl⟩,
      ⟨otherLevel, otherOuter, rfl, by simpa using innermost.symm, rfl⟩⟩
  · rw [known] at innermost
    exact .inl ⟨by simp [bind, known], by simp [bind, ← innermost]⟩

end Namespace

/-! ## Both namespaces -/

namespace Scopes

/-- Equally many levels are open, and both scopes agree on the given names. -/
structure AgreeOn (names : String → Prop) (one other : Scopes) : Prop where
  depth : one.depth = other.depth
  types : ∀ name, names name → Namespace.AgreeAt name one.types other.types
  values : ∀ name, names name → Namespace.AgreeAt name one.values other.values

variable {names : String → Prop} {one other : Scopes}

theorem AgreeOn.refl (names : String → Prop) (scopes : Scopes) : scopes.AgreeOn names scopes :=
  ⟨rfl, fun name _ => .refl name _, fun name _ => .refl name _⟩

theorem AgreeOn.push (agree : one.AgreeOn names other) : one.push.AgreeOn names other.push :=
  ⟨congrArg Nat.succ agree.depth, fun name known => (agree.types name known).push,
    fun name known => (agree.values name known).push⟩

/-- What both namespaces gain, they agree on. -/
theorem AgreeOn.declare {after otherAfter : Scopes} {declaration : Declaration}
    (agree : one.AgreeOn names other)
    (gains : one.values.Gains declaration.name declaration after.values)
    (kept : after.types = one.types)
    (otherGains : other.values.Gains declaration.name declaration otherAfter.values)
    (otherKept : otherAfter.types = other.types) : after.AgreeOn names otherAfter := by
  refine ⟨?_, fun name known => ?_,
    fun name known => (agree.values name known).gains gains otherGains⟩
  · rw [Scopes.depth, Scopes.depth, gains.length_eq, otherGains.length_eq]
    exact agree.depth
  · rw [kept, otherKept]
    exact agree.types name known

theorem AgreeOn.define {after otherAfter : Scopes} {name : String} {ty : Ty}
    (agree : one.AgreeOn names other) (gains : one.types.Gains name ty after.types)
    (kept : after.values = one.values) (otherGains : other.types.Gains name ty otherAfter.types)
    (otherKept : otherAfter.values = other.values) : after.AgreeOn names otherAfter := by
  refine ⟨?_, fun sought known => (agree.types sought known).gains gains otherGains,
    fun sought known => ?_⟩
  · rw [Scopes.depth, Scopes.depth, kept, otherKept]
    exact agree.depth
  · rw [kept, otherKept]
    exact agree.values sought known

/-- The scopes with more bindings, at any of their levels, of names that are `fresh`. -/
inductive Extends (fresh : String → Prop) : Scopes → Scopes → Prop
  | refl {scopes : Scopes} : Extends fresh scopes scopes
  | value {before between after : Scopes} {name : String} {declaration : Declaration}
      (earlier : Extends fresh before between) (unspelled : fresh name)
      (adds : between.values.Adds name declaration after.values)
      (kept : after.types = between.types) : Extends fresh before after
  | type {before between after : Scopes} {name : String} {ty : Ty}
      (earlier : Extends fresh before between) (unspelled : fresh name)
      (adds : between.types.Adds name ty after.types)
      (kept : after.values = between.values) : Extends fresh before after

/-- On all other names the scopes agree with those they come from. -/
theorem Extends.agreeOn {fresh : String → Prop} (extension : one.Extends fresh other)
    (paired : one.Paired) : one.AgreeOn (fun name => ¬fresh name) other ∧ other.Paired := by
  induction extension with
  | refl => exact ⟨.refl _ one, paired⟩
  | value _ unspelled adds kept ih =>
    obtain ⟨agree, pairedBetween⟩ := ih
    refine ⟨⟨?_, fun sought known => ?_, fun sought known => ?_⟩, ?_, ?_⟩
    · rw [agree.depth, depth, depth, adds.length_eq]
    · rw [kept]
      exact agree.types sought known
    · exact (agree.values sought known).trans
        (adds.agreeAt fun same => known (same ▸ unspelled))
    · rw [depth, adds.length_eq]
      exact pairedBetween.opened
    · rw [kept, adds.length_eq, pairedBetween.level]
  | type _ unspelled adds kept ih =>
    obtain ⟨agree, pairedBetween⟩ := ih
    refine ⟨⟨?_, fun sought known => ?_, fun sought known => ?_⟩, ?_, ?_⟩
    · rw [agree.depth, depth, depth, kept]
    · exact (agree.types sought known).trans
        (adds.agreeAt fun same => known (same ▸ unspelled))
    · rw [kept]
      exact agree.values sought known
    · rw [depth, kept]
      exact pairedBetween.opened
    · rw [kept, adds.length_eq, pairedBetween.level]

end Scopes

/-! ## States -/

/-- Both stand at one token, which is not before `start`, in functions of one return type, and
agree on every name that is spelled from `start` on. -/
structure State.Agree (tokens : Array Token) (start : Nat) (one other : State) : Prop where
  low : start ≤ one.cursor
  cursor : one.cursor = other.cursor
  returnType : one.returnType = other.returnType
  scopes : one.scopes.AgreeOn (Spelled tokens start) other.scopes
  paired : one.scopes.Paired
  otherPaired : other.scopes.Paired

/-- The states agree, and their innermost levels bind the same values. -/
structure State.AgreeInside (tokens : Array Token) (start : Nat) (one other : State) : Prop
    extends State.Agree tokens start one other where
  innermost : ∀ name,
    one.scopes.values.bindsInnermost name = other.scopes.values.bindsInnermost name

section

variable {tokens : Array Token} {start : Nat} {one other : State}

/-- Where both go on from the same token, they agree still. -/
theorem State.Agree.seek (agree : State.Agree tokens start one other) {index : Nat}
    (low : start ≤ index) :
    State.Agree tokens start { one with cursor := index } { other with cursor := index } :=
  ⟨low, rfl, agree.returnType, agree.scopes, agree.paired, agree.otherPaired⟩

theorem State.Agree.inside (agree : State.Agree tokens start one other) (ty : Option Ty) :
    State.Agree tokens start { one with returnType := ty } { other with returnType := ty } :=
  ⟨agree.low, agree.cursor, rfl, agree.scopes, agree.paired, agree.otherPaired⟩

/-- A level that has just been opened binds nothing. -/
theorem State.Agree.push (agree : State.Agree tokens start one other) :
    State.AgreeInside tokens start { one with scopes := one.scopes.push }
      { other with scopes := other.scopes.push } :=
  ⟨⟨agree.low, agree.cursor, agree.returnType, agree.scopes.push, agree.paired.push,
    agree.otherPaired.push⟩, fun _ => rfl⟩

end

namespace Parser

variable {ι σ α β : Type} {tokens : Array Token} {start : Nat} {one other : State}
  {related relatedThen : State → State → Prop}

/-! ## Outcomes -/

/-- Both come to the same value or the same error, in related states. -/
inductive SameOutcome (related : State → State → Prop) :
    EStateM.Result CompileError State α → EStateM.Result CompileError State α → Prop
  | ok (value : α) {one other : State} (after : related one other) :
      SameOutcome related (.ok value one) (.ok value other)
  | error (error : CompileError) {one other : State} (after : related one other) :
      SameOutcome related (.error error one) (.error error other)

theorem SameOutcome.stateAfter {result otherResult : EStateM.Result CompileError State α}
    (same : SameOutcome related result otherResult) :
    related (stateAfter result) (stateAfter otherResult) := by
  cases same with
  | ok value after => exact after
  | error error after => exact after

theorem SameOutcome.mono {result otherResult : EStateM.Result CompileError State α}
    (same : SameOutcome related result otherResult)
    (weaker : ∀ one other, related one other → relatedThen one other) :
    SameOutcome relatedThen result otherResult := by
  cases same with
  | ok value after => exact .ok value (weaker _ _ after)
  | error error after => exact .error error (weaker _ _ after)

/-- What follows may count on the run that led to it. -/
theorem sameOutcome_bind {first : Parser α} {second : α → Parser β}
    (before : SameOutcome related (first tokens one) (first tokens other))
    (weaker : ∀ one other, related one other → relatedThen one other)
    (behind : ∀ value after otherAfter, Runs tokens first one value after →
      related after otherAfter →
      SameOutcome relatedThen (second value tokens after) (second value tokens otherAfter)) :
    SameOutcome relatedThen ((first >>= second) tokens one) ((first >>= second) tokens other) := by
  rw [bind_apply, bind_apply]
  generalize result : first tokens one = outcome at before
  generalize otherResult : first tokens other = otherOutcome at before
  cases before with
  | ok value after => exact behind value _ _ result after
  | error error after => exact .error error (weaker _ _ after)

/-- From states that agree the parser comes to the same, in states that agree. -/
def Indifferent (tokens : Array Token) (start : Nat) (parser : Parser α) : Prop :=
  ∀ one other, State.Agree tokens start one other →
    SameOutcome (State.Agree tokens start) (parser tokens one) (parser tokens other)

/-! ## Composition -/

theorem indifferent_pure (value : α) : Indifferent tokens start (pure value) :=
  fun _ _ agree => .ok value agree

theorem indifferent_failAt (fault : Fault) (place : Position) :
    Indifferent tokens start (failAt fault place : Parser α) :=
  fun _ _ agree => .error ⟨fault, place⟩ agree

/-- What follows may count on what holds of every value that is read from `start` on. -/
theorem indifferent_bind_of {first : Parser α} {second : α → Parser β} {P : α → Prop}
    (before : Indifferent tokens start first)
    (yields : ∀ state value after, start ≤ state.cursor → Runs tokens first state value after →
      P value)
    (behind : ∀ value, P value → Indifferent tokens start (second value)) :
    Indifferent tokens start (first >>= second) :=
  fun one other agree => sameOutcome_bind (before one other agree) (fun _ _ => id)
    fun value _ _ run => behind value (yields one value _ agree.low run) _ _

theorem indifferent_bind {first : Parser α} {second : α → Parser β}
    (before : Indifferent tokens start first)
    (behind : ∀ value, Indifferent tokens start (second value)) :
    Indifferent tokens start (first >>= second) :=
  indifferent_bind_of (P := fun _ => True) before (fun _ _ _ _ _ => trivial)
    fun value _ => behind value

theorem indifferent_repeated {step : σ → Parser (Option σ)}
    (each : ∀ current, Indifferent tokens start (step current)) (bound : Nat) (current : σ) :
    Indifferent tokens start (repeated step bound current) := by
  induction bound generalizing current with
  | zero => exact indifferent_failAt _ _
  | succ bound ih =>
    refine indifferent_bind (each current) fun next => ?_
    cases next with
    | none => exact indifferent_pure current
    | some next => exact ih next

/-- Both stand at one token, so that both repetitions have the same bound. -/
theorem indifferent_iterate {step : σ → Parser (Option σ)}
    (each : ∀ current, Indifferent tokens start (step current)) (current : σ) :
    Indifferent tokens start (iterate step current) := by
  intro one other agree
  rw [iterate_apply, iterate_apply, ← agree.cursor]
  exact indifferent_repeated each _ current one other agree

theorem indifferent_recurse {body : (ι → Parser α) → ι → Parser α}
    (each : ∀ inner : ι → Parser α, (∀ input, Indifferent tokens start (inner input)) →
      ∀ input, Indifferent tokens start (body inner input)) (input : ι) :
    Indifferent tokens start (recurse body input) := by
  intro one other agree
  rw [recurse_apply, recurse_apply, ← agree.cursor]
  generalize tokens.size - one.cursor + 1 = bound
  induction bound generalizing input one other with
  | zero => exact indifferent_failAt _ _ one other agree
  | succ bound ih =>
    exact each _ (fun input one other agree => ih input one other agree) input one other agree

theorem indifferent_foldlM {step : β → ι → Parser β} (inputs : List ι)
    (each : ∀ current, ∀ input ∈ inputs, Indifferent tokens start (step current input))
    (current : β) : Indifferent tokens start (inputs.foldlM step current) := by
  induction inputs generalizing current with
  | nil => exact indifferent_pure current
  | cons input rest ih =>
    rw [List.foldlM_cons]
    exact indifferent_bind (each current input List.mem_cons_self) fun next =>
      ih (fun current input member => each current input (List.mem_cons_of_mem _ member)) next

theorem indifferent_mapM {step : ι → Parser β} (inputs : List ι)
    (each : ∀ input, Indifferent tokens start (step input)) :
    Indifferent tokens start (inputs.mapM step) := by
  induction inputs with
  | nil => exact indifferent_pure []
  | cons input rest ih =>
    rw [List.mapM_cons]
    exact indifferent_bind (each input) fun _ => indifferent_bind ih fun _ => indifferent_pure _

/-! ## The cursor -/

/-- A name at the current token is spelled there. -/
theorem indifferent_peek_bind {next : Token → Parser α}
    (behind : ∀ token, (∀ name, token.kind = .name name → Spelled tokens start name) →
      Indifferent tokens start (next token)) : Indifferent tokens start (peek >>= next) := by
  intro one other agree
  rw [bind_apply, bind_apply]
  rcases current : tokens[one.cursor]? with _ | token
  · have failing : ∀ state : State, state.cursor = one.cursor →
        peek tokens state = .error ⟨.outsideTokens, Position.start⟩ state := by
      intro state same
      rw [← same] at current
      simp [peek, current]
    rw [failing one rfl, failing other agree.cursor.symm]
    exact .error _ agree
  · rw [peek_apply current, peek_apply (agree.cursor ▸ current)]
    refine behind token (fun name named => ⟨one.cursor, agree.low, ?_⟩) one other agree
    rw [kindAt_of_getElem? current, named]

theorem indifferent_peek : Indifferent tokens start peek := by
  have looked : (peek >>= pure : Parser Token) = peek := bind_pure peek
  rw [← looked]
  exact indifferent_peek_bind fun token _ => indifferent_pure token

theorem indifferent_cursor : Indifferent tokens start cursor := by
  intro one other agree
  rw [cursor, cursor, agree.cursor]
  exact .ok _ agree

theorem indifferent_seek {index : Nat} (low : start ≤ index) :
    Indifferent tokens start (seek index) :=
  fun _ _ agree => .ok () (agree.seek low)

theorem indifferent_advance : Indifferent tokens start advance := by
  refine indifferent_bind indifferent_peek fun token => ?_
  split
  · exact indifferent_pure token
  · refine indifferent_bind_of (P := fun index => start ≤ index) indifferent_cursor
      (fun state index after low run => ?_) fun index low =>
        indifferent_bind (indifferent_seek (Nat.le_succ_of_le low)) fun _ => indifferent_pure token
    rwa [← (runs_cursor.mp run).1]

theorem indifferent_fail (fault : Fault) : Indifferent tokens start (fail fault : Parser α) :=
  indifferent_bind indifferent_peek fun _ => indifferent_failAt _ _

theorem indifferent_ofExcept (outcome : Except CompileError α) :
    Indifferent tokens start (ofExcept outcome) := by
  cases outcome with
  | error error => exact indifferent_failAt _ _
  | ok value => exact indifferent_pure value

theorem indifferent_check (mark : Symbol) : Indifferent tokens start (check mark) :=
  indifferent_bind indifferent_peek fun _ => indifferent_pure _

theorem indifferent_accept (mark : Symbol) : Indifferent tokens start (accept mark) := by
  refine indifferent_bind (indifferent_check mark) fun found => ?_
  split
  · exact indifferent_bind indifferent_advance fun _ => indifferent_pure _
  · exact indifferent_pure _

theorem indifferent_expect (mark : Symbol) (place : Place) :
    Indifferent tokens start (expect mark place) := by
  refine indifferent_bind (indifferent_accept mark) fun found => ?_
  split
  · exact indifferent_pure _
  · exact indifferent_bind indifferent_peek fun _ => indifferent_fail _

/-! ## Scopes and the enclosing function -/

theorem indifferent_findType? {name : String} (spelled : Spelled tokens start name) :
    Indifferent tokens start (findType? name) := by
  intro one other agree
  rw [findType?, findType?, Scopes.findType?, (agree.scopes.types name spelled).found]
  exact .ok _ agree

theorem indifferent_findValue? {name : String} (spelled : Spelled tokens start name) :
    Indifferent tokens start (findValue? name) := by
  intro one other agree
  rw [findValue?, findValue?, Scopes.findValue?, (agree.scopes.values name spelled).found]
  exact .ok _ agree

theorem indifferent_depth : Indifferent tokens start depth := by
  intro one other agree
  rw [depth, depth, agree.scopes.depth]
  exact .ok _ agree

theorem indifferent_returnType : Indifferent tokens start returnType := by
  intro one other agree
  rw [returnType, returnType, agree.returnType]
  exact .ok _ agree

/-- A declaration is refused in both or made in both. -/
theorem sameOutcome_declare (agree : State.Agree tokens start one other) {declaration : Declaration}
    (innermost : one.scopes.values.bindsInnermost declaration.name =
      other.scopes.values.bindsInnermost declaration.name) :
    SameOutcome (fun after otherAfter => State.Agree tokens start after otherAfter ∧
        (after.scopes = one.scopes ∧ otherAfter.scopes = other.scopes ∨
          one.scopes.values.Gains declaration.name declaration after.scopes.values ∧
            other.scopes.values.Gains declaration.name declaration otherAfter.scopes.values))
      (declare declaration tokens one) (declare declaration tokens other) := by
  rcases Namespace.bind_alike (List.ne_nil_of_length_pos agree.paired.opened)
      (List.ne_nil_of_length_pos agree.otherPaired.opened) innermost declaration with
    ⟨taken, otherTaken⟩ | ⟨after, otherAfter, gains, otherGains⟩
  · simp only [declare, Scopes.declare, taken, otherTaken]
    exact .error _ ⟨agree, .inl ⟨rfl, rfl⟩⟩
  · have made : one.scopes.declare declaration = .ok { one.scopes with values := after } :=
      Scopes.declare_eq_ok.mpr ⟨gains, rfl⟩
    have otherMade : other.scopes.declare declaration =
        .ok { other.scopes with values := otherAfter } :=
      Scopes.declare_eq_ok.mpr ⟨otherGains, rfl⟩
    simp only [declare, made, otherMade]
    exact .ok () ⟨⟨agree.low, agree.cursor, agree.returnType,
      agree.scopes.declare gains rfl otherGains rfl, agree.paired.declare made,
      agree.otherPaired.declare otherMade⟩, .inr ⟨gains, otherGains⟩⟩

theorem indifferent_declare {declaration : Declaration}
    (spelled : Spelled tokens start declaration.name) :
    Indifferent tokens start (declare declaration) :=
  fun _ _ agree => (sameOutcome_declare agree
    (agree.scopes.values _ spelled).innermost).mono fun _ _ => And.left

theorem indifferent_define {name : String} (spelled : Spelled tokens start name) (ty : Ty)
    (place : Position) : Indifferent tokens start (define name ty place) := by
  intro one other agree
  have opened : ∀ {scopes : Scopes}, scopes.Paired → scopes.types ≠ [] := fun paired =>
    List.ne_nil_of_length_pos (by rw [paired.level]; exact paired.opened)
  rcases Namespace.bind_alike (opened agree.paired) (opened agree.otherPaired)
      (agree.scopes.types name spelled).innermost ty with
    ⟨taken, otherTaken⟩ | ⟨after, otherAfter, gains, otherGains⟩
  · simp only [define, Scopes.define, taken, otherTaken]
    exact .error _ agree
  · have made : one.scopes.define name ty place = .ok { one.scopes with types := after } :=
      Scopes.define_eq_ok.mpr ⟨gains, rfl⟩
    have otherMade : other.scopes.define name ty place =
        .ok { other.scopes with types := otherAfter } :=
      Scopes.define_eq_ok.mpr ⟨otherGains, rfl⟩
    simp only [define, made, otherMade]
    exact .ok () ⟨agree.low, agree.cursor, agree.returnType,
      agree.scopes.define gains rfl otherGains rfl, agree.paired.define made,
      agree.otherPaired.define otherMade⟩

/-- Where the innermost levels bind the same values, any declarations are refused in both or made
in both, spelled or not. -/
theorem sameOutcome_forM_declare (declarations : List Declaration)
    (agree : State.AgreeInside tokens start one other) :
    SameOutcome (State.AgreeInside tokens start) (declarations.forM declare tokens one)
      (declarations.forM declare tokens other) := by
  induction declarations generalizing one other with
  | nil => exact .ok () agree
  | cons declaration rest ih =>
    have first := sameOutcome_declare agree.toAgree (agree.innermost declaration.name)
    have kept : SameOutcome (State.AgreeInside tokens start) (declare declaration tokens one)
        (declare declaration tokens other) := by
      refine first.mono fun after otherAfter ⟨agreeAfter, change⟩ => ⟨agreeAfter, fun name => ?_⟩
      rcases change with ⟨same, otherSame⟩ | ⟨gains, otherGains⟩
      · rw [same, otherSame]
        exact agree.innermost name
      · rw [gains.bindsInnermost_eq, otherGains.bindsInnermost_eq, agree.innermost]
    exact sameOutcome_bind kept (fun _ _ => id) fun _ _ _ _ agree => ih agree

/-- Where nothing but the cursor has changed in either, they agree as they did. -/
theorem agree_of_still (agree : State.Agree tokens start one other) {after otherAfter : State}
    {cursor otherCursor : Nat} (same : after = { one with cursor })
    (otherSame : otherAfter = { other with cursor := otherCursor }) (low : start ≤ cursor)
    (level : cursor = otherCursor) : State.Agree tokens start after otherAfter := by
  subst level
  rw [same, otherSame]
  exact agree.seek low

/-- What is read in a level of its own leaves nothing in the scopes. -/
theorem indifferent_inScope_of {inner : Parser α} (stays : Stays inner)
    (inside : ∀ one other, State.AgreeInside tokens start one other →
      SameOutcome (State.Agree tokens start) (inner tokens one) (inner tokens other)) :
    Indifferent tokens start (inScope inner) := by
  intro one other agree
  obtain ⟨cursor, still⟩ : StillAt tokens one (inScope inner) := stillAt_inScope agree.paired stays
  obtain ⟨otherCursor, otherStill⟩ : StillAt tokens other (inScope inner) :=
    stillAt_inScope agree.otherPaired stays
  have same := inside _ _ agree.push
  -- Both levels are closed where the parsers inside have left the cursor.
  have closing := same.stateAfter
  rw [stateAfter_inScope] at still otherStill
  have reached := congrArg State.cursor still
  have otherReached := congrArg State.cursor otherStill
  have level : cursor = otherCursor := reached.symm.trans (closing.cursor.trans otherReached)
  have low : start ≤ cursor := Nat.le_trans closing.low (Nat.le_of_eq reached)
  rw [inScope, inScope]
  generalize inner tokens { one with scopes := one.scopes.push } = outcome at same still ⊢
  generalize inner tokens { other with scopes := other.scopes.push } = otherOutcome
    at same otherStill ⊢
  cases same with
  | ok value => exact .ok value (agree_of_still agree still otherStill low level)
  | error error => exact .error error (agree_of_still agree still otherStill low level)

theorem indifferent_inScope {inner : Parser α} (stays : Stays inner)
    (inside : Indifferent tokens start inner) : Indifferent tokens start (inScope inner) :=
  indifferent_inScope_of stays fun _ _ agree => inside _ _ agree.toAgree

theorem indifferent_returning {inner : Parser α} (ty : Ty)
    (inside : Indifferent tokens start inner) : Indifferent tokens start (returning ty inner) := by
  intro one other agree
  have same := inside _ _ (agree.inside (some ty))
  rw [returning, returning, ← agree.returnType]
  generalize inner tokens { one with returnType := some ty } = outcome at same ⊢
  generalize inner tokens { other with returnType := some ty } = otherOutcome at same ⊢
  cases same with
  | ok value after => exact .ok value (after.inside one.returnType)
  | error error after => exact .error error (after.inside one.returnType)

end Parser

end MiniC
