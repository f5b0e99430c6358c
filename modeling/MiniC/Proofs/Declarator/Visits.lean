/-
# MiniC.Proofs.Declarator.Visits — where the second pass over a declarator goes

The second pass goes back to the components that the first has noted. Each visit begins at its
component and ends somewhere behind it, whether it succeeds or fails, and `Reaches` says that the
first pass gets there too, having noted that component only. So what it notes next is not in front
of where the visit ended, and it has not come to its own end before.

* `finishes_component` — the first pass gets from a component to where the visit ends.
* `inRow_visits` — the visits stand in a row, and end where the first pass does at the latest.
* `inside_declaratorAround` — what a declarator takes inside parentheses, the first pass goes
  through.
* `looksBack` — what this says of the cursor, from where a declarator is read to where it is left.
-/
import MiniC.Proofs.Declarator.Inside
import MiniC.Proofs.Declarator.Soundness
import MiniC.Proofs.Safety.Declarator

namespace MiniC

set_option autoImplicit false

/-! ## Components -/

/-- From the component at `start` the first pass gets to the index, and on the way it notes that
component only and closes nothing that was open. -/
structure Reaches (tokens : Array Token) (start index : Nat) : Prop where
  behind : start < index
  passes : ∀ scan : Scan, ∃ depth, scan.depth ≤ depth ∧
    Passes tokens start scan index { scan.note start with depth }

namespace Reaches

variable {tokens : Array Token} {start index : Nat}

/-- A component that is noted goes on with what the first pass goes through. -/
theorem of_through {kind : Kind} {opened : Nat} (here : kindAt tokens start = some kind)
    (passed : ∀ scan : Scan, scan.step start kind =
      .pass { scan.note start with depth := scan.depth + opened })
    (through : Through tokens opened (start + 1) index) : Reaches tokens start index := by
  refine ⟨through.le, fun scan => ?_⟩
  obtain ⟨depth, deeper, passes⟩ :=
    through { scan.note start with depth := scan.depth + opened } (Nat.le_add_left _ _)
  exact ⟨depth, Nat.le_trans (Nat.le_add_right _ _) deeper, .step here (passed scan) passes⟩

theorem name {spelling : String} (here : kindAt tokens start = some (.name spelling)) :
    Reaches tokens start (start + 1) :=
  .of_through here (fun scan => congrArg _ (scan.note_with_depth start).symm) (Through.refl 0 _)

theorem bracket (here : kindAt tokens start = some (.symbol .openBracket))
    (through : Through tokens 0 (start + 1) index) : Reaches tokens start index :=
  .of_through here (fun scan => congrArg _ (scan.note_with_depth start).symm) through

theorem opened (here : kindAt tokens start = some (.symbol .openParen))
    (through : Through tokens 1 (start + 1) index) : Reaches tokens start index :=
  .of_through here (fun _ => rfl) through

theorem closed (here : kindAt tokens start = some (.symbol .openParen))
    (through : Through tokens 1 (start + 1) index)
    (closing : kindAt tokens index = some (.symbol .closeParen)) :
    Reaches tokens start (index + 1) := by
  refine ⟨Nat.lt_succ_of_lt through.le, fun scan => ?_⟩
  obtain ⟨depth, deeper, passes⟩ :=
    through { scan.note start with depth := scan.depth + 1 } (Nat.le_add_left _ _)
  have still : depth ≠ 0 := Nat.ne_of_gt (Nat.lt_of_lt_of_le (Nat.succ_pos _) deeper)
  have closes : Scan.step { scan.note start with depth } index (.symbol .closeParen) =
      .pass { scan.note start with depth := depth - 1 } := by
    simp [Scan.step, still]
  exact ⟨depth - 1, Nat.le_sub_one_of_lt deeper,
    .step here rfl (passes.trans (.single closing closes))⟩

/-- Inside parentheses not even the component is noted. -/
theorem through (reaches : Reaches tokens start index) : Through tokens 1 start index := by
  intro scan deep
  obtain ⟨depth, deeper, passes⟩ := reaches.passes scan
  rw [Scan.note, if_neg (Nat.ne_of_gt deep)] at passes
  exact ⟨depth, deeper, passes⟩

end Reaches

namespace Parser

variable {α β : Type} {tokens : Array Token} {start : Nat} {state : State}
  {inner : Option Ty → Parser Declarator}

/-- Whatever becomes of the parser, the first pass gets from the component to where it ends. -/
abbrev ReachesAt (tokens : Array Token) (start : Nat) (state : State) (parser : Parser α) : Prop :=
  Finishes tokens (fun after => Reaches tokens start after.cursor) state parser

/-- What stands in the parenthesis, up to where it is closed if it is. -/
theorem reachesAt_closing {first : Parser α} {last : α → Parser β} {place : Place}
    (opening : kindAt tokens start = some (.symbol .openParen))
    (before : Through tokens 1 (start + 1) state.cursor) (inside : InsideAt tokens 1 state first)
    (stays : ∀ value {P : State → Prop} {after : State}, P after →
      Finishes tokens P after (last value)) :
    ReachesAt tokens start state
      (first >>= fun value => expect .closeParen place >>= fun _ => last value) := by
  refine finishes_bind (fun _ after failed => ?_) fun value between run => ?_
  · exact .opened opening (before.trans (inside.of_error failed))
  · have through := before.trans (inside.of_runs run)
    refine finishes_bind (fun _ after failed => ?_) fun _ after passed => ?_
    · rw [eq_of_expect_error failed]
      exact .opened opening through
    · obtain ⟨closing, rfl⟩ := runs_expect.mp passed
      exact stays value (.closed opening through closing)

/-- Behind a bracket, whatever the first pass goes through in any case belongs to its component. -/
theorem reachesAt_bracket {parser : Parser α}
    (opening : kindAt tokens state.cursor = some (.symbol .openBracket))
    (inside : InsideAt tokens 0 { state with cursor := state.cursor + 1 } parser) :
    Finishes tokens (fun after => Reaches tokens state.cursor after.cursor)
      { state with cursor := state.cursor + 1 } parser :=
  .bracket opening inside

theorem reachesAt_arraySuffix (state : State) (element : Ty)
    (opening : kindAt tokens state.cursor = some (.symbol .openBracket)) :
    ReachesAt tokens state.cursor state (arraySuffix element) := by
  obtain ⟨bracket, there, _⟩ := kindAt_eq_some opening
  have passed : Runs tokens (expect .openBracket .openingArrayLength) state ()
      { state with cursor := state.cursor + 1 } := runs_expect.mpr ⟨opening, rfl⟩
  refine finishes_bind_of_runs (runs_peek.mpr ⟨there, rfl⟩) (finishes_bind_of_runs passed ?_)
  refine reachesAt_bracket opening (insideAt_bind (inside_peek _) fun token between looked => ?_)
  obtain ⟨here, rfl⟩ := runs_peek.mp looked
  split
  · next length counted =>
    split
    · have kind : kindAt tokens (state.cursor + 1) = some (.integer length) := by
        rw [kindAt_of_getElem? here, counted]
      exact insideAt_bind (insideAt_advance kind (traceless_integer length)) fun _ _ _ =>
        inside_bind (inside_expect traceless_closeBracket _) (fun _ => inside_pure _) _
    · exact inside_fail _ _
  · exact inside_fail _ _

section

variable (inside : ∀ base, Inside tokens 1 (inner base))

include inside

theorem inside_parameter : Inside tokens 1 (parameter inner) :=
  inside_bind inside_peek fun _ => inside_bind (inside none) fun _ => inside_pure _

theorem inside_nextParameter (read : Array (Parameter Ty)) :
    Inside tokens 1 (nextParameter inner read) := by
  refine inside_bind (inside_accept traceless_comma) fun found => ?_
  split
  · exact inside_bind (inside_parameter inside) fun _ => inside_pure _
  · exact inside_pure _

theorem inside_parameters : Inside tokens 1 (parameters inner) := by
  refine inside_bind (inside_check _) fun closed => ?_
  split
  · exact inside_pure _
  · exact inside_bind (inside_parameter inside) fun _ =>
      inside_iterate (inside_nextParameter inside) _

theorem reachesAt_parenthesized (state : State) (built : Declarator)
    (opening : kindAt tokens state.cursor = some (.symbol .openParen)) :
    ReachesAt tokens state.cursor state (parenthesized inner built) := by
  obtain ⟨token, there, _⟩ := kindAt_eq_some opening
  have more : kindAt tokens state.cursor ≠ some .endOfFile := by simp [opening]
  refine finishes_bind_of_runs ((runs_advance more).mpr ⟨there, rfl⟩) ?_
  have entered : Through tokens 1 (state.cursor + 1) (state.cursor + 1) := .refl 1 _
  refine finishes_bind (fun _ after failed => ?_) fun closed between looked => ?_
  · exact .opened opening ((inside_check _ _).of_error failed)
  obtain ⟨_, _, rfl⟩ := runs_check.mp looked
  refine finishes_bind (fun _ after failed => ?_) fun typed between looked => ?_
  · exact .opened opening ((inside_isTypeName _).of_error failed)
  obtain ⟨_, _, rfl⟩ := runs_isTypeName.mp looked
  split
  · simp only [parameterList, bind_assoc, pure_bind]
    exact reachesAt_closing opening entered (inside_parameters inside _) fun _ _ _ => finishes_pure
  · refine reachesAt_closing opening entered (inside _ _) fun group _ _ holds => ?_
    split
    · exact finishes_ofExcept holds
    · exact finishes_pure holds

end

/-! ## Visits -/

/-- The tokens that a visit takes, from where its component begins to where reading it ends. A name
is looked at without being passed, and takes its one token. -/
structure Visit where
  start : Nat
  stop : Nat
  nonempty : start < stop
  deriving DecidableEq, Repr

/-- A visit to the component at `start` that ends in the state. -/
def Visit.upTo (start : Nat) (after : State) : Visit :=
  ⟨start, max (start + 1) after.cursor, Nat.le_max_left ..⟩

theorem Visit.stop_upTo (start : Nat) (after : State) :
    (Visit.upTo start after).stop = max (start + 1) after.cursor := rfl

/-- Visits that stand in a row: none begins before the one in front of it has ended, and all are
between the two indices. -/
structure InRow (start stop : Nat) (seen : List Visit) : Prop where
  apart : seen.Pairwise fun one next => one.stop ≤ next.start
  within : ∀ visit ∈ seen, start ≤ visit.start ∧ visit.stop ≤ stop

namespace InRow

variable {stop : Nat} {seen : List Visit}

theorem nil (start stop : Nat) : InRow start stop [] :=
  ⟨.nil, nofun⟩

theorem mono {earlier : Nat} (row : InRow start stop seen) (le : earlier ≤ start) :
    InRow earlier stop seen :=
  ⟨row.apart, fun visit member => (row.within visit member).imp_left (Nat.le_trans le)⟩

/-- A visit in front of those behind its end. -/
theorem cons {visit : Visit} (row : InRow visit.stop stop seen) (le : visit.stop ≤ stop) :
    InRow visit.start stop (visit :: seen) := by
  refine ⟨.cons (fun next member => (row.within next member).1) row.apart, ?_⟩
  rintro next (_ | ⟨_, member⟩)
  · exact ⟨Nat.le_refl _, le⟩
  · exact (row.mono (Nat.le_of_lt visit.nonempty)).within next member

end InRow

/-- The visits of the second pass to components that stand latest first, in the order of the tokens.
A visit that fails is the last one and is among them. -/
def visits (declarator : Option Ty → Parser Declarator) (tokens : Array Token) :
    List Nat → Declarator → State → List Visit
  | [], _, _ => []
  | start :: earlier, built, state =>
    match component declarator built start tokens state with
    | .ok built after => visits declarator tokens earlier built after ++ [.upTo start after]
    | .error _ after => [.upTo start after]

/-- Where no visit fails, every component is visited. -/
theorem starts_visits {components : List Nat} {built declared : Declarator} {after : State}
    (run : Runs tokens (components.foldlM (component inner) built) state declared after) :
    (visits inner tokens components built state).map Visit.start = components.reverse := by
  induction components generalizing built state with
  | nil => rfl
  | cons start earlier ih =>
    rw [List.foldlM_cons] at run
    obtain ⟨result, between, one, others⟩ := runs_bind.mp run
    rw [visits, one, List.map_append, ih others, List.reverse_cons]
    rfl

/-- The component that stands first is visited after the others, if they succeed. -/
theorem visits_append (later : List Nat) (start : Nat) (built : Declarator) (state : State) :
    visits inner tokens (later ++ [start]) built state = visits inner tokens later built state ∨
      ∃ between last, visits inner tokens (later ++ [start]) built state =
        .upTo start (stateAfter (component inner between start tokens last)) ::
          visits inner tokens later built state := by
  induction later generalizing built state with
  | nil =>
    refine .inr ⟨built, state, ?_⟩
    simp only [List.nil_append, visits]
    rcases component inner built start tokens state with _ | _ <;> rfl
  | cons first rest ih =>
    simp only [List.cons_append, visits]
    rcases component inner built first tokens state with ⟨result, after⟩ | ⟨error, after⟩
    · rcases ih result after with same | ⟨between, last, same⟩
      · exact .inl (congrArg (· ++ _) same)
      · exact .inr ⟨between, last, congrArg (· ++ _) same⟩
    · exact .inl rfl

/-- A fold that fails ends where one of its steps failed. -/
theorem exists_error_of_foldlM {ι : Type} {step : β → ι → Parser β} {inputs : List ι} {current : β}
    {error : CompileError} {after : State}
    (failed : inputs.foldlM step current tokens state = .error error after) :
    ∃ input ∈ inputs, ∃ current between,
      step current input tokens between = .error error after := by
  induction inputs generalizing current state with
  | nil => cases failed
  | cons input rest ih =>
    rw [List.foldlM_cons, bind_apply] at failed
    rcases turn : step current input tokens state with ⟨next, between⟩ | ⟨_, _⟩
    · rw [turn] at failed
      obtain ⟨other, member, found⟩ := ih failed
      exact ⟨other, List.mem_cons_of_mem _ member, found⟩
    · rw [turn] at failed
      cases failed
      exact ⟨input, List.mem_cons_self, current, state, turn⟩

section

variable (inside : ∀ base, Inside tokens 1 (inner base))

include inside

/-- However a visit ends, the first pass gets there from the component, and with a name gets behind
it. -/
theorem finishes_component (state : State) (built : Declarator) {kind : Kind}
    (here : kindAt tokens start = some kind) (opens : kind.opensComponent = true) :
    Finishes tokens (fun after => Reaches tokens start (Visit.upTo start after).stop ∧
      Through tokens 1 start after.cursor) state (component inner built start) := by
  have passed {after : State} (reaches : Reaches tokens start after.cursor) :
      Reaches tokens start (Visit.upTo start after).stop ∧ Through tokens 1 start after.cursor := by
    rw [Visit.stop_upTo, Nat.max_eq_right reaches.behind]
    exact ⟨reaches, reaches.through⟩
  obtain ⟨token, there, same, _⟩ := kindAt_eq_some here
  have sought : Runs tokens (seek start) state () { state with cursor := start } := rfl
  refine finishes_bind_of_runs sought (finishes_bind_of_runs (runs_peek.mpr ⟨there, rfl⟩) ?_)
  rcases Kind.eq_of_opensComponent opens with ⟨spelling, rfl⟩ | rfl | rfl
  · simp only [same]
    refine finishes_ofExcept ⟨?_, .refl 1 start⟩
    rw [Visit.stop_upTo, Nat.max_eq_left (Nat.le_succ start)]
    exact .name here
  · simp only [same]
    have reaches := reachesAt_arraySuffix { state with cursor := start } built.ty here
    refine finishes_bind (fun _ _ failed => passed (reaches.of_error failed)) fun _ _ run => ?_
    exact finishes_pure (passed (reaches.of_runs run))
  · simp only [same]
    exact passed (reachesAt_parenthesized inside { state with cursor := start } built here)

/-- The visits stand in a row between where the first pass begins and where it ends. The induction
follows the first pass: at a token that it notes, the visit to that component comes first, and what
is left of the pass begins behind it. -/
theorem inRow_visits {scan final : Scan} {stop : Nat} {components : List Nat}
    (passes : Passes tokens start scan stop final) (stops : StopsAt tokens stop final)
    (found : final.components = components ++ scan.components) (built : Declarator)
    (state : State) :
    InRow start stop (visits inner tokens components built state) := by
  induction bound : stop - start using Nat.strongRecOn generalizing start scan components with
  | ind bound ih =>
    subst bound
    cases passes with
    | done =>
      obtain rfl : components = [] := by simpa using found
      exact .nil _ _
    | @step _ _ _ next _ kind here passed rest =>
      have further := rest.le
      rcases Scan.noted_of_step passed with kept | ⟨noted, opens⟩
      · exact (ih (stop - (start + 1)) (by omega) rest (kept ▸ found) rfl).mono (Nat.le_succ start)
      · obtain ⟨later, same⟩ := rest.exists_append
        have split : components = later ++ [start] := by
          rw [found, noted, ← List.singleton_append, ← List.append_assoc] at same
          exact List.append_cancel_right same
        rw [split]
        rcases visits_append later start built state with unvisited | ⟨between, last, visited⟩
        · rw [unvisited]
          exact (ih (stop - (start + 1)) (by omega) rest same rfl).mono (Nat.le_succ start)
        · rw [visited]
          obtain ⟨⟨behind, reaches⟩, _⟩ := finishes_component inside last between here opens
          obtain ⟨depth, _, through⟩ := reaches scan
          have remaining := Passes.rest (.step here passed rest) stops through
          rw [noted, ← Scan.components_note passed noted] at same
          exact .cons (ih _ (Nat.sub_lt_sub_left further behind) remaining same rfl) remaining.le

/-! ## Declarators -/

theorem inside_declaratorStep (base : Option Ty) : Inside tokens 1 (declaratorStep inner base) := by
  refine inside_bind (inside_baseType base) fun ty =>
    inside_bind (inside_iterate inside_pointer ty) fun pointed state => ?_
  refine finishes_bind (fun _ _ failed => (inside_scanComponents state).of_error failed)
    fun components scanned scanning => finishes_bind_of_runs (runs_cursor.mpr ⟨rfl, rfl⟩) ?_
  refine finishes_bind (fun error after failed => ?_) fun built last visited => ?_
  · -- The first pass came to the component whose visit fails, and goes on from there with it.
    obtain ⟨start, member, current, between, failed⟩ := exists_error_of_foldlM failed
    obtain ⟨low, high, kind, here, opens⟩ := noted_of_runs scanning start member
    obtain ⟨depth, passes, _, _⟩ := passes_of_runs scanning
    obtain ⟨_, passes⟩ := passes.split low (Nat.le_of_lt high)
    exact passes.through.trans
      ((finishes_component inside between current here opens).of_error failed).2
  · show Through tokens 1 state.cursor scanned.cursor
    exact (inside_scanComponents state).of_runs scanning

end

theorem inside_nested (bound : Nat) (base : Option Ty) :
    Inside tokens 1 (nested declaratorStep bound base) := by
  induction bound generalizing base with
  | zero => exact inside_failAt _ _
  | succ bound ih => exact inside_declaratorStep ih base

/-- Inside parentheses that are open, a first pass goes through whatever a declarator takes there,
whether it can be read or not. -/
theorem inside_declaratorAround (base : Option Ty) : Inside tokens 1 (declaratorAround base) := by
  intro state
  rw [InsideAt, Finishes, declaratorAround, recurse_apply]
  exact inside_nested _ base state

/-- What reading a declarator does with the cursor. -/
structure LooksBack (tokens : Array Token) (base : Option Ty) (state : State) : Prop where
  /-- A declarator that is read leaves the cursor where the first pass ended, which has closed what
  it opened by then, and every component has been visited. -/
  restores : ∀ declared after, Runs tokens (declaratorAround base) state declared after →
    ∃ ty begun components scanned,
      Runs tokens (baseType base >>= iterate pointer) state ty begun ∧
      Runs tokens scanComponents begun components scanned ∧
      after.cursor = scanned.cursor ∧
      Passes tokens begun.cursor ⟨[], 0⟩ after.cursor ⟨components, 0⟩ ∧
      StopsAt tokens after.cursor ⟨components, 0⟩ ∧
      (visits declaratorAround tokens components ⟨ty, none⟩ scanned).map Visit.start =
        components.reverse
  /-- Wherever the first pass ends, also inside parentheses, the visits of the second stand in a row
  and end there at the latest, whether they succeed or not. -/
  inRow : ∀ ty begun components scanned,
    Runs tokens (baseType base >>= iterate pointer) state ty begun →
    Runs tokens scanComponents begun components scanned →
    ∃ depth, Passes tokens begun.cursor ⟨[], 0⟩ scanned.cursor ⟨components, depth⟩ ∧
      StopsAt tokens scanned.cursor ⟨components, depth⟩ ∧
      InRow begun.cursor scanned.cursor
        (visits declaratorAround tokens components ⟨ty, none⟩ scanned)
  advances : ∀ declared after, Runs tokens (declaratorAround base) state declared after →
    state.cursor ≤ after.cursor ∧ (base = none → state.cursor < after.cursor)
  fails : ∀ error after, declaratorAround base tokens state = .error error after →
    state.cursor ≤ after.cursor

theorem le_of_declaratorAround (base : Option Ty) (state : State) :
    Finishes tokens (fun after => state.cursor ≤ after.cursor) state (declaratorAround base) :=
  (inside_declaratorAround base state).le

/-- A type name of its own is passed before anything else. -/
theorem lt_of_runs_declarator {declared : Declarator} {after : State}
    (run : Runs tokens (declaratorStep declaratorAround none) state declared after) :
    state.cursor < after.cursor := by
  obtain ⟨ty, named, naming, _, starred, stars, _, scanned, scan, _, _, rfl⟩ :=
    runs_declaratorStep.mp run
  obtain ⟨_, rfl⟩ := runs_typeName.mp naming
  have pointers := ((inside_iterate inside_pointer ty _).of_runs stars).le
  obtain ⟨_, passes, _, _⟩ := passes_of_runs scan
  exact Nat.le_trans pointers passes.le

theorem looksBack (tokens : Array Token) (base : Option Ty) (state : State) :
    LooksBack tokens base state := by
  have step {declared : Declarator} {after : State}
      (run : Runs tokens (declaratorAround base) state declared after) :
      Runs tokens (declaratorStep declaratorAround base) state declared after := by
    obtain ⟨⟨_, here, _⟩, _⟩ := found_declaratorAround run
    have within : state.cursor ≤ tokens.size :=
      Nat.le_trans ((le_of_declaratorAround base state).of_runs run)
        (Nat.le_of_lt (lt_size_of_kindAt here))
    exact (runs_declaratorAround within).mp run
  refine ⟨fun declared after run => ?_, fun ty begun components scanned _ scan => ?_,
    fun declared after run => ⟨(le_of_declaratorAround base state).of_runs run, ?_⟩,
    fun error after failed => (le_of_declaratorAround base state).of_error failed⟩
  · obtain ⟨_, named, naming, ty, begun, stars, components, scanned, scan, _, visited, rfl⟩ :=
      runs_declaratorStep.mp (step run)
    obtain ⟨depth, passes, stops, _⟩ := passes_of_runs scan
    have reads : ReadsDeclarators tokens declaratorAround :=
      ⟨onlyMoves_declaratorAround, found_declaratorAround⟩
    obtain ⟨_, _, _, _, closed⟩ := reads.spans_visits passes stops (List.append_nil _).symm visited
    obtain rfl : depth = 0 := closed
    exact ⟨ty, begun, components, scanned, runs_bind.mpr ⟨_, named, naming, stars⟩, scan, rfl,
      passes, stops, starts_visits visited⟩
  · obtain ⟨depth, passes, stops, _⟩ := passes_of_runs scan
    exact ⟨depth, passes, stops, inRow_visits inside_declaratorAround passes stops
      (List.append_nil _).symm _ _⟩
  · rintro rfl
    exact lt_of_runs_declarator (step run)

/-- The second pass visits the group, up to and with the parenthesis that closes it, and the
parameter list behind it. -/
theorem looksBack_chosen : ∃ tokens : Array Token, ∃ declared after,
    tokensOf "int32 (*chosen[2])(int32 a, bool b) = x;" = .ok tokens.toList ∧
      Runs tokens (declaratorAround none) State.initial declared after ∧ after.cursor = 15 ∧
      (∀ ty begun components scanned,
        Runs tokens (baseType none >>= iterate pointer) State.initial ty begun →
        Runs tokens scanComponents begun components scanned →
        (visits declaratorAround tokens components ⟨ty, none⟩ scanned).map
          (fun visit => (visit.start, visit.stop)) = [(1, 8), (8, 15)]) ∧
      LooksBack tokens none State.initial := by
  have outcomes : ((tokensOf "int32 (*chosen[2])(int32 a, bool b) = x;").toOption.map fun list =>
      (match declaratorAround none list.toArray State.initial with
        | .ok _ after => some after.cursor
        | .error .. => none,
      match (baseType none >>= iterate pointer) list.toArray State.initial with
        | .ok ty begun =>
          match scanComponents list.toArray begun with
          | .ok components scanned =>
            (visits declaratorAround list.toArray components ⟨ty, none⟩ scanned).map
              fun visit => (visit.start, visit.stop)
          | .error .. => []
        | .error .. => [])) = some (some 15, [(1, 8), (8, 15)]) := by
    decide +kernel
  obtain ⟨list, lexed, outcome⟩ := exists_ok_of_map_eq_some outcomes
  obtain ⟨read, visited⟩ := Prod.mk.inj outcome
  rcases run : declaratorAround none list.toArray State.initial with
    ⟨declared, after⟩ | ⟨error, after⟩
  · rw [run] at read
    refine ⟨list.toArray, declared, after, lexed, run, Option.some.inj read, ?_,
      looksBack list.toArray none State.initial⟩
    intro ty begun components scanned first scan
    rw [Runs] at first scan
    simp only [first, scan] at visited
    exact visited
  · rw [run] at read
    cases read

end Parser

end MiniC
