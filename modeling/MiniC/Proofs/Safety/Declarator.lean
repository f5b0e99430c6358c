/-
# MiniC.Proofs.Safety.Declarator — declarators are read inside the tokens

The second pass over a declarator puts the cursor back to what the first one noted. That is safe
because the first pass notes names, brackets and parentheses only, all of them between where it
begins and where it ends: `noted_of_runs`. So every component is found where it is sought, and is
of a kind that can be read.
-/
import MiniC.Proofs.Declarator.Completeness
import MiniC.Proofs.Safety

namespace MiniC

set_option autoImplicit false

/-- Whether a component of a declarator may begin with the token. -/
def Kind.opensComponent : Kind → Bool
  | .name _ | .symbol .openBracket | .symbol .openParen => true
  | _ => false

theorem Kind.eq_of_opensComponent {kind : Kind} (opens : kind.opensComponent = true) :
    (∃ spelling, kind = .name spelling) ∨ kind = .symbol .openBracket ∨
      kind = .symbol .openParen := by
  unfold opensComponent at opens
  split at opens
  · exact .inl ⟨_, rfl⟩
  · exact .inr (.inl rfl)
  · exact .inr (.inr rfl)
  · cases opens

/-! ## The first pass -/

/-- A token is noted only if a component may begin with it. -/
theorem Scan.noted_of_step {scan next : Scan} {index : Nat} {kind : Kind}
    (passed : scan.step index kind = .pass next) :
    next.components = scan.components ∨
      next.components = index :: scan.components ∧ kind.opensComponent = true := by
  rcases pass_cases passed with ⟨rfl, rfl⟩ | ⟨-, -, rfl⟩ | ⟨begins, rfl⟩ | ⟨-, rfl⟩
  · exact (scan.note_components index).imp_right fun same => ⟨same, rfl⟩
  · exact .inl rfl
  · rcases begins with ⟨_, rfl⟩ | rfl <;>
      exact (scan.note_components index).imp_right fun same => ⟨same, rfl⟩
  · exact .inl rfl

/-- Only the closing of a parenthesis that was opened takes a level off. -/
theorem Scan.depth_step {scan next : Scan} {index : Nat} {kind : Kind}
    (passed : scan.step index kind = .pass next) :
    next.depth + (if kind = .symbol .closeParen then 1 else 0) =
      scan.depth + (if kind = .symbol .openParen then 1 else 0) := by
  have noted : (scan.note index).depth = scan.depth := by
    rw [← scan.note_with_depth index]
  rcases pass_cases passed with
    ⟨rfl, rfl⟩ | ⟨rfl, deep, rfl⟩ | ⟨begins, rfl⟩ | ⟨⟨noOpening, noClosing⟩, rfl⟩
  · rfl
  · exact Nat.sub_add_cancel deep
  · rcases begins with ⟨_, rfl⟩ | rfl <;> exact noted
  · rw [if_neg noClosing, if_neg noOpening]

/-- How often a symbol stands between two tokens. -/
def occurrences (tokens : Array Token) (mark : Symbol) (start stop : Nat) : Nat :=
  (List.range' start (stop - start)).countP fun index =>
    kindAt tokens index = some (.symbol mark)

theorem occurrences_of_lt {tokens : Array Token} {start stop : Nat} {kind : Kind} (mark : Symbol)
    (less : start < stop) (here : kindAt tokens start = some kind) :
    occurrences tokens mark start stop =
      (if kind = .symbol mark then 1 else 0) + occurrences tokens mark (start + 1) stop := by
  obtain ⟨length, rfl⟩ := Nat.exists_eq_add_of_lt less
  have first : start + length + 1 - start = length + 1 := by omega
  have rest : start + length + 1 - (start + 1) = length := by omega
  simp only [occurrences, first, rest, List.range'_succ, List.countP_cons, here, Option.some.injEq,
    decide_eq_true_eq]
  omega

/-- The pass counts as open what was opened on its way and not closed, so that no parenthesis is
closed that was not opened. -/
theorem Passes.depth {tokens : Array Token} {start stop : Nat} {scan final : Scan}
    (passes : Passes tokens start scan stop final) :
    final.depth + occurrences tokens .closeParen start stop =
      scan.depth + occurrences tokens .openParen start stop := by
  induction passes with
  | done => simp [occurrences]
  | step here passed rest ih =>
    rw [occurrences_of_lt .closeParen rest.le here, occurrences_of_lt .openParen rest.le here]
    have one := Scan.depth_step passed
    omega

/-- What the pass notes on its way lies on its way. -/
theorem Passes.noted {tokens : Array Token} {start stop : Nat} {scan final : Scan}
    (passes : Passes tokens start scan stop final) {index : Nat}
    (member : index ∈ final.components) :
    index ∈ scan.components ∨ start ≤ index ∧ index < stop ∧
      ∃ kind, kindAt tokens index = some kind ∧ kind.opensComponent = true := by
  induction passes with
  | done => exact .inl member
  | @step start stop scan next final kind here passed rest ih =>
    have further := rest.le
    rcases ih member with known | ⟨low, high, opens⟩
    · rcases Scan.noted_of_step passed with same | ⟨same, opens⟩
      · exact .inl (same ▸ known)
      · rw [same, List.mem_cons] at known
        rcases known with rfl | known
        · exact .inr ⟨Nat.le_refl _, further, kind, here, opens⟩
        · exact .inl known
    · exact .inr ⟨by omega, high, opens⟩

namespace Parser

variable {tokens : Array Token} {start : Nat} {state : State}

/-- The pass notes tokens between where it begins and where it ends, each of which may begin a
component. -/
theorem noted_of_runs {components : List Nat} {after : State}
    (run : Runs tokens scanComponents state components after) :
    ∀ index ∈ components, state.cursor ≤ index ∧ index < after.cursor ∧
      ∃ kind, kindAt tokens index = some kind ∧ kind.opensComponent = true := by
  intro index member
  obtain ⟨depth, passes, _, _⟩ := passes_of_runs run
  rcases passes.noted member with impossible | between
  · cases impossible
  · exact between

theorem safe_scanToken (scan : Scan) : Safe tokens start (scanToken scan) := by
  refine safe_peek_bind fun token state here sound => ?_
  refine safeAt_bind (safeAt_pure sound state.cursor |>.of_eq id rfl) fun index _ run sound => ?_
  split
  · exact safeAt_pure sound _
  · exact safe_fail rfl _ sound
  · exact safe_bind safe_advance (fun _ => safe_pure _) _ sound

theorem safe_scanComponents : Safe tokens start scanComponents :=
  safe_bind (safe_iterate advancing_scanToken safe_scanToken _) fun _ => safe_pure _

/-! ## Components -/

theorem safe_isTypeName : Safe tokens start isTypeName := by
  refine safe_bind safe_peek fun token => ?_
  split
  · exact safe_bind (safe_findType? _) fun _ => safe_pure _
  · exact safe_pure _

theorem safe_baseType (base : Option Ty) : Safe tokens start (baseType base) := by
  cases base with
  | some ty => exact safe_pure ty
  | none =>
    refine safe_bind safe_peek fun token => ?_
    split
    · refine safe_bind (safe_findType? _) fun found => ?_
      split
      · exact safe_bind safe_advance fun _ => safe_pure _
      · exact safe_fail rfl
    · exact safe_fail rfl

theorem safe_pointer (ty : Ty) : Safe tokens start (pointer ty) := by
  refine safe_bind safe_peek fun token => safe_bind (safe_accept _) fun found => ?_
  split <;> exact safe_pure _

/-- A suffix is read where its bracket stands, and no literal is too large for a length. -/
theorem safeAt_arraySuffix (sound : state.Sound tokens start)
    (opening : kindAt tokens state.cursor = some (.symbol .openBracket)) (element : Ty) :
    SafeAt tokens start state (arraySuffix element) := by
  refine safeAt_bind (safe_peek state sound) fun _ _ looked _ => ?_
  obtain ⟨_, rfl⟩ := runs_peek.mp looked
  refine safeAt_expect_bind opening sound (safe_peek_bind fun counted behind here sound => ?_)
  split
  · next length literal =>
    have fits : length < UInt64.size :=
      Nat.lt_of_le_of_lt (sound.lexed.literal_le (by rw [kindAt_of_getElem? here, literal]))
        (by decide : Literal.maxLiteral < UInt64.size)
    rw [if_pos fits]
    exact safe_bind safe_advance (fun _ => safe_bind (safe_expect _ (by decide)) fun _ =>
      safe_pure _) _ sound
  · exact safe_fail rfl _ sound

theorem safe_parameter (inner : ∀ base, Safe tokens start (declaratorAround base)) :
    Safe tokens start (parameter declaratorAround) :=
  safe_bind safe_peek fun _ => safe_bind (inner none) fun _ => safe_pure _

theorem safe_nextParameter (inner : ∀ base, Safe tokens start (declaratorAround base))
    (read : Array (Parameter Ty)) : Safe tokens start (nextParameter declaratorAround read) := by
  refine safe_bind (safe_accept _) fun found => ?_
  split
  · exact safe_bind (safe_parameter inner) fun _ => safe_pure _
  · exact safe_pure _

theorem safe_parameterList (inner : ∀ base, Safe tokens start (declaratorAround base)) :
    Safe tokens start (parameterList declaratorAround) := by
  refine safe_bind (safe_bind (safe_check _) fun closed => ?_) fun _ =>
    safe_bind (safe_expect _ (by decide)) fun _ => safe_pure _
  split
  · exact safe_pure _
  · exact safe_bind (safe_parameter inner) fun _ =>
      safe_iterate advancing_nextParameter (safe_nextParameter inner) _

theorem isDefensive_withName {built : Declarator} {declared : DeclaredName} {error : CompileError}
    (refused : built.withName declared = .error error) : error.fault.isDefensive = false := by
  unfold Declarator.withName at refused
  split at refused
  · cases refused
    rfl
  · cases refused

/-- A group or parameter list uses declarators only behind its parenthesis. -/
theorem safeAt_parenthesized (inner : ∀ base, Safe tokens (start + 1) (declaratorAround base))
    (built : Declarator) {token : Token} (here : tokens[state.cursor]? = some token)
    (opening : token.kind = .symbol .openParen) (sound : state.Sound tokens start) :
    SafeAt tokens start state (parenthesized declaratorAround built) := by
  refine safeAt_advance_bind here (by simp [opening]) sound ?_
  refine safe_bind (safe_check _) fun closed => safe_bind safe_isTypeName fun typed => ?_
  split
  · exact safe_bind (safe_parameterList inner) fun _ => safe_pure _
  · refine safe_bind (inner _) fun group => safe_bind (safe_expect _ (by decide)) fun _ => ?_
    split
    · exact safe_ofExcept fun _ => isDefensive_withName
    · exact safe_pure _

/-- A component is read where one may begin. -/
theorem safe_component (inner : ∀ base, Safe tokens (start + 1) (declaratorAround base))
    (built : Declarator) {index : Nat} (low : start ≤ index) {kind : Kind}
    (here : kindAt tokens index = some kind) (opens : kind.opensComponent = true) :
    Safe tokens start (component declaratorAround built index) := by
  intro state sound
  obtain ⟨token, there, rfl, _⟩ := kindAt_eq_some here
  have sought := sound.seek low (lt_size_of_kindAt here)
  refine safeAt_seek_bind (safeAt_bind (safe_peek _ sought) fun found _ looked _ => ?_)
  obtain ⟨again, rfl⟩ := runs_peek.mp looked
  obtain rfl : token = found := Option.some.inj (there.symm.trans again)
  rcases Kind.eq_of_opensComponent opens with ⟨spelling, named⟩ | bracket | opening
  · simp only [named]
    exact safe_ofExcept (fun _ => isDefensive_withName) _ sought
  · simp only [bracket]
    rw [bracket] at here
    exact safeAt_bind (safeAt_arraySuffix sought here _) fun _ _ _ sound => safeAt_pure sound _
  · simp only [opening]
    exact safeAt_parenthesized inner built there opening sought

/-! ## Declarators -/

theorem safe_declaratorStep (inner : ∀ base, Safe tokens (start + 1) (declaratorAround base))
    (base : Option Ty) : Safe tokens start (declaratorStep declaratorAround base) := by
  refine safe_bind (safe_baseType base) fun ty =>
    safe_bind (safe_iterate advancing_pointer safe_pointer ty) fun ty state sound => ?_
  refine safeAt_bind (safe_scanComponents state sound) fun components scanned scanning sound' => ?_
  have between := noted_of_runs scanning
  refine safeAt_bind (safeAt_pure sound' scanned.cursor |>.of_eq id rfl) fun stop _ counted _ => ?_
  obtain ⟨rfl, rfl⟩ := runs_cursor.mp counted
  refine safe_bind (safe_foldlM components (fun built index member => ?_) _) (fun built => ?_) _
    sound'
  · obtain ⟨low, _, kind, here, opens⟩ := between index member
    exact safe_component inner built (Nat.le_trans sound.low low) here opens
  · exact fun last soundLast =>
      (safeAt_pure (soundLast.seek sound'.low sound'.high) built).of_eq id rfl

theorem safe_declaratorAround (base : Option Ty) : Safe tokens start (declaratorAround base) := by
  refine safe_of_later declaratorAround (fun start later base state sound => ?_) start base
  exact (safe_declaratorStep later base state sound).of_eq id
    (declaratorAround_eq base (Nat.le_of_lt sound.high))

theorem safe_declarator : Safe tokens start declarator :=
  safe_declaratorAround none

end Parser

end MiniC
