/-
# MiniC.Proofs.Expression.Completeness — expressions are read with their trees

What the grammar makes of a run of tokens is what reading them yields, if they stand in front of a
token where an expression ends. With the converse, expressions are read exactly as the grammar has
them: `runs_expressionAbove_iff`.

A phrase is readable where the parser, placed at its beginning, comes to its tree and to its end.
For what the loops build up, calls and operators, this means that the loop goes on with the tree
from there. Climbing above any lower precedence comes to the same, since the operators of the phrase
are tighter than that as well.
-/
import MiniC.Proofs.Consumption
import MiniC.Proofs.Expression.Soundness

namespace MiniC

set_option autoImplicit false

/-! ## Where expressions end -/

/-- No operator binds tighter than the operand of a unary operator or of a cast. -/
theorem Kind.endsExpression_of_unaryPrecedence_le {kind : Kind} {minimum : Nat}
    (other : kind ≠ .symbol .openParen) (tight : unaryPrecedence ≤ minimum) :
    kind.endsExpression minimum := by
  simp only [endsExpression, Bool.and_eq_true, bne_iff_ne, Option.all_eq_true, decide_eq_true_eq]
  exact ⟨other, fun operator _ =>
    Nat.le_trans (Nat.le_of_lt operator.precedence_lt_unaryPrecedence) tight⟩

/-- The left side of an operator ends in front of it. -/
theorem BinaryOperator.endsExpression (operator : BinaryOperator) :
    (Kind.symbol operator.symbol).endsExpression operator.precedence := by
  cases operator <;> rfl

namespace EndsExpressionAt

variable {tokens : Array Token} {minimum other index : Nat}

theorem mono (ends : EndsExpressionAt tokens minimum index) (higher : minimum ≤ other) :
    EndsExpressionAt tokens other index := by
  obtain ⟨kind, here, ends⟩ := ends
  simp only [Kind.endsExpression, Bool.and_eq_true, bne_iff_ne, Option.all_eq_true,
    decide_eq_true_eq] at ends
  refine ⟨kind, here, ?_⟩
  simp only [Kind.endsExpression, Bool.and_eq_true, bne_iff_ne, Option.all_eq_true,
    decide_eq_true_eq]
  exact ⟨ends.1, fun operator found => Nat.le_trans (ends.2 operator found) higher⟩

theorem uncalled (ends : EndsExpressionAt tokens minimum index) :
    ∃ kind, kindAt tokens index = some kind ∧ kind ≠ .symbol .openParen := by
  obtain ⟨kind, here, ends⟩ := ends
  refine ⟨kind, here, ?_⟩
  rintro rfl
  cases ends

/-- The next argument or the end of the arguments stands where an argument ends. -/
theorem of_further {scopes : Scopes} {parameters : List (Parameter Ty)} {values : List Expression}
    {start stop : Nat} (others : Derives tokens scopes (.further parameters values) start stop)
    (closing : kindAt tokens stop = some (.symbol .closeParen)) :
    EndsExpressionAt tokens 0 start := by
  cases others with
  | noFurther => exact ⟨_, closing, rfl⟩
  | nextArgument comma => exact ⟨_, comma, rfl⟩

end EndsExpressionAt

namespace Parser

variable {tokens : Array Token} {state after : State} {suggested : Option Ty} {value : Expression}
  {minimum start place stop : Nat}

/-! ## Readable phrases -/

/-- Placed at the beginning of the phrase, the parser comes to its tree and its end. -/
def Readable (tokens : Array Token) (state : State) : Reading → (start stop : Nat) → Prop
  | .above minimum suggested value, start, stop => ∀ least ≤ minimum,
    EndsExpressionAt tokens (minimum + 1) stop →
    climb expressionAbove least suggested tokens { state with cursor := start } =
      iterate (extended expressionAbove least) value tokens { state with cursor := stop }
  | .single suggested value, start, stop =>
    (∃ kind, kindAt tokens stop = some kind ∧ kind ≠ .symbol .openParen) →
    Runs tokens (unary expressionAbove suggested) { state with cursor := start } value
      { state with cursor := stop }
  | .called suggested value, start, stop =>
    (∃ kind, kindAt tokens start = some kind ∧ kind.unaryOperator? = none) ∧
      called expressionAbove suggested tokens { state with cursor := start } =
        iterate (call expressionAbove) value tokens { state with cursor := stop }
  | .arguments parameters values, start, stop =>
    kindAt tokens stop = some (.symbol .closeParen) → ∀ expected,
    Runs tokens (argumentsFrom expressionAbove expected 0 parameters) { state with cursor := start }
      values { state with cursor := stop }
  | .further parameters values, start, stop =>
    kindAt tokens stop = some (.symbol .closeParen) → ∀ expected index, 0 < index →
    Runs tokens (argumentsFrom expressionAbove expected index parameters)
      { state with cursor := start } values { state with cursor := stop }

/-- Where no operator follows that it could take, climbing ends. -/
theorem Readable.runs
    (readable : Readable tokens state (.above minimum suggested value) start stop)
    (within : start ≤ tokens.size) (ends : EndsExpressionAt tokens minimum stop) :
    Runs tokens (expressionAbove minimum suggested) { state with cursor := start } value
      { state with cursor := stop } := by
  have loose : LooseAt tokens minimum { state with cursor := stop } :=
    (endsExpressionAt_iff.mp ends).1
  rw [Runs, expressionAbove_eq _ _ within,
    readable minimum (Nat.le_refl _) (ends.mono (Nat.le_succ _)), iterate_extended_of_loose loose]

/-! ### Operands -/

theorem called_eq_of_primary {between : State}
    (run : Runs tokens (primary expressionAbove suggested) state value between) :
    called expressionAbove suggested tokens state =
      iterate (call expressionAbove) value tokens between := by
  rw [called, bind_apply, show primary expressionAbove suggested tokens state = _ from run]

/-- Where no parenthesis follows, no call is made. -/
theorem iterate_call_of_uncalled
    (uncalled : ∃ kind, kindAt tokens state.cursor = some kind ∧ kind ≠ .symbol .openParen) :
    iterate (call expressionAbove) value tokens state = .ok value state := by
  obtain ⟨kind, here, _⟩ := id uncalled
  have turn : call expressionAbove value tokens state = .ok none state :=
    runs_call.mpr (.inr ⟨uncalled, rfl, rfl⟩)
  rw [iterate_eq advancing_call value (Nat.le_of_lt (lt_size_of_kindAt here)), turn]

theorem readable_literal {ty : Ty} {number : Nat}
    (here : kindAt tokens start = some (.integer number))
    (typed : suggested.filter Ty.isInteger = some ty) :
    Readable tokens state (.called suggested (.integer ty number (placeAt tokens start))) start
      (start + 1) := by
  refine ⟨⟨_, here, rfl⟩, called_eq_of_primary (runs_primary.mpr (.inl ⟨number, here, ?_⟩))⟩
  refine (runs_literal ?_).mpr ⟨ty, typed, rfl, rfl⟩
  exact here

theorem readable_name {declaration : Declaration} {spelling : String}
    (here : kindAt tokens start = some (.name spelling))
    (known : state.scopes.findValue? spelling = some declaration) :
    Readable tokens state (.called suggested (.name declaration spelling (placeAt tokens start)))
      start (start + 1) := by
  refine ⟨⟨_, here, rfl⟩,
    called_eq_of_primary (runs_primary.mpr (.inr (.inl ⟨spelling, here, ?_⟩)))⟩
  refine (runs_reference ?_).mpr ⟨declaration, known, rfl, rfl⟩
  exact here

theorem readable_group (opening : kindAt tokens start = some (.symbol .openParen))
    (untyped : ¬∃ ty, NamesType tokens state.scopes.findType? (start + 1) ty)
    (inner : Readable tokens state (.above 0 suggested value) (start + 1) stop)
    (later : start + 1 ≤ stop) (closing : kindAt tokens stop = some (.symbol .closeParen)) :
    Readable tokens state (.called suggested value) start (stop + 1) := by
  have within := lt_size_of_kindAt closing
  have read := inner.runs (Nat.le_of_lt (Nat.lt_of_le_of_lt later within)) ⟨_, closing, rfl⟩
  refine ⟨⟨_, opening, rfl⟩, called_eq_of_primary (runs_primary.mpr (.inr (.inr ⟨opening, ?_⟩)))⟩
  refine (runs_grouped ?_).mpr (.inr ⟨isSome_kindAt ?_, untyped, _, read, closing, rfl⟩)
  · exact opening
  · exact Nat.lt_of_le_of_lt later within

theorem readable_cast {base ty : Ty} (opening : kindAt tokens start = some (.symbol .openParen))
    (typed : NamesType tokens state.scopes.findType? (start + 1) base)
    (declares : Spans tokens state.scopes.findType? .loose (.whole base ⟨ty, none⟩) (start + 2)
      place)
    (closing : kindAt tokens place = some (.symbol .closeParen))
    (operand : Readable tokens state (.above castPrecedence (some ty) value) (place + 1) stop)
    (fits : ty.sameShape value.ty || ty.size == value.ty.size) :
    Readable tokens state (.single suggested (.cast ty value (placeAt tokens start))) start
      stop := by
  intro uncalled
  obtain ⟨kind, here, other⟩ := id uncalled
  have declaring : Runs tokens declarator { state with cursor := start + 1 } ⟨ty, none⟩
      { state with cursor := place } :=
    runs_declarator_iff.mpr ⟨⟨base, typed, declares⟩, ⟨_, closing, rfl⟩, rfl⟩
  have read := operand.runs (lt_size_of_kindAt closing)
    ⟨kind, here, kind.endsExpression_of_unaryPrecedence_le other unaryPrecedence_le_castPrecedence⟩
  have primary : Runs tokens (primary expressionAbove suggested) { state with cursor := start }
      (.cast ty value (placeAt tokens start)) { state with cursor := stop } := by
    refine runs_primary.mpr (.inr (.inr ⟨opening, (runs_grouped ?_).mpr (.inl ?_)⟩))
    · exact opening
    · exact ⟨⟨base, typed⟩, runs_cast.mpr ⟨ty, _, declaring, closing, value, read, fits, rfl⟩⟩
  refine runs_unary.mpr (.inr ⟨⟨_, opening, rfl⟩, ?_⟩)
  rw [Runs, called_eq_of_primary primary, iterate_call_of_uncalled uncalled]

/-! ### Calls -/

theorem readable_call {callee : Expression} {result : Ty} {parameters : List (Parameter Ty)}
    {values : List Expression}
    (before : Readable tokens state (.called suggested callee) start place)
    (opening : kindAt tokens place = some (.symbol .openParen))
    (callable : callee.ty.signature? = some (result, parameters))
    (inside : Readable tokens state (.arguments parameters values) (place + 1) stop)
    (closing : kindAt tokens stop = some (.symbol .closeParen)) :
    Readable tokens state (.called suggested (.call result callee values callee.position)) start
      (stop + 1) := by
  obtain ⟨first, before⟩ := before
  refine ⟨first, ?_⟩
  have read : Runs tokens (arguments expressionAbove parameters)
      { state with cursor := place + 1 } values { state with cursor := stop + 1 } :=
    runs_arguments.mpr ⟨_, inside closing _, closing, rfl⟩
  have turn : call expressionAbove callee tokens { state with cursor := place } =
      .ok (some (.call result callee values callee.position)) { state with cursor := stop + 1 } :=
    runs_call.mpr (.inl ⟨opening, result, parameters, values, callable, read, rfl⟩)
  rw [before, iterate_eq advancing_call callee (Nat.le_of_lt (lt_size_of_kindAt opening)), turn]

/-- An argument is read behind what separates it from the one before. -/
theorem runs_argumentsFrom_of_readable {parameter : Parameter Ty}
    {parameters : List (Parameter Ty)} {values : List Expression} {expected index first : Nat}
    (separated : Runs tokens (separator index) { state with cursor := start } ()
      { state with cursor := first })
    (other : ∃ kind, kindAt tokens start = some kind ∧ kind ≠ .symbol .closeParen)
    (readable : Readable tokens state (.above 0 (some parameter.ty) value) first place)
    (within : first ≤ tokens.size) (ends : EndsExpressionAt tokens 0 place)
    (fits : value.ty.compatible parameter.ty)
    (others : Runs tokens (argumentsFrom expressionAbove expected (index + 1) parameters)
      { state with cursor := place } values { state with cursor := stop }) :
    Runs tokens (argumentsFrom expressionAbove expected index (parameter :: parameters))
      { state with cursor := start } (value :: values) { state with cursor := stop } :=
  runs_argumentsFrom_cons.mpr
    ⟨other, _, separated, value, _, readable.runs within ends, fits, values, others, rfl⟩

/-! ### Operators -/

theorem readable_unary {operator : UnaryOperator} {ty : Ty}
    (mark : kindAt tokens start = some (.symbol operator.symbol))
    (operand : Readable tokens state
      (.above unaryPrecedence (if operator.isSign then suggested else none) value) (start + 1) stop)
    (typed : operator.result? (placeAt tokens start) value.ty = some ty) :
    Readable tokens state (.single suggested (.unary ty operator value (placeAt tokens start)))
      start stop := by
  rintro ⟨kind, here, other⟩
  have read := operand.runs (lt_size_of_kindAt mark)
    ⟨kind, here, kind.endsExpression_of_unaryPrecedence_le other (Nat.le_refl _)⟩
  refine runs_unary.mpr (.inl ⟨operator, mark, (runs_signed ?_).mpr ⟨value, ty, read, typed, rfl⟩⟩)
  exact mark

theorem readable_operand (single : Readable tokens state (.single suggested value) start stop) :
    Readable tokens state (.above minimum suggested value) start stop := by
  intro least _ ends
  have read : unary expressionAbove suggested tokens { state with cursor := start } = _ :=
    single ends.uncalled
  rw [climb, bind_apply, read]

/-- An operator is the next turn of a loop above any lower precedence. -/
theorem readable_binary {operator : BinaryOperator} {ty : Ty} {left right : Expression}
    (tight : minimum < operator.precedence)
    (before : Readable tokens state (.above (operator.precedence - 1) suggested left) start place)
    (mark : kindAt tokens place = some (.symbol operator.symbol))
    (behind : Readable tokens state (.above operator.precedence (some left.ty) right) (place + 1)
      stop)
    (typed : operator.result? left.ty right.ty = some ty) :
    Readable tokens state
      (.above minimum suggested (.binary ty operator left right left.position)) start stop := by
  intro least lower ends
  have tighter : least < operator.precedence := Nat.lt_of_le_of_lt lower tight
  have read := behind.runs (lt_size_of_kindAt mark) (ends.mono tight)
  have turn : extended expressionAbove least left tokens { state with cursor := place } =
      .ok (some (.binary ty operator left right left.position)) { state with cursor := stop } :=
    runs_extended_some.mpr ⟨operator, mark, tighter, right, ty, read, typed, rfl⟩
  have leftEnds : EndsExpressionAt tokens (operator.precedence - 1 + 1) place := by
    rw [Nat.sub_add_cancel operator.precedence_pos]
    exact ⟨_, mark, operator.endsExpression⟩
  rw [before least (Nat.le_sub_one_of_lt tighter) leftEnds,
    iterate_eq (advancing_extended least) left (Nat.le_of_lt (lt_size_of_kindAt mark)), turn]

/-! ## Reading is the grammar -/

theorem readable_of_derives {reading : Reading}
    (derives : Derives tokens state.scopes reading start stop) :
    Readable tokens state reading start stop := by
  induction derives with
  | literal here typed => exact readable_literal here typed
  | name here known => exact readable_name here known
  | group opening untyped inner closing ih =>
    exact readable_group opening untyped ih inner.le closing
  | call _ opening callable _ closing before inside =>
    exact readable_call before opening callable inside closing
  | noArgument => exact fun _ _ => rfl
  | firstArgument first fits others ih further =>
    intro closing expected
    obtain ⟨kind, here, begins⟩ := first.begins
    have other : kind ≠ .symbol .closeParen := by
      rintro rfl
      cases begins
    exact runs_argumentsFrom_of_readable rfl ⟨kind, here, other⟩ ih
      (Nat.le_of_lt (lt_size_of_kindAt here)) (.of_further others closing) fits
      (further closing expected 1 Nat.one_pos)
  | noFurther => exact fun _ _ _ _ => rfl
  | @nextArgument _ _ _ _ start _ _ comma _ fits others ih further =>
    intro closing expected index later
    have separated : Runs tokens (separator index) { state with cursor := start } ()
        { state with cursor := start + 1 } :=
      runs_separator.mpr (.inr ⟨later, comma, rfl⟩)
    exact runs_argumentsFrom_of_readable separated ⟨_, comma, nofun⟩ ih (lt_size_of_kindAt comma)
      (.of_further others closing) fits (further closing expected (index + 1) (Nat.succ_pos _))
  | called _ ih =>
    obtain ⟨first, calling⟩ := ih
    intro uncalled
    refine runs_unary.mpr (.inr ⟨first, ?_⟩)
    rw [Runs, calling, iterate_call_of_uncalled uncalled]
  | cast opening typed declares closing _ fits ih =>
    exact readable_cast opening typed declares closing ih fits
  | unary mark _ typed ih => exact readable_unary mark ih typed
  | operand _ ih => exact readable_operand ih
  | binary tight _ mark _ typed before behind =>
    exact readable_binary tight before mark behind typed

/-- An expression is read exactly where the tokens up to one where it ends are an expression of the
grammar. -/
theorem runs_expressionAbove_iff :
    Runs tokens (expressionAbove minimum suggested) state value after ↔
      Derives tokens state.scopes (.above minimum suggested value) state.cursor after.cursor ∧
        EndsExpressionAt tokens minimum after.cursor ∧
        after = { state with cursor := after.cursor } := by
  constructor
  · intro run
    obtain ⟨derives, ends⟩ := derived_of_runs run
    exact ⟨derives, ends, (onlyMoves_expressionAbove _ _).of_runs run⟩
  · rintro ⟨derives, ends, moved⟩
    obtain ⟨kind, here, _⟩ := derives.begins
    rw [moved]
    exact (readable_of_derives derives).runs (Nat.le_of_lt (lt_size_of_kindAt here)) ends

end Parser

end MiniC
