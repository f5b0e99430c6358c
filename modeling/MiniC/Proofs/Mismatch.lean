/-
# MiniC.Proofs.Mismatch — mismatched types have different texts

Where the `distinct` definitions of a source have different names, none of them that of a built-in
type, the types that come up while it is read are told by their texts: types of one text are of one
outline, so they match. An error that says that two types do not match therefore shows two texts.

* `DistinctlyNamed` — different definitions have different names, which are not built in.
* `Met` — the types that come up while tokens are read, also where reading fails.
* `mismatch_texts` — what the texts of types tell.
-/
import MiniC.Proofs.Agreement.Statement
import MiniC.Proofs.Built.Statement
import MiniC.Proofs.Places

namespace MiniC

set_option autoImplicit false

/-! ## Names of definitions -/

/-- The name that a token spells is a run of name characters. -/
theorem isName_of_kindAt {source : String} {tokens : List Token}
    (found : tokensOf source = .ok tokens) {index : Nat} {name : String}
    (here : kindAt tokens.toArray index = some (.name name)) : IsName name := by
  obtain ⟨token, member, _, kind⟩ := exists_mem_of_kindAt here
  obtain ⟨segments, _⟩ := tokensOf_eq_ok_iff.mp found
  rcases List.mem_append.mp member with member | last
  · obtain ⟨word, spells, _⟩ := segments.spells_bytes rfl token member
    rw [kind] at spells
    cases spells with
    | name first run _ =>
      constructor
      · simp
      · rw [String.toList_ofList]
        exact List.forall_mem_cons.mpr ⟨isNameChar_of_isNameStart first, run⟩
  · rw [List.mem_singleton.mp last] at kind
    cases kind

namespace Parser

variable {tokens : Array Token} {state : State}

/-- Different definitions have different names, which are not those of built-in types. -/
structure DistinctlyNamed (tokens : Array Token) : Prop where
  once : ∀ {state other : State} {name : String} {one another : Ty},
    Makes tokens state name one → Makes tokens other name another → state.cursor = other.cursor
  free : ∀ {state : State} {name : String} {one builtin : Ty},
    Makes tokens state name one → (name, builtin) ∉ Ty.builtins

/-- A definition makes one type. -/
theorem Makes.unique {name : String} {one other : Ty} (makes : Makes tokens state name one)
    (again : Makes tokens state name other) : one = other := by
  obtain ⟨base, declared, _, naming, _, _, rfl⟩ := makes.header
  obtain ⟨_, _, _, namingAgain, _, _, rfl⟩ := again.header
  obtain ⟨same, _⟩ := naming.unique namingAgain
  cases same
  rfl

theorem DistinctlyNamed.state_eq (distinctly : DistinctlyNamed tokens) {other : State}
    {name : String} {one another : Ty} (makes : Makes tokens state name one)
    (makesOther : Makes tokens other name another) : state = other :=
  makes.reached.eq_of_cursor_eq makesOther.reached (distinctly.once makes makesOther)

/-- So each name is that of one instance. -/
theorem DistinctlyNamed.wellNamed {source : String} {tokens : List Token}
    (found : tokensOf source = .ok tokens) (distinctly : DistinctlyNamed tokens.toArray) :
    Ty.WellNamed (Made tokens.toArray) where
  once := by
    rintro name one other ⟨state, makes⟩ ⟨otherState, makesOther⟩
    obtain rfl := distinctly.state_eq makes makesOther
    exact makes.unique makesOther
  isName := by
    rintro name ty ⟨state, makes⟩
    obtain ⟨_, _, _, naming, _, rfl, _⟩ := makes.header
    obtain ⟨_, _, here⟩ := spelled_of_runs_namedDeclarator (Nat.le_refl _) naming
    exact isName_of_kindAt found here
  free := by
    rintro name one other ⟨state, makes⟩
    exact distinctly.free makes

/-- The label of a copy is the name that its definition gives it. -/
theorem Makes.label_eq {name : String} {ty : Ty} (makes : Makes tokens state name ty) :
    ty.label = some name := by
  obtain ⟨_, _, _, _, _, _, rfl⟩ := makes.header
  exact Ty.label_distinctAt _ _ _

/-- The one definition of a file that begins with it has a name of its own. -/
theorem distinctlyNamed_of_first {tokens : List Token}
    (only : ∀ token ∈ tokens.tail, token.kind ≠ .keyword .distinct)
    {declared : Ty × DeclaredName} {after : State}
    (header : Runs tokens.toArray namedDeclarator { State.initial with cursor := 1 } declared after)
    (free : ∀ entry ∈ Ty.builtins, entry.1 ≠ declared.2.name) :
    DistinctlyNamed tokens.toArray := by
  have first : ∀ {state : State} {name : String} {ty : Ty}, Makes tokens.toArray state name ty →
      state = State.initial := by
    intro state name ty makes
    refine makes.reached.eq_of_cursor_eq .start ?_
    obtain ⟨token, _, here, kind⟩ := exists_mem_of_kindAt makes.keyword
    cases cursor : state.cursor with
    | zero => rfl
    | succ index =>
      rw [cursor, ← List.getElem?_tail] at here
      exact absurd kind (only token (List.mem_of_getElem? here))
  refine ⟨fun makes makesOther => by rw [first makes, first makesOther], fun makes known => ?_⟩
  obtain rfl := first makes
  obtain ⟨_, _, _, naming, _, rfl, _⟩ := makes.header
  obtain ⟨rfl, _⟩ := header.unique naming
  exact free _ known rfl

/-! ## Types that are met -/

/-- The types that come up while the tokens are read: those that are known where a statement is to
be read, those that definitions, declarators and expressions make of such types on the way, and
those of statements and errors. -/
inductive Met (tokens : Array Token) : Ty → Prop
  | type {state : State} {ty : Ty} (reached : Reached tokens state)
      (knows : state.scopes.types.Knows ty) : Met tokens ty
  | value {state : State} {declared : Declaration} (reached : Reached tokens state)
      (knows : state.scopes.values.Knows declared) : Met tokens declared.ty
  | result {state : State} {ty : Ty} (reached : Reached tokens state)
      (inside : state.returnType = some ty) : Met tokens ty
  | copy {state : State} {name : String} {ty : Ty} (makes : Makes tokens state name ty) :
      Met tokens ty
  | pointer {state after : State} {cursor : Nat} {ty wrapped : Ty} (reached : Reached tokens state)
      (met : Met tokens ty)
      (run : Runs tokens (pointer ty) { state with cursor } (some wrapped) after) :
      Met tokens wrapped
  | component {state after : State} {cursor start : Nat} {built declared : Declarator}
      (reached : Reached tokens state) (met : Met tokens built.ty)
      (run : Runs tokens (component declaratorAround built start) { state with cursor } declared
        after) : Met tokens declared.ty
  | declarator {state after : State} {cursor : Nat} {base : Option Ty} {declared : Declarator}
      (reached : Reached tokens state) (around : ∀ ty ∈ base, Met tokens ty)
      (run : Runs tokens (declaratorAround base) { state with cursor } declared after) :
      Met tokens declared.ty
  | expression {state after : State} {cursor minimum : Nat} {suggested : Option Ty}
      {value : Expression} {ty : Ty} (reached : Reached tokens state)
      (hinted : ∀ ty ∈ suggested, Met tokens ty)
      (run : Runs tokens (expressionAbove minimum suggested) { state with cursor } value after)
      (member : ty ∈ value.types) : Met tokens ty
  | read {state after : State} {statement : Statement} {ty : Ty} (reached : Reached tokens state)
      (run : Runs tokens Parser.statement state statement after) (member : ty ∈ statement.types) :
      Met tokens ty
  | told {state after : State} {error : CompileError} {ty : Ty} (reached : Reached tokens state)
      (failed : statement tokens state = .error error after) (member : ty ∈ error.fault.types) :
      Met tokens ty

theorem Makes.built {name : String} {ty : Ty} (makes : Makes tokens state name ty) :
    ty.Built (Made tokens) := by
  obtain ⟨base, declared, _, naming, _, rfl, rfl⟩ := makes.header
  have passed := makes.reached.built.seek (state.cursor + 1)
  have fits := ((ensures_namedDeclarator tokens _ passed).done _ _ naming).1
  exact .distinct fits ⟨state, makes⟩

/-- All types that come up are built. -/
theorem Met.built {ty : Ty} (met : Met tokens ty) : ty.Built (Made tokens) := by
  induction met with
  | type reached knows => exact reached.built.types _ knows
  | value reached knows => exact reached.built.values _ knows
  | result reached inside => exact reached.built.result _ inside
  | copy makes => exact makes.built
  | pointer reached _ run ih =>
    exact ((ensures_pointer ih tokens _ (reached.built.seek _)).done _ _ run).1 _ rfl
  | component reached _ run ih =>
    have ensures := ensures_component (fun _ fits => ensures_declaratorAround fits) ih
    exact ((ensures _ tokens _ (reached.built.seek _)).done _ _ run).1
  | declarator reached _ run ih =>
    exact ((ensures_declaratorAround ih tokens _ (reached.built.seek _)).done _ _ run).1
  | expression reached _ run member ih =>
    exact ((ensures_expressionAbove _ ih tokens _ (reached.built.seek _)).done _ _ run).1 _ member
  | read reached run member =>
    exact ((ensuresAt_statement reached reached.built).done _ _ run).1 _ member
  | told reached failed member =>
    exact ((ensuresAt_statement reached reached.built).failed _ _ failed).built _ member

/-! ## Files -/

/-- Reading a file comes from statement to statement. -/
theorem ensuresAt_fileStatements :
    EnsuresAt (Made tokens) tokens State.initial (fun _ after => Reached tokens after)
      fileStatements := by
  refine ensuresAt_bind (ensuresAt_iterate (I := fun _ between => Reached tokens between) ?_ .start)
    fun _ _ _ reached => ensuresAt_pure reached
  intro read between reached
  refine ensuresAt_bind (tame_peek tokens between reached.built) fun token _ look _ => ?_
  obtain ⟨_, rfl⟩ := runs_peek.mp look
  split
  · exact ensuresAt_pure reached
  · exact ensuresAt_bind (ensuresAt_statement reached reached.built) fun value after run _ =>
      ensuresAt_pure (reached.next run)

end Parser

/-- The error of a source tells no types, or those that come up while its tokens are read. -/
theorem told_of_parseSource {path source : String} {error : CompileError}
    (refused : parseSource path source = .error error) :
    error.fault.types = [] ∨ ∃ tokens, tokensOf source = .ok tokens ∧
      error.fault.Told (Parser.Made tokens.toArray) := by
  rcases lexed : tokensOf source with found | tokens
  · rw [parseSource_of_tokensOf_error lexed] at refused
    obtain rfl := Except.error.inj refused
    cases tokensOf_eq_error_iff.mp lexed
    exact .inl rfl
  · rw [parseSource_of_tokensOf lexed] at refused
    split at refused
    · cases refused
    · next error after failed =>
      cases refused
      exact .inr ⟨tokens, rfl, Parser.ensuresAt_fileStatements.failed _ _ failed⟩

/-- Where different definitions have different names, which are not built in, an error that says
that two types do not match shows two texts. For types of one text that come up are of one outline,
so that they match, and what has no parts in them is a built-in instance or that of one
definition. -/
theorem mismatch_texts {source : String}
    (distinctly : ∀ tokens, tokensOf source = .ok tokens →
      Parser.DistinctlyNamed tokens.toArray) :
    (∀ path error one other, parseSource path source = .error error →
      error.fault.mismatch? = some (one, other) →
      one.describe ≠ other.describe ∧ ∃ before between behind,
        error.message = before ++ one.describe ++ between ++ other.describe ++ behind) ∧
    ∀ tokens, tokensOf source = .ok tokens →
      (∀ one other, Parser.Met tokens.toArray one → Parser.Met tokens.toArray other →
        one.describe = other.describe →
        one.outline = other.outline ∧ one.compatible other = true) ∧
      ∀ ty, Parser.Met tokens.toArray ty → ∀ part ∈ ty.scalars,
        (∃ name, (name, part) ∈ Ty.builtins) ∨
        ∃ state name, Parser.Makes tokens.toArray state name part ∧
          ∀ other another, Parser.Makes tokens.toArray other another part → other = state := by
  refine ⟨fun path error one other refused mismatch => ?_, fun tokens found => ⟨?_, ?_⟩⟩
  · refine ⟨?_, Fault.message_of_mismatch? mismatch⟩
    rcases told_of_parseSource refused with untyped | ⟨tokens, found, told⟩
    · rw [Fault.types_of_mismatch? mismatch] at untyped
      cases untyped
    · exact told.describe_ne ((distinctly tokens found).wellNamed found) mismatch
  · intro one other met metOther same
    have outlines := met.built.outline_eq ((distinctly tokens found).wellNamed found)
      metOther.built same
    exact ⟨outlines, Ty.compatible_of_outline_eq outlines⟩
  · intro ty met part member
    rcases met.built.scalars part member with builtin | ⟨name, state, makes⟩
    · exact .inl builtin
    · refine .inr ⟨state, name, makes, fun other another makesOther => ?_⟩
      obtain rfl : another = name :=
        Option.some.inj (makesOther.label_eq.symm.trans makes.label_eq)
      exact (distinctly tokens found).state_eq makesOther makes

/-- A length may not be initialized by a plain integer, and the message tells them apart. -/
theorem mismatch_texts_meters :
    ∃ tokens error one other,
      tokensOf "distinct int32 Meters; int32 plain; Meters m = plain;" = .ok tokens ∧
      Parser.DistinctlyNamed tokens.toArray ∧
      parseSource "meters.lc" "distinct int32 Meters; int32 plain; Meters m = plain;" =
        .error error ∧
      error.fault.mismatch? = some (one, other) ∧ one.describe = "int32" ∧
      other.describe = "Meters" ∧ one.describe ≠ other.describe := by
  have lexed : ((tokensOf "distinct int32 Meters; int32 plain; Meters m = plain;").toOption.map
      fun tokens => (tokens.tail.all fun token => token.kind != .keyword .distinct,
        match Parser.namedDeclarator tokens.toArray { State.initial with cursor := 1 } with
        | .ok declared _ => declared.2.name
        | .error _ _ => "")) = some (true, "Meters") := by
    decide +kernel
  have told : (match parseSource "meters.lc"
        "distinct int32 Meters; int32 plain; Meters m = plain;" with
      | .error error => error.fault.mismatch?.map fun types =>
          (types.1.describe, types.2.describe)
      | .ok _ => none) = some ("int32", "Meters") := by
    decide +kernel
  obtain ⟨tokens, found, shape⟩ := exists_ok_of_map_eq_some lexed
  obtain ⟨only, naming⟩ := Prod.mk.inj shape
  have distinctly : Parser.DistinctlyNamed tokens.toArray := by
    split at naming
    · next declared after header =>
      refine Parser.distinctlyNamed_of_first (fun token member => ?_) header ?_
      · exact bne_iff_ne.mp (List.all_eq_true.mp only token member)
      · rw [naming]
        decide
    · exact absurd naming (by decide)
  split at told
  · next error refused =>
    obtain ⟨⟨one, other⟩, mismatch, texts⟩ := Option.map_eq_some_iff.mp told
    obtain ⟨text, otherText⟩ := Prod.mk.inj texts
    refine ⟨tokens, error, one, other, found, distinctly, refused, mismatch, text, otherText, ?_⟩
    refine ((mismatch_texts fun others again => ?_).1 _ error one other refused mismatch).1
    obtain rfl := Except.ok.inj (found.symm.trans again)
    exact distinctly
  · cases told

/-- Where a definition in a block takes a name again, the two texts may be the same. -/
example :
    (match parseSource "meters.lc"
        "distinct int32 M; M a = 1; \x7b distinct int32 M; M b = a; \x7d" with
      | .error error => error.fault.mismatch?.map fun types =>
          (types.1.describe, types.2.describe)
      | .ok _ => none) = some ("M", "M") := by
  decide +kernel

end MiniC
