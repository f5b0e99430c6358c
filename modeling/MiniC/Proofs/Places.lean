/-
# MiniC.Proofs.Places — every place told is that of a token

A reading of tokens follows the reading of the same tokens at other places. Moved so that exactly
the places of the tokens stay, the tokens are the same, and so is what comes of them: all places in
it stay, and hence are those of tokens. Nothing is said of how the parser hands places on, only that
it makes none up.

`accurate_of_parseSource`: the places that a tree holds and those of errors are accurate, and but
for faults of the lexer they are those of tokens.
-/
import MiniC.Proofs.Relocation.Statement
import MiniC.Proofs.Relocation.Transfer
import MiniC.Proofs.Safety.Statement
import MiniC.Source

namespace MiniC

set_option autoImplicit false

/-- Some token of the source begins at the place. -/
def TokenPlace (source : String) (place : Position) : Prop :=
  ∃ tokens, tokensOf source = .ok tokens ∧ place ∈ tokens.map Token.position

theorem TokenPlace.accurate {source : String} {place : Position} (told : TokenPlace source place) :
    Accurate source.toList place := by
  obtain ⟨tokens, found, member⟩ := told
  have lexed := accurate_of_tokensOf source place
  rw [found] at lexed
  exact lexed member

/-! ## Whole sources -/

/-- A source that has no tokens is refused with the fault of the lexer. -/
theorem parseSource_of_tokensOf_error {path source : String} {error : CompileError}
    (refused : tokensOf source = .error error) : parseSource path source = .error error := by
  simp only [parseSource, Session.start, refused, Except.map, bind, Except.bind]

/-- What comes of a source is what comes of its tokens. -/
theorem parseSource_of_tokensOf {path source : String} {tokens : List Token}
    (found : tokensOf source = .ok tokens) :
    parseSource path source =
      match Parser.fileStatements tokens.toArray State.initial with
      | .ok statements _ => .ok ⟨path, statements⟩
      | .error error _ => .error error := by
  simp only [parseSource, Session.start, found, Except.map, bind, Except.bind, Session.parseFile]
  cases Parser.fileStatements tokens.toArray State.initial <;> rfl

/-- The built-in types have no place. -/
theorem Alignment.state_initial {tokens tokens' : Array Token} (along : Alignment tokens tokens')
    (aligned : along.shift = 0) : along.state State.initial = State.initial := by
  simp only [state, aligned]
  rfl

theorem Fault.isPlaceless_of_ordinary {fault : Fault} (ordinary : fault.isDefensive = false) :
    fault.isPlaceless = false := by
  cases fault <;> first | rfl | cases ordinary

/-- No source leads outside its tokens or beyond the bound on recursion. -/
theorem isPlaceless_of_fileStatements {source : String} {tokens : List Token}
    (found : tokensOf source = .ok tokens) {error : CompileError} {after : State}
    (failed : Parser.fileStatements tokens.toArray State.initial = .error error after) :
    error.fault.isPlaceless = false := by
  have lexed := lexed_of_tokensOf found
  obtain ⟨_, _, ordinary⟩ := Parser.safe_fileStatements State.initial
    ⟨lexed, Nat.le_refl _, lexed.nonempty⟩
  exact Fault.isPlaceless_of_ordinary (ordinary (Scopes.paired_root _) error after failed)

/-! ## Nothing but the places of tokens -/

section

variable {source : String} {tokens : List Token} (found : tokensOf source = .ok tokens)

include found

theorem map_position_ne_nil : tokens.map Token.position ≠ [] :=
  fun none => ne_nil_of_tokensOf found (List.map_eq_nil_iff.mp none)

/-- What is read is as it was where all places but those of the tokens are moved away. -/
theorem exists_stays_fileStatements :
    ∃ move, (∀ place, move place = place → place ∈ tokens.map Token.position) ∧
      match Parser.fileStatements tokens.toArray State.initial with
      | .ok statements after =>
        Statement.relocateAll move statements = statements ∧ after.scopes.relocate move = after.scopes
      | .error error _ => move error.position = error.position := by
  have apart := nodup_position_of_tokensOf found
  let along : Alignment tokens.toArray tokens.toArray := Alignment.transfer rfl apart apart
  refine ⟨along.move, fun place => (transfer_self_iff apart (map_position_ne_nil found) place).mp, ?_⟩
  have same := @Parser.follows_fileStatements _ _ along State.initial
  rw [along.state_initial rfl] at same
  rcases result : Parser.fileStatements tokens.toArray State.initial with
    ⟨statements, after⟩ | ⟨error, after⟩ <;> rw [result] at same <;> dsimp only
  · obtain ⟨read, left⟩ := EStateM.Result.ok.inj same
    rw [Statement.relocateAll_eq_map]
    exact ⟨read.symm, (congrArg State.scopes left).symm⟩
  · obtain ⟨told, _⟩ := EStateM.Result.error.inj same
    have moved := @CompileError.position_relocate along.move error
      (isPlaceless_of_fileStatements found result)
    rw [← moved, ← told]

/-- The places in the statements of a file, and in what is in scope behind them, are those of
tokens. -/
theorem mem_position_of_runs {statements : List Statement} {after : State}
    (run : Parser.fileStatements tokens.toArray State.initial = .ok statements after) :
    (∀ place ∈ Statement.placesAll statements, place ∈ tokens.map Token.position) ∧
      ∀ place ∈ after.scopes.places, place ∈ tokens.map Token.position := by
  obtain ⟨move, only, stays⟩ := exists_stays_fileStatements found
  rw [run] at stays
  obtain ⟨read, left⟩ := stays
  constructor
  · have fixed := (Statement.relocateAll_eq_iff statements).mp
      (read.trans (Statement.relocateAll_id statements).symm)
    exact fun place member => only place (fixed place member)
  · have fixed := (Scopes.relocate_eq_iff after.scopes).mp
      (left.trans after.scopes.relocate_id.symm)
    exact fun place member => only place (fixed place member)

/-- An error found in reading tokens is at one of them. -/
theorem mem_position_of_error {error : CompileError} {after : State}
    (failed : Parser.fileStatements tokens.toArray State.initial = .error error after) :
    error.position ∈ tokens.map Token.position := by
  obtain ⟨move, only, stays⟩ := exists_stays_fileStatements found
  rw [failed] at stays
  exact only _ stays

end

theorem tokenPlace_of_parseSource {path source : String} {file : File}
    (read : parseSource path source = .ok file) :
    ∀ place ∈ Statement.placesAll file.statements, TokenPlace source place := by
  rcases found : tokensOf source with error | tokens
  · rw [parseSource_of_tokensOf_error found] at read
    cases read
  · rw [parseSource_of_tokensOf found] at read
    rcases run : Parser.fileStatements tokens.toArray State.initial with
      ⟨statements, after⟩ | ⟨error, after⟩ <;> rw [run] at read <;> cases read
    intro place member
    exact ⟨tokens, found, (mem_position_of_runs found run).1 place member⟩

theorem lexical_or_tokenPlace_of_parseSource {path source : String} {error : CompileError}
    (refused : parseSource path source = .error error) :
    tokensOf source = .error error ∨ TokenPlace source error.position := by
  rcases found : tokensOf source with fault | tokens
  · rw [parseSource_of_tokensOf_error found] at refused
    cases refused
    exact .inl rfl
  · rw [parseSource_of_tokensOf found] at refused
    rcases run : Parser.fileStatements tokens.toArray State.initial with
      ⟨statements, after⟩ | ⟨failed, after⟩ <;> rw [run] at refused <;> cases refused
    exact .inr ⟨tokens, found, mem_position_of_error found run⟩

/-- Every place that is told of a source is accurate: in its tree, in an error, and in what a lexer
of it yields, whatever that is asked for. In a tree and in an error that is not the lexer's it is
the place of a token. -/
theorem accurate_of_parseSource (path source : String) :
    (∀ file, parseSource path source = .ok file →
      ∀ place ∈ Statement.placesAll file.statements,
        Accurate source.toList place ∧ TokenPlace source place) ∧
      (∀ error, parseSource path source = .error error → Accurate source.toList error.position ∧
        ((∀ fault, error.fault ≠ .lexical fault) → TokenPlace source error.position)) ∧
      ∀ calls, ∀ outcome ∈ (Lexer.ofSource source).outcomes calls, ∀ place ∈ lexedPlaces outcome,
        Accurate source.toList place := by
  refine ⟨fun file read place member => ?_, fun error refused => ?_, accurate_of_outcomes source⟩
  · have told := tokenPlace_of_parseSource read place member
    exact ⟨told.accurate, told⟩
  · rcases lexical_or_tokenPlace_of_parseSource refused with lexical | told
    · refine ⟨?_, fun other => ?_⟩
      · have lexed := accurate_of_tokensOf source error.position
        rw [lexical] at lexed
        exact lexed (List.mem_singleton.mpr rfl)
      · obtain ⟨_, _, _⟩ := tokensOf_eq_error_iff.mp lexical
        exact absurd rfl (other _)
    · exact ⟨told.accurate, fun _ => told⟩

end MiniC
