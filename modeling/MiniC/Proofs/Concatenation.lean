/-
# MiniC.Proofs.Concatenation — one source below another

Below a source that is accepted, another one is read as its tokens are with what the first one left
in scope. Its tokens stand as many bytes and lines further on as the first source and the line feed
between them have. Only an `else` at the beginning of the second source would join the two: it goes
on with a conditional statement at the end of the first.

The instances of a type are told apart by where they are made. To read the tokens of the second
source at their own places, what the first one left is therefore set aside, behind them; `rejoin`
puts both where they stand in the whole.

`parseSource_append`: the statements of the first source, and then what comes of the second.
-/
import MiniC.Proofs.Concatenation.Tokens
import MiniC.Proofs.Effect.Statement
import MiniC.Proofs.Lookahead.File
import MiniC.Proofs.Places

namespace MiniC

set_option autoImplicit false

/-! ## Places of the two sources -/

/-- Places of the second source, and places of the first that are set aside behind them, to where
they are in the whole. -/
def Position.rejoin (source more : List Char) (place : Position) : Position :=
  if place.offset ≤ byteLength more then place.below source
  else if place.offset ≤ byteLength source + (byteLength more + 1) then
    ⟨place.offset - (byteLength more + 1), place.line, place.column⟩
  else place

theorem Position.rejoin_of_le {source more : List Char} {place : Position}
    (within : place.offset ≤ byteLength more) : place.rejoin source more = place.below source :=
  if_pos within

/-- What was set aside comes back. -/
theorem Position.rejoin_further {source more : List Char} {place : Position}
    (within : place.offset ≤ byteLength source) :
    (place.further (byteLength more + 1)).rejoin source more = place := by
  have behind : ¬place.offset + (byteLength more + 1) ≤ byteLength more := by omega
  have inside : place.offset + (byteLength more + 1) ≤ byteLength source + (byteLength more + 1) :=
    Nat.add_le_add_right within _
  rw [rejoin, further, if_neg behind, if_pos inside, Nat.add_sub_cancel]

/-- Nothing is put where something else is: the second source comes behind the first, and the rest
stays behind both. -/
theorem Position.injective_rejoin (source more : List Char) :
    Function.Injective (Position.rejoin source more) := by
  rintro ⟨offset, line, column⟩ ⟨offset', line', column'⟩ same
  grind [rejoin, below]

theorem Accurate.offset_le {source : List Char} {place : Position}
    (accurate : Accurate source place) : place.offset ≤ byteLength source := by
  obtain ⟨before, after, _, rfl, bytes, _⟩ := accurate
  rw [bytes, byteLength_append]
  exact Nat.le_add_right _ _

theorem offset_le_of_tokensOf {source : String} {tokens : List Token}
    (found : tokensOf source = .ok tokens) :
    ∀ place ∈ tokens.map Token.position, place.offset ≤ byteLength source.toList := by
  intro place member
  have lexed := accurate_of_tokensOf source place
  rw [found] at lexed
  exact (lexed member).offset_le

/-! ## Tokens -/

/-- The tree of tokens with `scopes` known at the beginning, or the first error in them. -/
def parseTokens (path : String) (tokens : List Token) (scopes : Scopes) :
    Except CompileError File :=
  (Session.mk path tokens.toArray ⟨0, scopes, none⟩).parseFile.1

/-- The file with its places moved. -/
def File.relocate (move : Position → Position) (file : File) : File :=
  { file with statements := file.statements.map (Statement.relocate move) }

/-- The file with the statements of another one behind its own. -/
def File.append (file more : File) : File :=
  { file with statements := file.statements ++ more.statements }

/-- The tokens behind others. -/
def Alignment.append (before tokens : List Token) :
    Alignment tokens.toArray (before ++ tokens).toArray where
  move := id
  shift := before.length
  injective := fun _ _ same => same
  size_eq := by simp [Nat.add_comm]
  token index token here := by
    refine ⟨token.length, ?_⟩
    rw [List.getElem?_toArray] at here ⊢
    rw [List.getElem?_append_right (Nat.le_add_left _ _), Nat.add_sub_cancel, here]
    rfl

/-- The same tokens at other places. -/
def Alignment.relocate {move : Position → Position} (injective : Function.Injective move)
    (tokens : List Token) :
    Alignment tokens.toArray (tokens.map (Token.relocate move)).toArray where
  move := move
  shift := 0
  injective := injective
  size_eq := by simp
  token index token here := by
    refine ⟨token.length, ?_⟩
    rw [List.getElem?_toArray] at here ⊢
    rw [Nat.add_zero, List.getElem?_map, here]
    rfl

/-- Tokens at other places are read alike with what is in scope moved along. -/
theorem parseTokens_relocate {move : Position → Position} (injective : Function.Injective move)
    (path : String) (tokens : List Token) (scopes : Scopes) :
    parseTokens path (tokens.map (Token.relocate move)) (scopes.relocate move) =
      relocateOutcome move (File.relocate move) (parseTokens path tokens scopes) := by
  have same := @Parser.follows_fileStatements _ _ (Alignment.relocate injective tokens)
    ⟨0, scopes, none⟩
  rw [parseTokens, parseTokens, Session.parseFile, Session.parseFile]
  dsimp only
  rw [show (⟨0, scopes.relocate move, none⟩ : State) =
    (Alignment.relocate injective tokens).state ⟨0, scopes, none⟩ from rfl, same]
  rcases Parser.fileStatements tokens.toArray ⟨0, scopes, none⟩ with
    ⟨statements, after⟩ | ⟨error, after⟩ <;> rfl

/-- Tokens behind others are read as on their own. -/
theorem fileStatements_append (before tokens : List Token) (scopes : Scopes) :
    Parser.fileStatements (before ++ tokens).toArray ⟨before.length, scopes, none⟩ =
      (Alignment.append before tokens).result id
        (Parser.fileStatements tokens.toArray ⟨0, scopes, none⟩) := by
  have same := @Parser.follows_fileStatements _ _ (Alignment.append before tokens)
    ⟨0, scopes, none⟩
  have unmoved : List.map (Statement.relocate id) = id :=
    funext fun statements => by
      rw [← Statement.relocateAll_eq_map, Statement.relocateAll_id, id]
  have here : (Alignment.append before tokens).state ⟨0, scopes, none⟩ =
      ⟨before.length, scopes, none⟩ := by
    simp only [Alignment.state, Nat.zero_add, Option.map_none]
    exact congrArg (State.mk _ · none) scopes.relocate_id
  rwa [here, show (Alignment.append before tokens).move = id from rfl, unmoved] at same

/-- Other tokens that do not begin with an `else` continue those in front of the end of the file. -/
theorem continues_dropLast {tokens others : List Token} (some : tokens ≠ []) (more : others ≠ [])
    (free : others.head?.map Token.kind ≠ .some (.keyword .otherwise)) :
    Continues tokens.toArray (tokens.dropLast ++ others).toArray (tokens.toArray.size - 1) where
  same index less := by
    rw [List.size_toArray] at less
    rw [List.getElem?_toArray, List.getElem?_toArray,
      List.getElem?_append_left (by rwa [List.length_dropLast]), List.getElem?_dropLast, if_pos less]
  size_le := by
    have := List.length_pos_iff.mpr some
    have := List.length_pos_iff.mpr more
    simp only [List.size_toArray, List.length_append, List.length_dropLast]
    omega
  free there := by
    refine absurd ?_ free
    rw [kindAt, List.getElem?_toArray, List.size_toArray, List.getElem?_append_right (by simp),
      List.length_dropLast, Nat.sub_self] at there
    rw [List.head?_eq_getElem?]
    exact there

/-! ## Sources -/

/-- What a source that is accepted leaves is outside of all functions, at its last token. -/
theorem left_of_runs {source : String} {tokens : List Token} (found : tokensOf source = .ok tokens)
    {statements : List Statement} {after : State}
    (run : Parser.fileStatements tokens.toArray State.initial = .ok statements after) :
    after = ⟨tokens.dropLast.length, after.scopes, none⟩ := by
  have lexed := lexed_of_tokensOf found
  have stopped := (lexed.ended_iff _).mp (Parser.ended_of_runs run)
  have outermost := (@Parser.keeps_fileStatements tokens.toArray State.initial
    ⟨Scopes.paired_root _, rfl, rfl⟩).1
  rw [run] at outermost
  obtain ⟨cursor, scopes, returnType⟩ := after
  obtain rfl : returnType = none := outermost.returnType
  simp only [List.size_toArray] at stopped
  simp only [List.length_dropLast, State.mk.injEq, and_true]
  omega

/-- Tokens below an accepted source are read with what it left in scope. -/
theorem fileStatements_below {source : String} {tokens others : List Token}
    (found : tokensOf source = .ok tokens) {statements : List Statement} {after : State}
    (run : Parser.fileStatements tokens.toArray State.initial = .ok statements after)
    (more : others ≠ []) (free : others.head?.map Token.kind ≠ some (.keyword .otherwise)) :
    Parser.fileStatements (tokens.dropLast ++ others).toArray State.initial =
      Parser.mapResult (statements ++ ·) ((Alignment.append tokens.dropLast others).result id
        (Parser.fileStatements others.toArray ⟨0, after.scopes, none⟩)) := by
  have lexed := lexed_of_tokensOf found
  have first := Parser.fileStatements_of_continues ⟨lexed, Nat.le_refl _, lexed.nonempty⟩ run
    (continues_dropLast (ne_nil_of_tokensOf found) more free)
  rw [left_of_runs found run, fileStatements_append] at first
  exact first

/-- What is in scope behind a source comes back from where it was set aside. -/
theorem relocate_rejoin {source : String} {tokens : List Token} (found : tokensOf source = .ok tokens)
    {statements : List Statement} {after : State}
    (run : Parser.fileStatements tokens.toArray State.initial = .ok statements after)
    (more : List Char) :
    (after.scopes.relocate (Position.further (byteLength more + 1))).relocate
      (Position.rejoin source.toList more) = after.scopes := by
  have told := (mem_position_of_runs found run).2
  rw [Scopes.relocate_relocate]
  refine ((Scopes.relocate_eq_iff after.scopes).mpr fun place member => ?_).trans
    after.scopes.relocate_id
  exact Position.rejoin_further (offset_le_of_tokensOf found place (told place member))

/-- The tokens of the second source come to where they are in the whole. -/
theorem map_rejoin {more : String} {tokens : List Token} (found : tokensOf more = .ok tokens)
    (source : List Char) :
    tokens.map (Token.relocate (Position.rejoin source more.toList)) =
      tokens.map (Token.relocate (Position.below source)) := by
  refine List.map_congr_left fun token member => ?_
  have within := offset_le_of_tokensOf found token.position (List.mem_map_of_mem member)
  rw [Token.relocate, Token.relocate, Position.rejoin_of_le within]

/-- A source whose tokens go on behind those of an accepted one. -/
theorem parseSource_of_append {path source whole : String} {tokens others : List Token} {file : File}
    (found : tokensOf source = .ok tokens) {after : State} (samePath : file.path = path)
    (run : Parser.fileStatements tokens.toArray State.initial = .ok file.statements after)
    (wholeFound : tokensOf whole = .ok (tokens.dropLast ++ others)) (more : others ≠ [])
    (free : others.head?.map Token.kind ≠ some (.keyword .otherwise)) :
    parseSource path whole = (parseTokens path others after.scopes).map file.append := by
  subst samePath
  rw [parseSource_of_tokensOf wholeFound, fileStatements_below found run more free, parseTokens,
    Session.parseFile]
  rcases Parser.fileStatements others.toArray ⟨0, after.scopes, none⟩ with
    ⟨statements, last⟩ | ⟨error, last⟩
  · rfl
  · exact congrArg Except.error error.relocate_id

/-- Below a source that is accepted another one comes to what its tokens come to with what the first
left in scope, behind the statements of the first; no `else` may go on with the last of these.
A fault of the lexer in the second source is that of the whole. -/
theorem parseSource_append (path source more : String) {file : File}
    (accepted : parseSource path source = .ok file)
    (free : ∀ tokens, tokensOf more = .ok tokens →
      tokens.head?.map Token.kind ≠ some (.keyword .otherwise)) :
    ∃ session, Session.start path source = .ok session ∧ session.parseFile.1 = .ok file ∧
      (∀ error, tokensOf more = .error error →
        parseSource path (source ++ "\n" ++ more) =
          .error (error.relocate (Position.below source.toList))) ∧
      ∀ tokens, tokensOf more = .ok tokens →
        let scopes := session.parseFile.2.state.scopes
        let aside := scopes.relocate (Position.further (byteLength more.toList + 1))
        let whole := Position.rejoin source.toList more.toList
        parseSource path (source ++ "\n" ++ more) =
            (parseTokens path (tokens.map (Token.relocate (Position.below source.toList)))
              scopes).map file.append ∧
          parseSource path (source ++ "\n" ++ more) =
            (relocateOutcome whole (File.relocate whole) (parseTokens path tokens aside)).map
              file.append := by
  rcases found : tokensOf source with error | first
  · rw [parseSource_of_tokensOf_error found] at accepted
    cases accepted
  have started : Session.start path source = .ok ⟨path, first.toArray, State.initial⟩ := by
    rw [Session.start, found]
    rfl
  have read : (Session.mk path first.toArray State.initial).parseFile.1 = .ok file := by
    rw [parseSource, started] at accepted
    exact accepted
  obtain ⟨after, run, samePath⟩ := Session.runs_of_parseFile read
  have lexed := tokensOf_append found more
  refine ⟨_, started, read, fun error refused => ?_, fun tokens others => ?_⟩
  · rw [refused] at lexed
    exact parseSource_of_tokensOf_error lexed
  · rw [Session.parseFile_of_runs run]
    dsimp only
    rw [others] at lexed
    have below : parseSource path (source ++ "\n" ++ more) =
        (parseTokens path (tokens.map (Token.relocate (Position.below source.toList)))
          after.scopes).map file.append := by
      have some : tokens.map (Token.relocate (Position.below source.toList)) ≠ [] :=
        fun none => ne_nil_of_tokensOf others (List.map_eq_nil_iff.mp none)
      refine parseSource_of_append found samePath run lexed some fun joined => ?_
      rw [List.head?_map, Option.map_map] at joined
      exact free tokens others joined
    refine ⟨below, ?_⟩
    rw [← parseTokens_relocate (Position.injective_rejoin _ _), map_rejoin others,
      relocate_rejoin found run]
    exact below

/-- The second source needs the variable of the first, and is accepted below it. -/
theorem parseSource_append_variable :
    ∃ (session : Session) (file : File) (tokens : List Token),
      Session.start "two.lc" "int32 x = 1;" = .ok session ∧ session.parseFile.1 = .ok file ∧
        tokensOf "int32 y = x;" = .ok tokens ∧
        parseSource "two.lc" ("int32 x = 1;" ++ "\n" ++ "int32 y = x;") =
          (parseTokens "two.lc"
            (tokens.map (Token.relocate (Position.below "int32 x = 1;".toList)))
            session.parseFile.2.state.scopes).map file.append ∧
        (parseSource "two.lc" ("int32 x = 1;" ++ "\n" ++ "int32 y = x;")).isOk = true := by
  have kinds : ((tokensOf "int32 y = x;").toOption.map (List.map Token.kind)) =
      some [.name "int32", .name "y", .symbol .equal, .name "x", .symbol .semicolon,
        .endOfFile] := by
    decide +kernel
  obtain ⟨tokens, found, kinds⟩ := exists_ok_of_map_eq_some kinds
  have free : ∀ others, tokensOf "int32 y = x;" = .ok others →
      others.head?.map Token.kind ≠ some (.keyword .otherwise) := by
    intro others same
    obtain rfl := Except.ok.inj (found.symm.trans same)
    rw [← List.head?_map, kinds]
    decide
  have reads : (parseSource "two.lc" "int32 x = 1;").isOk = true := by decide +kernel
  rcases accepted : parseSource "two.lc" "int32 x = 1;" with error | file
  · rw [accepted] at reads
    cases reads
  · obtain ⟨session, started, read, _, below⟩ :=
      parseSource_append "two.lc" "int32 x = 1;" "int32 y = x;" accepted free
    exact ⟨session, file, tokens, started, read, found, (below tokens found).1, by decide +kernel⟩

end MiniC
