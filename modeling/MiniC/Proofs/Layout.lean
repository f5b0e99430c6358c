/-
# MiniC.Proofs.Layout — layout means nothing

Spaces, line breaks and comments between tokens change where the tokens stand, and so may another
way of writing a literal; neither changes what a program means. Two sources of the same kinds of
tokens are both read or both refused. The one tree is the other with the place of each token moved
to the place of the same token in the other source, so that every name stands for the corresponding
declaration and types that were one instance still are. An error has the same message at the same
token.
-/
import MiniC.Proofs.Places

namespace MiniC

set_option autoImplicit false

variable {source source' : String} {tokens tokens' : List Token}

/-- The same tokens elsewhere come to the same, elsewhere. -/
theorem parseSource_of_alignment {path path' : String} (found : tokensOf source = .ok tokens)
    (found' : tokensOf source' = .ok tokens') (along : Alignment tokens.toArray tokens'.toArray)
    (aligned : along.shift = 0) :
    (∃ statements, parseSource path source = .ok ⟨path, statements⟩ ∧
        parseSource path' source' = .ok ⟨path', statements.map (Statement.relocate along.move)⟩) ∨
      ∃ error, parseSource path source = .error error ∧
        parseSource path' source' = .error (error.relocate along.move) ∧
        error.fault.isPlaceless = false ∧ error.position ∈ tokens.map Token.position := by
  have same := @Parser.follows_fileStatements _ _ along State.initial
  rw [along.state_initial aligned] at same
  rw [parseSource_of_tokensOf found, parseSource_of_tokensOf found', same]
  rcases run : Parser.fileStatements tokens.toArray State.initial with
    ⟨statements, after⟩ | ⟨error, after⟩
  · exact .inl ⟨statements, rfl, rfl⟩
  · exact .inr ⟨error, rfl, rfl, isPlaceless_of_fileStatements found run,
      mem_position_of_error found run⟩

/-- Two sources of the same kinds of tokens are read alike: the places of the tokens of the one can
be moved, one to one, to those of the tokens of the other, which makes the one tree the other, or
both have errors of the same message at the token of the same index. -/
theorem parseSource_layout (path path' : String) (found : tokensOf source = .ok tokens)
    (found' : tokensOf source' = .ok tokens')
    (same : tokens.map Token.kind = tokens'.map Token.kind) :
    (∃ statements move, parseSource path source = .ok ⟨path, statements⟩ ∧
        parseSource path' source' = .ok ⟨path', statements.map (Statement.relocate move)⟩ ∧
        Function.Injective move ∧
        tokens'.map Token.position = (tokens.map Token.position).map move) ∨
      ∃ (error error' : CompileError) (index : Nat), parseSource path source = .error error ∧
        parseSource path' source' = .error error' ∧ error'.message = error.message ∧
        tokens[index]?.map Token.position = some error.position ∧
        tokens'[index]?.map Token.position = some error'.position := by
  let along := Alignment.transfer same (nodup_position_of_tokensOf found)
    (nodup_position_of_tokensOf found')
  have moved : tokens'.map Token.position = (tokens.map Token.position).map along.move := by
    refine List.ext_getElem? fun index => ?_
    have lengths : tokens.length = tokens'.length := by simpa using congrArg List.length same
    rcases here : tokens[index]? with _ | token
    · have outside := List.getElem?_eq_none_iff.mp here
      simp [here, List.getElem?_eq_none_iff.mpr (lengths ▸ outside)]
    · obtain ⟨length, there⟩ := along.token index token (by rwa [List.getElem?_toArray])
      rw [List.getElem?_toArray] at there
      simp [here, show tokens'[index]? = _ from there]
  rcases parseSource_of_alignment found found' along rfl with
    ⟨statements, read, read'⟩ | ⟨error, refused, refused', placed, member⟩
  · exact .inl ⟨statements, along.move, read, read', along.injective, moved⟩
  · obtain ⟨index, here⟩ := List.getElem?_of_mem member
    refine .inr ⟨error, error.relocate along.move, index, refused, refused',
      error.message_relocate, by rwa [← List.getElem?_map], ?_⟩
    rw [← List.getElem?_map, moved, List.getElem?_map, here, CompileError.position_relocate placed]
    rfl

/-- A comment, line breaks and another way of writing the number move what is declared, and leave
the message about `y`. -/
theorem parseSource_layout_comment :
    (∃ statements move, parseSource "one.lc" "int32 x=16;" = .ok ⟨"one.lc", statements⟩ ∧
      parseSource "other.lc" "int32 // a number\n  x = 0x1_0;\n" =
        .ok ⟨"other.lc", statements.map (Statement.relocate move)⟩ ∧
      Function.Injective move ∧ move ⟨6, 1, 7⟩ = ⟨20, 2, 3⟩) ∧
    ∃ error error' : CompileError,
      parseSource "one.lc" "int32 x=16;x=y;" = .error error ∧
        parseSource "other.lc" "int32 // a number\n  x = 0x1_0;\n\nx = y ;\n" = .error error' ∧
        error'.message = error.message := by
  refine ⟨?_, ?_⟩
  · have spaced : ((tokensOf "int32 x=16;").toOption.map fun tokens =>
        (tokens.map Token.kind, tokens[1]?.map Token.position)) =
          some ([.name "int32", .name "x", .symbol .equal, .integer 16, .symbol .semicolon,
            .endOfFile], some ⟨6, 1, 7⟩) := by
      decide +kernel
    have spaced' : ((tokensOf "int32 // a number\n  x = 0x1_0;\n").toOption.map fun tokens =>
        (tokens.map Token.kind, tokens[1]?.map Token.position)) =
          some ([.name "int32", .name "x", .symbol .equal, .integer 16, .symbol .semicolon,
            .endOfFile], some ⟨20, 2, 3⟩) := by
      decide +kernel
    obtain ⟨tokens, found, read⟩ := exists_ok_of_map_eq_some spaced
    obtain ⟨tokens', found', read'⟩ := exists_ok_of_map_eq_some spaced'
    obtain ⟨kinds, name⟩ := Prod.mk.inj read
    obtain ⟨kinds', name'⟩ := Prod.mk.inj read'
    have accepted : (parseSource "one.lc" "int32 x=16;").isOk = true := by decide +kernel
    rcases parseSource_layout "one.lc" "other.lc" found found' (kinds.trans kinds'.symm) with
      ⟨statements, move, tree, tree', apart, moved⟩ | ⟨_, _, _, refused, _⟩
    · have second : tokens'[1]?.map Token.position = (tokens[1]?.map Token.position).map move := by
        rw [← List.getElem?_map, ← List.getElem?_map, moved, List.getElem?_map]
      rw [name, name'] at second
      exact ⟨statements, move, tree, tree', apart, (Option.some.inj second).symm⟩
    · rw [refused] at accepted
      cases accepted
  · have kinds : ((tokensOf "int32 x=16;x=y;").toOption.map (List.map Token.kind)) =
        some [.name "int32", .name "x", .symbol .equal, .integer 16, .symbol .semicolon, .name "x",
          .symbol .equal, .name "y", .symbol .semicolon, .endOfFile] := by
      decide +kernel
    have kinds' : ((tokensOf "int32 // a number\n  x = 0x1_0;\n\nx = y ;\n").toOption.map
        (List.map Token.kind)) =
        some [.name "int32", .name "x", .symbol .equal, .integer 16, .symbol .semicolon, .name "x",
          .symbol .equal, .name "y", .symbol .semicolon, .endOfFile] := by
      decide +kernel
    obtain ⟨tokens, found, kinds⟩ := exists_ok_of_map_eq_some kinds
    obtain ⟨tokens', found', kinds'⟩ := exists_ok_of_map_eq_some kinds'
    have same := kinds.trans kinds'.symm
    have fails : (parseSource "one.lc" "int32 x=16;x=y;").isOk = false := by decide +kernel
    rcases parseSource_layout "one.lc" "other.lc" found found' same with
      ⟨_, _, read, _⟩ | ⟨error, error', _, refused, refused', message, _⟩
    · rw [read] at fails
      cases fails
    · exact ⟨error, error', refused, refused', message⟩

end MiniC
