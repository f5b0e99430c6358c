/-
# MiniC.Proofs.Lookahead.File — a file that goes on

Where other tokens go on behind those of a file, its statements are read first and as they were,
and the rest with what they left in scope: `fileStatements_of_continues`.
-/
import MiniC.Proofs.Lookahead.Statement
import MiniC.Proofs.Session

namespace MiniC.Parser

set_option autoImplicit false

variable {tokens tokens' : Array Token} {state after : State} {α β : Type}

/-- A result with its value in another form. -/
def mapResult (form : α → β) :
    EStateM.Result CompileError State α → EStateM.Result CompileError State β
  | .ok value after => .ok (form value) after
  | .error error after => .error error after

/-! ## Statements read before -/

theorem nextInFile_append (read more : Array Statement) (tokens : Array Token) (state : State) :
    nextInFile (read ++ more) tokens state =
      mapResult (Option.map (read ++ ·)) (nextInFile more tokens state) := by
  simp only [nextInFile, bind_apply]
  rcases peek tokens state with ⟨⟨kind, place, length⟩, here⟩ | ⟨error, here⟩
  · have further : ∀ current : Array Statement,
        (statement >>= fun value => pure (some (current.push value))) tokens here =
          mapResult (fun value => some (current.push value)) (statement tokens here) := by
      intro current
      rw [bind_apply]
      cases statement tokens here <;> rfl
    have pushed : (fun value => some ((read ++ more).push value)) =
        Option.map (read ++ ·) ∘ fun value => some (more.push value) := by
      funext value
      exact congrArg some Array.push_append
    cases kind with
    | endOfFile => rfl
    | _ =>
      dsimp only
      rw [further, further, pushed]
      cases statement tokens here <;> rfl
  · rfl

/-- What was read before stands in front of what is read. -/
theorem repeated_nextInFile_append (bound : Nat) (read more : Array Statement) (state : State) :
    repeated nextInFile bound (read ++ more) tokens state =
      mapResult (read ++ ·) (repeated nextInFile bound more tokens state) := by
  induction bound generalizing more state with
  | zero => rfl
  | succ bound ih =>
    rw [repeated_succ, repeated_succ, nextInFile_append]
    rcases nextInFile more tokens state with ⟨_ | next, after⟩ | ⟨error, after⟩
    · rfl
    · exact ih next after
    · rfl

theorem fileStatements_apply (tokens : Array Token) (state : State) :
    fileStatements tokens state =
      mapResult Array.toList (iterate nextInFile #[] tokens state) := by
  rw [fileStatements, bind_apply]
  cases iterate nextInFile #[] tokens state <;> rfl

/-! ## Tokens behind a file -/

/-- A turn is the same where the tokens that it takes are. -/
theorem runs_nextInFile_of_continues {read next : Array Statement}
    (run : Runs tokens (nextInFile read) state (some next) after)
    (continues : Continues tokens tokens' after.cursor) :
    Runs tokens' (nextInFile read) state (some next) after := by
  obtain ⟨token, _, looked, run⟩ := runs_bind.mp run
  obtain ⟨here, rfl⟩ := runs_peek.mp looked
  split at run
  · cases (runs_pure.mp run).1
  · next more =>
    obtain ⟨value, _, taken, done⟩ := runs_bind.mp run
    obtain ⟨same, rfl⟩ := runs_pure.mp done
    obtain ⟨low, alike⟩ := stops_statement _ _ _ taken
    have there := continues.same _ (Nat.lt_of_succ_le low)
    refine runs_bind.mpr ⟨token, state, runs_peek.mpr ⟨by rw [there, here], rfl⟩, ?_⟩
    split
    · next ended => exact absurd ended more
    · exact runs_bind.mpr ⟨value, _, alike continues, runs_pure.mpr ⟨same, rfl⟩⟩

/-- Where other tokens go on behind those of a file, what follows its statements is read in the
state that they left. -/
theorem fileStatements_of_continues (sound : state.Sound tokens 0) {statements : List Statement}
    (run : Runs tokens fileStatements state statements after)
    (continues : Continues tokens tokens' (tokens.size - 1)) :
    fileStatements tokens' state =
      mapResult (statements ++ ·) (fileStatements tokens' after) := by
  obtain ⟨read, _, turns, done⟩ := runs_bind.mp run
  obtain ⟨rfl, rfl⟩ := runs_pure.mp done
  have within : ∀ state : State, state.Sound tokens 0 → state.cursor ≤ tokens'.size :=
    fun state sound => Nat.le_trans (Nat.le_of_lt sound.high) continues.size_le
  -- Up to the end of the file every turn is one among the other tokens, too.
  obtain ⟨last, ⟨_, same⟩, stopped⟩ := turns.iterate_induct
    (Q := fun current between => between.Sound tokens 0 ∧
      iterate nextInFile #[] tokens' state = iterate nextInFile current tokens' between)
    ⟨sound, rfl⟩ fun current next between later ⟨soundHere, same⟩ turn => by
      have soundLater := ((safe_nextInFile current between soundHere).of_runs turn).1
      have high := soundLater.high
      have alike := runs_nextInFile_of_continues turn (continues.mono (by omega))
      refine ⟨soundLater, same.trans ?_⟩
      rw [iterate_eq advancing_nextInFile current (within between soundHere), alike]
  obtain rfl := runs_nextInFile_none stopped
  have behind := @repeated_nextInFile_append tokens' (tokens'.size - last.cursor + 1) read #[] last
  rw [Array.append_empty, ← iterate_apply, ← iterate_apply] at behind
  rw [fileStatements_apply, fileStatements_apply, same, behind]
  cases iterate nextInFile #[] tokens' last with
  | ok more final => exact congrArg (EStateM.Result.ok · _) Array.toList_append
  | error error final => rfl

end MiniC.Parser
