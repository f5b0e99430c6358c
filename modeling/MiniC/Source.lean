/-
# MiniC.Source — reading whole files

`parseSource` reads the text of a file into its tree or the first error. A session reads the same
tokens in several calls: each call goes on where the one before it stopped, with the names and
types known so far, also after an error. The statements of a call that fails are lost, what they
declared is not.

The contents of a file may be out of reach or not be text; `parseContents` reports either as an
error at the beginning of the file.

`Contents.bytes_of_text`: the text of a file is the one whose UTF-8 form its bytes are.
-/
import MiniC.Parser.Statement
import MiniC.Token.Lexer

namespace MiniC

set_option autoImplicit false

/-- Nothing read yet: the built-in types are known, and no function is open. -/
def State.initial : State :=
  ⟨0, Scopes.root Ty.builtins, none⟩

/-- The tokens of a file and how far they are read. -/
structure Session where
  path : String
  tokens : Array Token
  state : State

namespace Session

/-- A session at the beginning of a source. -/
def start (path source : String) : Except CompileError Session :=
  (tokensOf source).map fun tokens => ⟨path, tokens.toArray, State.initial⟩

/-- Reads the statements up to the end of the file or the first error. -/
def parseFile (session : Session) : Except CompileError File × Session :=
  match Parser.fileStatements session.tokens session.state with
  | .ok statements state => (.ok ⟨session.path, statements⟩, { session with state })
  | .error error state => (.error error, { session with state })

end Session

/-- The tree of a source, or the first error in it. -/
def parseSource (path source : String) : Except CompileError File := do
  (← Session.start path source).parseFile.1

/-- What reading a file from a disk comes to. -/
abbrev Contents := Except ReadFault ByteArray

/-- The text of a file. -/
def Contents.text (contents : Contents) : Except ReadFault String := do
  match String.fromUTF8? (← contents) with
  | some text => return text
  | none => throw .invalidEncoding

theorem Contents.bytes_of_text {contents : Contents} {source : String}
    (read : contents.text = .ok source) : contents = .ok source.toUTF8 := by
  rcases contents with fault | bytes
  · cases read
  · simp only [text, bind, Except.bind, String.fromUTF8?] at read
    split at read
    · next decoded =>
      split at decoded
      · cases decoded
        cases read
        rfl
      · cases decoded
    · cases read

/-- The tree of a file, or the first error in it. -/
def parseContents (path : String) (contents : Contents) : Except CompileError File :=
  match contents.text with
  | .ok source => parseSource path source
  | .error fault => .error ⟨.unreadable fault, Position.start⟩

end MiniC
