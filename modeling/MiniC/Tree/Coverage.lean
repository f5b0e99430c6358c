/-
# MiniC.Tree.Coverage — whether every path reaches a return

A list of statements is covered when some statement of it returns on each of its paths: a return
itself, a block that is covered, or a conditional with two covered branches. A conditional without
an alternative and a loop may be passed by, and no other statement returns.
-/
import MiniC.Tree

namespace MiniC

set_option autoImplicit false

mutual

/-- Whether every path through the statement reaches a return. -/
def Statement.returns : Statement → Bool
  | .ret .. => true
  | .block ⟨statements, _⟩ => returnsOnAllPaths statements
  | .conditional _ ⟨whenTrue, _⟩ (some ⟨otherwise, _⟩) _ =>
    returnsOnAllPaths whenTrue && returnsOnAllPaths otherwise
  | _ => false
termination_by structural statement => statement

/-- Whether every path through the statements reaches a return. -/
def returnsOnAllPaths : List Statement → Bool
  | [] => false
  | statement :: rest => statement.returns || returnsOnAllPaths rest
termination_by structural statements => statements

end

end MiniC
