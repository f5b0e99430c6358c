import MiniC.Main
import MiniC.Proofs.Assignment
import MiniC.Proofs.Concatenation
import MiniC.Proofs.Coverage.Function
import MiniC.Proofs.Declarator.Order
import MiniC.Proofs.Declarator.Visits
import MiniC.Proofs.Defences
import MiniC.Proofs.Effect.Statement
import MiniC.Proofs.Expression.Yield
import MiniC.Proofs.Generativity.Definition
import MiniC.Proofs.Layout
import MiniC.Proofs.Mismatch
import MiniC.Proofs.Precedence
import MiniC.Proofs.Printing
import MiniC.Proofs.Resolution
import MiniC.Proofs.Resumption
import MiniC.Proofs.Scopes.History
import MiniC.Proofs.Size
import MiniC.Proofs.Suggestion
