/-
# MiniC.Proofs.Coverage — what it means to return on all paths

`Executes statements ending` says that some execution of the statements ends by a return or falls
out of them at their end. Conditions are not looked at: a conditional takes either branch, or is
passed by without an alternative, and a loop takes any number of turns.

* `returnsOnAllPaths_iff` — the statements return on all paths exactly when no execution falls out.
* `Occurs` — a statement stands somewhere in others, at any depth.
-/
import MiniC.Tree.Coverage

namespace MiniC

set_option autoImplicit false

/-! ## Executions -/

/-- How an execution ends. -/
inductive Ending where
  | falls
  | returns
  deriving DecidableEq, Repr

/-- Neither a return nor made of statements that are executed. -/
def Statement.isSimple : Statement → Bool
  | .ret .. | .block _ | .conditional .. | .loop .. => false
  | _ => true

mutual

/-- Some execution of the statement ends so. -/
inductive Ends : Statement → Ending → Prop
  | simple {statement : Statement} (simple : statement.isSimple) : Ends statement .falls
  | ret {value : Option Expression} {position : Position} : Ends (.ret value position) .returns
  | block {body : Block Statement} {ending : Ending}
      (inside : Executes body.statements ending) : Ends (.block body) ending
  | whenTrue {test : Expression} {whenTrue : Block Statement}
      {otherwise : Option (Block Statement)} {position : Position} {ending : Ending}
      (branch : Executes whenTrue.statements ending) :
      Ends (.conditional test whenTrue otherwise position) ending
  | otherwise {test : Expression} {whenTrue otherwise : Block Statement} {position : Position}
      {ending : Ending} (branch : Executes otherwise.statements ending) :
      Ends (.conditional test whenTrue (some otherwise) position) ending
  | skipped {test : Expression} {whenTrue : Block Statement} {position : Position} :
      Ends (.conditional test whenTrue none position) .falls
  | left {test : Expression} {body : Block Statement} {position : Position} :
      Ends (.loop test body position) .falls
  | again {test : Expression} {body : Block Statement} {position : Position} {ending : Ending}
      (turn : Executes body.statements .falls) (others : Ends (.loop test body position) ending) :
      Ends (.loop test body position) ending
  | inTurn {test : Expression} {body : Block Statement} {position : Position}
      (turn : Executes body.statements .returns) : Ends (.loop test body position) .returns

/-- Some execution of the statements, one after the other, ends so. -/
inductive Executes : List Statement → Ending → Prop
  | done : Executes [] .falls
  | stops {statement : Statement} {rest : List Statement} (first : Ends statement .returns) :
      Executes (statement :: rest) .returns
  | goesOn {statement : Statement} {rest : List Statement} {ending : Ending}
      (first : Ends statement .falls) (others : Executes rest ending) :
      Executes (statement :: rest) ending

end

theorem executes_falls_cons {statement : Statement} {rest : List Statement} :
    Executes (statement :: rest) .falls ↔ Ends statement .falls ∧ Executes rest .falls := by
  constructor
  · intro execution
    cases execution with
    | goesOn first others => exact ⟨first, others⟩
  · rintro ⟨first, others⟩
    exact .goesOn first others

/-! ## Coverage -/

mutual

theorem Statement.returns_iff : ∀ statement : Statement,
    statement.returns = true ↔ ¬Ends statement .falls
  | .ret .. => by
    refine iff_of_true rfl fun execution => ?_
    cases execution with
    | simple simple => cases simple
  | .block ⟨statements, _⟩ => by
    rw [Statement.returns, returnsOnAllPaths_iff statements]
    refine not_congr ⟨fun inside => .block inside, fun execution => ?_⟩
    cases execution with
    | simple simple => cases simple
    | block inside => exact inside
  | .conditional _ ⟨whenTrue, _⟩ (some ⟨otherwise, _⟩) _ => by
    rw [Statement.returns, Bool.and_eq_true, returnsOnAllPaths_iff whenTrue,
      returnsOnAllPaths_iff otherwise, ← not_or]
    refine not_congr ⟨fun branch => branch.elim (fun branch => .whenTrue branch)
      fun branch => .otherwise branch, fun execution => ?_⟩
    cases execution with
    | simple simple => cases simple
    | whenTrue branch => exact .inl branch
    | otherwise branch => exact .inr branch
  | .conditional _ _ none _ => iff_of_false Bool.false_ne_true (not_not_intro .skipped)
  | .loop .. => iff_of_false Bool.false_ne_true (not_not_intro .left)
  | .declaration .. | .typedef .. | .distinct .. | .function .. | .assignment .. | .expression _ =>
    iff_of_false Bool.false_ne_true (not_not_intro (.simple rfl))
termination_by structural statement => statement

/-- The statements return on all paths exactly when no execution falls out at their end. -/
theorem returnsOnAllPaths_iff : ∀ statements : List Statement,
    returnsOnAllPaths statements = true ↔ ¬Executes statements .falls
  | [] => iff_of_false Bool.false_ne_true (not_not_intro .done)
  | statement :: rest => by
    rw [returnsOnAllPaths, Bool.or_eq_true, Statement.returns_iff statement,
      returnsOnAllPaths_iff rest, executes_falls_cons, Classical.not_and_iff_not_or_not]
termination_by structural statements => statements

end

/-! ## Statements in statements -/

/-- The blocks that a statement is made of. -/
def Statement.blocks : Statement → List (Block Statement)
  | .block body | .function _ _ body | .loop _ body _ => [body]
  | .conditional _ whenTrue otherwise _ => whenTrue :: otherwise.toList
  | _ => []

/-- The statement is one of the others or stands in a block of one, at any depth. -/
inductive Occurs (sought : Statement) : List Statement → Prop
  | here {statements : List Statement} (member : sought ∈ statements) : Occurs sought statements
  | inside {statements : List Statement} {statement : Statement} {body : Block Statement}
      (member : statement ∈ statements) (block : body ∈ statement.blocks)
      (within : Occurs sought body.statements) : Occurs sought statements

theorem occurs_append {sought : Statement} {first second : List Statement}
    (occurs : Occurs sought (first ++ second)) : Occurs sought first ∨ Occurs sought second := by
  cases occurs with
  | here member => exact (List.mem_append.mp member).imp .here .here
  | inside member block within =>
    exact (List.mem_append.mp member).imp (.inside · block within) (.inside · block within)

theorem occurs_singleton {sought statement : Statement} (occurs : Occurs sought [statement]) :
    sought = statement ∨ ∃ body ∈ statement.blocks, Occurs sought body.statements := by
  cases occurs with
  | here member => exact .inl (List.mem_singleton.mp member)
  | inside member block within =>
    obtain rfl := List.mem_singleton.mp member
    exact .inr ⟨_, block, within⟩

end MiniC
