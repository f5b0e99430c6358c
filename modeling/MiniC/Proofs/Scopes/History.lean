/-
# MiniC.Proofs.Scopes.History — scopes as one list of bindings with marks

The two stacks of levels can be told from one list, newest first, of the bindings that were made and
are still open, with a mark for every level that was opened. Opening a level adds a mark, closing
one drops the newest mark with all in front of it, and a binding is added unless the name is bound
in the same namespace in front of the newest mark. A look-up takes the newest binding of the name;
behind the last entry the built-in types are left, of which the last one seeded under a name counts.

* `perform_ofHistory` — one request does to the scopes of a history what it does to the history.
* `after_ofHistory` — so after any requests, refused ones and surplus closings included, the scopes
  are those of the history.
* `after_bracketed` — opening and closing a level around a balanced segment changes nothing.
* `refinesHistory` — what this says of look-ups, refusals, levels and the two namespaces.
-/
import MiniC.Proofs.Scopes

namespace MiniC

set_option autoImplicit false

/-! ## One namespace -/

namespace Namespace

variable {α : Type} {levels : Namespace α}

/-- The levels with a binding in front of the innermost one. -/
def add (levels : Namespace α) (name : String) (value : α) : Namespace α :=
  match levels with
  | [] => []
  | level :: outer => ((name, value) :: level) :: outer

@[simp] theorem length_add (levels : Namespace α) (name : String) (value : α) :
    (levels.add name value).length = levels.length := by
  cases levels <;> rfl

@[simp] theorem tail_add (levels : Namespace α) (name : String) (value : α) :
    (levels.add name value).tail = levels.tail := by
  cases levels <;> rfl

theorem find?_add (opened : 0 < levels.length) (name : String) (value : α) (sought : String) :
    (levels.add name value).find? sought =
      if sought = name then some value else levels.find? sought := by
  obtain ⟨level, outer, rfl⟩ := List.exists_cons_of_length_pos opened
  by_cases same : sought = name
  · simp [add, find?, same]
  · simp [add, find?, same, List.findSome?_cons, List.lookup_cons, beq_false_of_ne same]

theorem bindsInnermost_add (opened : 0 < levels.length) (name : String) (value : α)
    (sought : String) :
    (levels.add name value).bindsInnermost sought =
      (sought == name || levels.bindsInnermost sought) := by
  obtain ⟨level, outer, rfl⟩ := List.exists_cons_of_length_pos opened
  cases same : sought == name <;> simp [add, bindsInnermost, List.lookup_cons, same]

/-- A name is refused exactly where the innermost level binds it. -/
theorem bind_eq (opened : 0 < levels.length) (name : String) (value : α) :
    levels.bind name value =
      if levels.bindsInnermost name then .error .taken else .ok (levels.add name value) := by
  obtain ⟨level, outer, rfl⟩ := List.exists_cons_of_length_pos opened
  rfl

end Namespace

/-! ## Requests -/

/-- What can be asked of the scopes. -/
inductive Request where
  | push
  | pop
  | declare (declaration : Declaration)
  | define (name : String) (ty : Ty) (position : Position)

def Request.isDeclaration : Request → Bool
  | declare _ => true
  | _ => false

def Request.isDefinition : Request → Bool
  | define .. => true
  | _ => false

/-- A sequence in which every level that is opened is closed and no other. -/
inductive Balanced : List Request → Prop
  | nil : Balanced []
  | declare (declaration : Declaration) {rest : List Request} (others : Balanced rest) :
      Balanced (.declare declaration :: rest)
  | define (name : String) (ty : Ty) (position : Position) {rest : List Request}
      (others : Balanced rest) : Balanced (.define name ty position :: rest)
  | level {inner rest : List Request} (inside : Balanced inner) (others : Balanced rest) :
      Balanced (.push :: inner ++ .pop :: rest)

namespace Scopes

/-- What becomes of the scopes at a request, unless it is refused. -/
def perform (scopes : Scopes) : Request → Except CompileError Scopes
  | .push => .ok scopes.push
  | .pop => .ok scopes.pop
  | .declare declaration => scopes.declare declaration
  | .define name ty position => scopes.define name ty position

/-- The scopes behind a request, which stay as they are where it is refused. -/
def next (scopes : Scopes) (request : Request) : Scopes :=
  match scopes.perform request with
  | .ok after => after
  | .error _ => scopes

/-- The scopes behind a sequence of requests. -/
def after (scopes : Scopes) (requests : List Request) : Scopes :=
  requests.foldl next scopes

variable {scopes : Scopes}

theorem after_append (scopes : Scopes) (requests more : List Request) :
    scopes.after (requests ++ more) = (scopes.after requests).after more :=
  List.foldl_append

theorem declare_eq (opened : 0 < scopes.depth) (declaration : Declaration) :
    scopes.declare declaration =
      if scopes.values.bindsInnermost declaration.name then
        .error ⟨.alreadyDeclared declaration.name, declaration.position⟩
      else .ok ⟨scopes.types, scopes.values.add declaration.name declaration⟩ := by
  rw [declare, Namespace.bind_eq opened]
  cases scopes.values.bindsInnermost declaration.name <;> rfl

theorem define_eq (opened : 0 < scopes.types.length) (name : String) (ty : Ty)
    (position : Position) :
    scopes.define name ty position =
      if scopes.types.bindsInnermost name then .error ⟨.alreadyDefined name, position⟩
      else .ok ⟨scopes.types.add name ty, scopes.values⟩ := by
  rw [define, Namespace.bind_eq opened]
  cases scopes.types.bindsInnermost name <;> rfl

end Scopes

/-! ## Histories -/

/-- An entry of a history. -/
inductive Entry where
  | mark
  | value (declaration : Declaration)
  | type (name : String) (ty : Ty)

/-- The bindings that are still open and the marks of the open levels, newest first. -/
abbrev History := List Entry

namespace History

/-- The newest value of a name. -/
def findValue? : History → String → Option Declaration
  | [], _ => none
  | .value declaration :: earlier, name =>
    if name = declaration.name then some declaration else findValue? earlier name
  | .mark :: earlier, name | .type .. :: earlier, name => findValue? earlier name

/-- The newest type of a name; behind all of them the last of that name among the built-in ones. -/
def findType? (builtins : List (String × Ty)) : History → String → Option Ty
  | [], name => builtins.reverse.lookup name
  | .type bound ty :: earlier, name =>
    if name = bound then some ty else findType? builtins earlier name
  | .mark :: earlier, name | .value _ :: earlier, name => findType? builtins earlier name

/-- Whether a value of the name is bound in the current level. -/
def bindsValue : History → String → Bool
  | [], _ | .mark :: _, _ => false
  | .value declaration :: earlier, name => name == declaration.name || bindsValue earlier name
  | .type .. :: earlier, name => bindsValue earlier name

/-- Whether a type of the name is bound in the current level; the built-in ones are bound in the
outermost. -/
def bindsType (builtins : List (String × Ty)) : History → String → Bool
  | [], name => (builtins.reverse.lookup name).isSome
  | .mark :: _, _ => false
  | .type bound _ :: earlier, name => name == bound || bindsType builtins earlier name
  | .value _ :: earlier, name => bindsType builtins earlier name

/-- How many levels are open. -/
def levels : History → Nat
  | [] => 1
  | .mark :: earlier => levels earlier + 1
  | .value _ :: earlier | .type .. :: earlier => levels earlier

/-- What is behind the newest mark, if there is one. -/
def outer? : History → Option History
  | [] => none
  | .mark :: earlier => some earlier
  | .value _ :: earlier | .type .. :: earlier => outer? earlier

/-- The history behind a request. -/
def next (builtins : List (String × Ty)) (history : History) : Request → History
  | .push => .mark :: history
  | .pop => history.outer?.getD history
  | .declare declaration =>
    if history.bindsValue declaration.name then history else .value declaration :: history
  | .define name ty _ =>
    if history.bindsType builtins name then history else .type name ty :: history

/-- The history of a sequence of requests, from the beginning on. -/
def after (builtins : List (String × Ty)) (requests : List Request) : History :=
  requests.foldl (next builtins) []

theorem levels_pos (history : History) : 0 < history.levels := by
  induction history with
  | nil => exact Nat.one_pos
  | cons entry earlier ih =>
    cases entry with
    | mark => exact Nat.succ_pos _
    | value => exact ih
    | type => exact ih

end History

/-! ## The scopes of a history -/

namespace Scopes

/-- The levels that the marks of a history part. -/
def ofHistory (builtins : List (String × Ty)) : History → Scopes
  | [] => root builtins
  | .mark :: earlier => (ofHistory builtins earlier).push
  | .value declaration :: earlier =>
    ⟨(ofHistory builtins earlier).types,
      (ofHistory builtins earlier).values.add declaration.name declaration⟩
  | .type name ty :: earlier =>
    ⟨(ofHistory builtins earlier).types.add name ty, (ofHistory builtins earlier).values⟩

variable (builtins : List (String × Ty)) (history : History)

theorem depth_ofHistory : (ofHistory builtins history).depth = history.levels := by
  induction history with
  | nil => rfl
  | cons entry earlier ih =>
    cases entry with
    | mark => exact congrArg Nat.succ ih
    | value declaration => exact (Namespace.length_add ..).trans ih
    | type name ty => exact ih

theorem length_types_ofHistory : (ofHistory builtins history).types.length = history.levels := by
  induction history with
  | nil => rfl
  | cons entry earlier ih =>
    cases entry with
    | mark => exact congrArg Nat.succ ih
    | value declaration => exact ih
    | type name ty => exact (Namespace.length_add ..).trans ih

theorem opened_ofHistory : 0 < (ofHistory builtins history).depth := by
  rw [depth_ofHistory]
  exact history.levels_pos

theorem opened_types_ofHistory : 0 < (ofHistory builtins history).types.length := by
  rw [length_types_ofHistory]
  exact history.levels_pos

/-! ### Look-ups -/

theorem findValue?_ofHistory (name : String) :
    (ofHistory builtins history).findValue? name = history.findValue? name := by
  induction history with
  | nil => rfl
  | cons entry earlier ih =>
    cases entry with
    | mark => exact ih
    | value declaration =>
      rw [findValue?, ofHistory, Namespace.find?_add (opened_ofHistory builtins earlier),
        History.findValue?, ← ih]
      rfl
    | type bound ty => exact ih

theorem findType?_ofHistory (name : String) :
    (ofHistory builtins history).findType? name = history.findType? builtins name := by
  induction history with
  | nil => simp [ofHistory, root, findType?, Namespace.find?, History.findType?]
  | cons entry earlier ih =>
    cases entry with
    | mark => exact ih
    | value declaration => exact ih
    | type bound ty =>
      rw [findType?, ofHistory, Namespace.find?_add (opened_types_ofHistory builtins earlier),
        History.findType?, ← ih]
      rfl

theorem bindsInnermost_values_ofHistory (name : String) :
    (ofHistory builtins history).values.bindsInnermost name = history.bindsValue name := by
  induction history with
  | nil => rfl
  | cons entry earlier ih =>
    cases entry with
    | mark => rfl
    | value declaration =>
      rw [ofHistory, Namespace.bindsInnermost_add (opened_ofHistory builtins earlier),
        History.bindsValue, ih]
    | type bound ty => exact ih

theorem bindsInnermost_types_ofHistory (name : String) :
    (ofHistory builtins history).types.bindsInnermost name = history.bindsType builtins name := by
  induction history with
  | nil => rfl
  | cons entry earlier ih =>
    cases entry with
    | mark => rfl
    | value declaration => exact ih
    | type bound ty =>
      rw [ofHistory, Namespace.bindsInnermost_add (opened_types_ofHistory builtins earlier),
        History.bindsType, ih]

/-! ### Requests -/

/-- Behind the newest mark are the scopes with their innermost level closed. -/
theorem ofHistory_of_outer? {history earlier : History} (found : history.outer? = some earlier) :
    1 < history.levels ∧
      ofHistory builtins earlier =
        ⟨(ofHistory builtins history).types.tail, (ofHistory builtins history).values.tail⟩ := by
  induction history with
  | nil => cases found
  | cons entry further ih =>
    cases entry with
    | mark =>
      cases found
      exact ⟨Nat.succ_lt_succ (History.levels_pos _), rfl⟩
    | value declaration =>
      rw [ofHistory, Namespace.tail_add]
      exact ih found
    | type name ty =>
      rw [ofHistory, Namespace.tail_add]
      exact ih found

theorem levels_of_outer? {history : History} (unmarked : history.outer? = none) :
    history.levels = 1 := by
  induction history with
  | nil => rfl
  | cons entry earlier ih =>
    cases entry with
    | mark => cases unmarked
    | value declaration => exact ih unmarked
    | type name ty => exact ih unmarked

theorem pop_ofHistory :
    (ofHistory builtins history).pop = ofHistory builtins (history.outer?.getD history) := by
  rw [pop, depth_ofHistory]
  rcases found : history.outer? with _ | earlier
  · rw [levels_of_outer? found, if_neg (Nat.lt_irrefl 1)]
    rfl
  · obtain ⟨deep, closed⟩ := ofHistory_of_outer? builtins found
    rw [if_pos deep]
    exact closed.symm

/-- One request does to the scopes of a history what it does to the history. -/
theorem perform_ofHistory (request : Request) :
    (ofHistory builtins history).perform request =
      match request with
      | .declare declaration =>
        if history.bindsValue declaration.name then
          .error ⟨.alreadyDeclared declaration.name, declaration.position⟩
        else .ok (ofHistory builtins (history.next builtins request))
      | .define name _ position =>
        if history.bindsType builtins name then .error ⟨.alreadyDefined name, position⟩
        else .ok (ofHistory builtins (history.next builtins request))
      | _ => .ok (ofHistory builtins (history.next builtins request)) := by
  cases request with
  | push => rfl
  | pop => exact congrArg Except.ok (pop_ofHistory builtins history)
  | declare declaration =>
    simp only [perform, declare_eq (opened_ofHistory builtins history),
      bindsInnermost_values_ofHistory, History.next]
    split <;> rfl
  | define name ty position =>
    simp only [perform, define_eq (opened_types_ofHistory builtins history),
      bindsInnermost_types_ofHistory, History.next]
    split <;> rfl

theorem next_ofHistory (request : Request) :
    (ofHistory builtins history).next request =
      ofHistory builtins (history.next builtins request) := by
  rw [next, perform_ofHistory]
  cases request with
  | push => rfl
  | pop => rfl
  | declare declaration =>
    simp only [History.next]
    cases history.bindsValue declaration.name <;> rfl
  | define name ty position =>
    simp only [History.next]
    cases history.bindsType builtins name <;> rfl

/-- After any requests the scopes are those of the history. -/
theorem after_ofHistory (requests : List Request) :
    (root builtins).after requests = ofHistory builtins (History.after builtins requests) := by
  have from_ : ∀ history : History, (ofHistory builtins history).after requests =
      ofHistory builtins (requests.foldl (History.next builtins) history) := by
    intro history
    induction requests generalizing history with
    | nil => rfl
    | cons request rest ih =>
      rw [after, List.foldl_cons, next_ofHistory, List.foldl_cons]
      exact ih _
  exact from_ []

/-! ### Levels that are closed again -/

variable {scopes : Scopes}

theorem paired_next (paired : scopes.Paired) (request : Request) :
    (scopes.next request).Paired := by
  rw [next]
  split
  · next performed =>
    cases request with
    | push => exact Except.ok.inj performed ▸ paired.push
    | pop => exact Except.ok.inj performed ▸ paired.pop
    | declare declaration => exact paired.declare performed
    | define name ty position => exact paired.define performed
  · exact paired

theorem paired_after (paired : scopes.Paired) (requests : List Request) :
    (scopes.after requests).Paired := by
  induction requests generalizing scopes with
  | nil => exact paired
  | cons request rest ih => exact ih (paired_next paired request)

/-- A declaration leaves the types and the outer levels of the values. -/
theorem next_declare (declaration : Declaration) :
    (scopes.next (.declare declaration)).types = scopes.types ∧
      (scopes.next (.declare declaration)).values.tail = scopes.values.tail := by
  rw [next]
  split
  · next performed =>
    obtain ⟨gains, kept⟩ := declare_eq_ok.mp performed
    exact ⟨kept, gains.tail_eq⟩
  · exact ⟨rfl, rfl⟩

/-- A definition leaves the values and the outer levels of the types. -/
theorem next_define (name : String) (ty : Ty) (position : Position) :
    (scopes.next (.define name ty position)).values = scopes.values ∧
      (scopes.next (.define name ty position)).types.tail = scopes.types.tail := by
  rw [next]
  split
  · next performed =>
    obtain ⟨gains, kept⟩ := define_eq_ok.mp performed
    exact ⟨kept, gains.tail_eq⟩
  · exact ⟨rfl, rfl⟩

/-- Where the levels outside of the innermost are those of the scopes before, closing it leads back
to them. -/
theorem pop_eq_of_tails {inner : Scopes} (paired : scopes.Paired)
    (types : inner.types.tail = scopes.types) (values : inner.values.tail = scopes.values) :
    inner.pop = scopes := by
  have deep : 1 < inner.depth := by
    have opened := paired.opened
    rw [depth, ← values, List.length_tail] at opened
    rw [depth]
    omega
  rw [pop, if_pos deep, types, values]

/-- A balanced sequence leaves the outer levels of both namespaces. -/
theorem tails_after {segment : List Request} (balanced : Balanced segment)
    (paired : scopes.Paired) :
    (scopes.after segment).types.tail = scopes.types.tail ∧
      (scopes.after segment).values.tail = scopes.values.tail := by
  induction balanced generalizing scopes with
  | nil => exact ⟨rfl, rfl⟩
  | declare declaration _ ih =>
    obtain ⟨types, values⟩ := ih (paired_next paired (.declare declaration))
    obtain ⟨kept, outer⟩ := @next_declare scopes declaration
    exact ⟨types.trans (congrArg List.tail kept), values.trans outer⟩
  | define name ty position _ ih =>
    obtain ⟨types, values⟩ := ih (paired_next paired (.define name ty position))
    obtain ⟨kept, outer⟩ := @next_define scopes name ty position
    exact ⟨types.trans outer, values.trans (congrArg List.tail kept)⟩
  | @level inner rest _ _ ih ih_rest =>
    obtain ⟨types, values⟩ := ih paired.push
    have closed : (scopes.push.after inner).pop = scopes := pop_eq_of_tails paired types values
    have parted : scopes.after (.push :: inner ++ .pop :: rest) = scopes.after rest := by
      rw [after_append]
      exact congrArg (after · rest) closed
    rw [parted]
    exact ih_rest paired

/-- Opening a level and closing it behind a balanced sequence changes nothing. -/
theorem after_bracketed {segment : List Request} (balanced : Balanced segment)
    (paired : scopes.Paired) : scopes.after (.push :: segment ++ [.pop]) = scopes := by
  obtain ⟨types, values⟩ := tails_after balanced paired.push
  rw [after_append]
  exact pop_eq_of_tails paired types values

/-! ### The namespaces apart -/

/-- Requests find the values alike where the values are the same, and definitions leave them. -/
theorem values_after {other : Scopes} (same : scopes.values = other.values)
    (requests : List Request) :
    (scopes.after requests).values =
      (other.after (requests.filter (!·.isDefinition))).values := by
  induction requests generalizing scopes other with
  | nil => exact same
  | cons request rest ih =>
    cases request with
    | push => exact ih (congrArg ([] :: ·) same)
    | pop =>
      refine ih ?_
      show scopes.pop.values = other.pop.values
      rw [pop, pop, depth, depth, same]
      split
      · rfl
      · exact same
    | declare declaration =>
      refine ih ?_
      simp only [next, perform, declare, same]
      rcases other.values.bind declaration.name declaration with fault | values
      · cases fault <;> exact same
      · rfl
    | define name ty position => exact ih ((next_define name ty position).1.trans same)

/-- Requests find the types alike where the types and the levels are the same, and declarations
leave both. -/
theorem types_after {other : Scopes} (paired : scopes.Paired) (otherPaired : other.Paired)
    (same : scopes.types = other.types) (requests : List Request) :
    (scopes.after requests).types =
      (other.after (requests.filter (!·.isDeclaration))).types := by
  induction requests generalizing scopes other with
  | nil => exact same
  | cons request rest ih =>
    have paired' := paired_next paired request
    have otherPaired' := paired_next otherPaired request
    cases request with
    | push => exact ih paired' otherPaired' (congrArg ([] :: ·) same)
    | pop =>
      refine ih paired' otherPaired' ?_
      show scopes.pop.types = other.pop.types
      rw [pop, pop, depth, depth, ← paired.level, ← otherPaired.level, same]
      split
      · rfl
      · exact same
    | declare declaration =>
      exact ih paired' otherPaired ((next_declare declaration).1.trans same)
    | define name ty position =>
      refine ih paired' otherPaired' ?_
      simp only [next, perform, define, same]
      rcases other.types.bind name ty with fault | types
      · cases fault <;> exact same
      · rfl

end Scopes

/-! ## The refinement -/

/-- What the scopes behind a sequence of requests have to do with its history. -/
structure RefinesHistory (builtins : List (String × Ty)) (requests : List Request)
    (scopes : Scopes) (history : History) : Prop where
  findType : ∀ name, scopes.findType? name = history.findType? builtins name
  findValue : ∀ name, scopes.findValue? name = history.findValue? name
  declare : ∀ declaration, (∃ error, scopes.declare declaration = .error error) ↔
    history.bindsValue declaration.name = true
  define : ∀ name ty position, (∃ error, scopes.define name ty position = .error error) ↔
    history.bindsType builtins name = true
  /-- What is refused leaves the scopes. -/
  refused : ∀ request error, scopes.perform request = .error error → scopes.next request = scopes
  /-- The values are what they are without the definitions of types, -/
  values : scopes.values =
    ((Scopes.root builtins).after (requests.filter (!·.isDefinition))).values
  /-- and the types what they are without the declarations of values. -/
  types : scopes.types =
    ((Scopes.root builtins).after (requests.filter (!·.isDeclaration))).types
  levels : scopes.types.length = history.levels ∧ scopes.values.length = history.levels ∧
    1 ≤ history.levels
  depth : scopes.depth = history.levels
  /-- The outermost level stays open. -/
  pop : scopes.depth = 1 → scopes.pop = scopes
  bracketed : ∀ segment, Balanced segment → scopes.after (.push :: segment ++ [.pop]) = scopes

/-- After any requests the scopes are told from their history. -/
theorem refinesHistory (builtins : List (String × Ty)) (requests : List Request) :
    RefinesHistory builtins requests ((Scopes.root builtins).after requests)
      (History.after builtins requests) := by
  have paired := Scopes.paired_after (Scopes.paired_root builtins) requests
  refine
    { findType := fun name => ?findType
      findValue := fun name => ?findValue
      declare := fun declaration => ?declare
      define := fun name ty position => ?define
      refused := fun request error refusal => ?refused
      values := Scopes.values_after rfl requests
      types := Scopes.types_after (Scopes.paired_root builtins) (Scopes.paired_root builtins) rfl
        requests
      levels := ⟨?typeLevels, ?valueLevels, History.levels_pos _⟩
      depth := ?depth
      pop := fun outermost => ?pop
      bracketed := fun segment balanced => Scopes.after_bracketed balanced paired }
  case findType => rw [Scopes.after_ofHistory, Scopes.findType?_ofHistory]
  case findValue => rw [Scopes.after_ofHistory, Scopes.findValue?_ofHistory]
  case declare =>
    rw [Scopes.declare_eq paired.opened, Scopes.after_ofHistory,
      Scopes.bindsInnermost_values_ofHistory]
    cases (History.after builtins requests).bindsValue declaration.name <;> simp
  case define =>
    have opened := paired.opened
    rw [Scopes.depth, ← paired.level] at opened
    rw [Scopes.define_eq opened, Scopes.after_ofHistory, Scopes.bindsInnermost_types_ofHistory]
    cases (History.after builtins requests).bindsType builtins name <;> simp
  case refused => rw [Scopes.next, refusal]
  case typeLevels => rw [Scopes.after_ofHistory, Scopes.length_types_ofHistory]
  case valueLevels =>
    rw [Scopes.after_ofHistory]
    exact Scopes.depth_ofHistory builtins _
  case depth => rw [Scopes.after_ofHistory, Scopes.depth_ofHistory]
  case pop => rw [Scopes.pop, if_neg (by omega)]

end MiniC
