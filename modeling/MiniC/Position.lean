/-
# MiniC.Position — places in a source text

A place is a byte offset into the UTF-8 form of the text together with a line and a column, both
counted from one. Only a line feed starts a new line; every other character, a tab or a carriage
return included, is one column wide.

* `Position.after p text` — the place reached from `p` by reading `text`.
* `after_append` — reading in two parts is reading at once.
* `offset_after`, `line_after` — the offset grows by the bytes of the text, the line by its line
  feeds.
-/

namespace MiniC

set_option autoImplicit false

/-- A place in a source text: a byte offset, and a line and column counted from one. -/
structure Position where
  offset : Nat
  line : Nat
  column : Nat
  deriving DecidableEq, Repr, Inhabited

/-- The number of bytes of the UTF-8 form of `text`. -/
def byteLength (text : List Char) : Nat :=
  text.foldr (fun c bytes => c.utf8Size + bytes) 0

@[simp] theorem byteLength_nil : byteLength [] = 0 := rfl

@[simp] theorem byteLength_cons (c : Char) (text : List Char) :
    byteLength (c :: text) = c.utf8Size + byteLength text := rfl

@[simp] theorem byteLength_append (text more : List Char) :
    byteLength (text ++ more) = byteLength text + byteLength more := by
  induction text with
  | nil => simp
  | cons c text ih => simp [ih, Nat.add_assoc]

namespace Position

/-- Where every text begins. -/
def start : Position := ⟨0, 1, 1⟩

/-- The place just after the character `c` standing at `p`. -/
def step (p : Position) (c : Char) : Position :=
  if c = '\n' then ⟨p.offset + c.utf8Size, p.line + 1, 1⟩
  else ⟨p.offset + c.utf8Size, p.line, p.column + 1⟩

/-- The place just after `text` standing at `p`. -/
def after (p : Position) (text : List Char) : Position :=
  text.foldl step p

@[simp] theorem after_nil (p : Position) : p.after [] = p := rfl

@[simp] theorem after_cons (p : Position) (c : Char) (text : List Char) :
    p.after (c :: text) = (p.step c).after text := rfl

theorem after_append (p : Position) (text more : List Char) :
    p.after (text ++ more) = (p.after text).after more := by
  simp [after]

@[simp] theorem offset_step (p : Position) (c : Char) :
    (p.step c).offset = p.offset + c.utf8Size := by
  unfold step; split <;> rfl

theorem offset_after (p : Position) (text : List Char) :
    (p.after text).offset = p.offset + byteLength text := by
  induction text generalizing p with
  | nil => rfl
  | cons c text ih => simp [ih, Nat.add_assoc]

theorem line_after (p : Position) (text : List Char) :
    (p.after text).line = p.line + text.count '\n' := by
  induction text generalizing p with
  | nil => rfl
  | cons c text ih =>
    rw [after_cons, ih]
    by_cases lineFeed : c = '\n'
    · simp [step, lineFeed, Nat.add_assoc, Nat.add_comm 1]
    · simp [step, lineFeed]

/-- A place as diagnostics show it: the path of the text, the line and the column. -/
def render (path : String) (p : Position) : String :=
  path ++ ":" ++ toString p.line ++ ":" ++ toString p.column

/-- A message about a place. -/
def renderMessage (path : String) (p : Position) (message : String) : String :=
  p.render path ++ ": " ++ message

/-- A place with everything it holds. -/
def renderFull (path : String) (p : Position) : String :=
  "SourcePosition(" ++ p.render path ++ " @" ++ toString p.offset ++ ")"

end Position

end MiniC
