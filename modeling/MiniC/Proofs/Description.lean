/-
# MiniC.Proofs.Description — what the text of a type tells

Diagnostics show a type in words: the name of a built-in type or of a `distinct` definition, or a
pointer, an array or a function in terms of its parts. Where names are runs of name characters, none
of them that of a built-in type, and each is that of one instance, the words tell the type: the text
of a type ends where the next character is a comma or a closing parenthesis, or there is none, and
its first word tells what it is, since a name is not followed by a space.

* `Ty.Built` — the types that are built from the built-in ones and those that definitions make.
* `Ty.outline` — a type apart from what tells its unnamed instances apart.
* `Ty.Built.outline_eq` — types of one text are of one outline, and so they are compatible.
* `Ty.Built.scalars` — what has no parts is a built-in instance or one that a definition makes.
-/
import MiniC.Proofs.Canonical
import MiniC.Proofs.Segmentation.Word

namespace MiniC

set_option autoImplicit false

/-- A run of name characters that is not empty. -/
structure IsName (name : String) : Prop where
  nonempty : name.toList ≠ []
  run : ∀ c ∈ name.toList, isNameChar c = true

namespace Ty

/-! ## Types that are built -/

/-- The types that are built from the built-in ones. A definition makes a named copy of such a type;
`made` tells which copies are made, under which names. -/
inductive Built (made : String → Ty → Prop) : Ty → Prop
  | builtin {name : String} {ty : Ty} (known : (name, ty) ∈ builtins) : Built made ty
  | distinct {name : String} {origin : Origin} {base : Ty} (built : Built made base)
      (copied : made name (base.distinctAt origin name)) : Built made (base.distinctAt origin name)
  | pointer {place : Position} {pointee : Ty} (built : Built made pointee) :
      Built made (.pointer ⟨.site place, none⟩ pointee)
  | array {place : Position} {element : Ty} {count : UInt64} (built : Built made element) :
      Built made (.array ⟨.site place, none⟩ element count)
  | function {place : Position} {result : Ty} {parameters : List (Parameter Ty)}
      (built : Built made result) (each : ∀ parameter ∈ parameters, Built made parameter.ty) :
      Built made (.function ⟨.site place, none⟩ result parameters)

/-- Every name is that of one instance, and that of no built-in type. -/
structure WellNamed (made : String → Ty → Prop) : Prop where
  once : ∀ {name : String} {one other : Ty}, made name one → made name other → one = other
  isName : ∀ {name : String} {ty : Ty}, made name ty → IsName name
  free : ∀ {name : String} {one other : Ty}, made name one → (name, other) ∉ builtins

theorem label_distinctAt (origin : Origin) (name : String) (base : Ty) :
    (base.distinctAt origin name).label = some name := by
  cases base <;> rfl

/-- A type with a name shows it alone. -/
theorem describe_of_label {ty : Ty} {name : String} (named : ty.label = some name) :
    ty.describe = name := by
  cases ty <;> simp only [label, tag] at named <;> simp [describe, named]

theorem describe_builtin {name : String} {ty : Ty} (known : (name, ty) ∈ builtins) :
    ty.describe = name := by
  have all : ∀ entry ∈ builtins, entry.2.describe = entry.1 := by decide
  exact all (name, ty) known

theorem isName_builtin {name : String} {ty : Ty} (known : (name, ty) ∈ builtins) :
    IsName name := by
  have all : ∀ entry ∈ builtins, entry.1.toList ≠ [] ∧ entry.1.toList.all isNameChar = true := by
    decide
  obtain ⟨nonempty, run⟩ := all (name, ty) known
  exact ⟨nonempty, List.all_eq_true.mp run⟩

theorem builtin_once {name : String} {one other : Ty} (known : (name, one) ∈ builtins)
    (otherKnown : (name, other) ∈ builtins) : one = other := by
  have all : ∀ entry ∈ builtins, ∀ other ∈ builtins, entry.1 = other.1 → entry.2 = other.2 := by
    decide
  exact all _ known _ otherKnown rfl

/-! ## What has no parts -/

mutual

/-- The types without components that a type is made of. -/
def scalars : Ty → List Ty
  | scalar tag kind => [scalar tag kind]
  | pointer _ pointee => pointee.scalars
  | array _ element _ => element.scalars
  | function _ result parameters => result.scalars ++ scalarsAll parameters

def scalarsAll : List (Parameter Ty) → List Ty
  | [] => []
  | parameter :: rest => parameter.ty.scalars ++ scalarsAll rest

end

theorem exists_mem_of_scalarsAll {parameters : List (Parameter Ty)} {ty : Ty}
    (member : ty ∈ scalarsAll parameters) :
    ∃ parameter ∈ parameters, ty ∈ parameter.ty.scalars := by
  induction parameters with
  | nil => cases member
  | cons parameter rest ih =>
    rcases List.mem_append.mp member with here | later
    · exact ⟨parameter, List.mem_cons_self, here⟩
    · obtain ⟨other, within, there⟩ := ih later
      exact ⟨other, List.mem_cons_of_mem _ within, there⟩

theorem mem_scalarsAll {parameters : List (Parameter Ty)} {parameter : Parameter Ty}
    (member : parameter ∈ parameters) {part : Ty} (inside : part ∈ parameter.ty.scalars) :
    part ∈ scalarsAll parameters := by
  induction member with
  | head => exact List.mem_append_left _ inside
  | tail _ _ ih => exact List.mem_append_right _ ih

/-- A copy of a type with components has the same ones. -/
theorem scalars_retag (tag : Tag) (ty : Ty) :
    (ty.retag tag).scalars = ty.scalars ∨ (ty.retag tag).scalars = [ty.retag tag] := by
  cases ty with
  | scalar => exact .inr rfl
  | pointer | array | function => exact .inl rfl

/-- What has no parts is a built-in instance or one that a definition makes. -/
theorem Built.scalars {made : String → Ty → Prop} {ty : Ty} (built : Built made ty) :
    ∀ part ∈ ty.scalars, (∃ name, (name, part) ∈ builtins) ∨ ∃ name, made name part := by
  induction built with
  | @builtin name ty known =>
    have single : ∀ entry ∈ builtins, entry.2.scalars = [entry.2] := by decide
    intro part member
    obtain rfl := List.mem_singleton.mp (single _ known ▸ member)
    exact .inl ⟨name, known⟩
  | @distinct name origin base _ copied ih =>
    intro part member
    rcases scalars_retag ⟨origin, some name⟩ base with same | single
    · exact ih part (same ▸ member)
    · obtain rfl := List.mem_singleton.mp (single ▸ member)
      exact .inr ⟨name, copied⟩
  | pointer _ ih => exact ih
  | array _ ih => exact ih
  | function _ _ ih each =>
    intro part member
    rcases List.mem_append.mp member with here | there
    · exact ih part here
    · obtain ⟨parameter, within, inside⟩ := exists_mem_of_scalarsAll there
      exact each parameter within part inside

/-! ## Outlines -/

/-- What all unnamed instances have in an outline. -/
def unnamed : Tag := ⟨.builtin, none⟩

mutual

/-- A type up to where its unnamed pointers, arrays and functions were made, and up to the names
and places of their parameters. An instance with a name stays as it is. -/
def outline : Ty → Ty
  | scalar tag kind => scalar tag kind
  | pointer tag pointee =>
    if tag.label.isSome then pointer tag pointee else pointer unnamed pointee.outline
  | array tag element count =>
    if tag.label.isSome then array tag element count else array unnamed element.outline count
  | function tag result parameters =>
    if tag.label.isSome then function tag result parameters
    else function unnamed result.outline (outlineAll parameters)

def outlineAll : List (Parameter Ty) → List (Parameter Ty)
  | [] => []
  | parameter :: rest => ⟨none, parameter.ty.outline, Position.start⟩ :: outlineAll rest

end

theorem canonicalAll_outlineAll_of {parameters : List (Parameter Ty)}
    (each : ∀ parameter ∈ parameters, parameter.ty.outline.canonical = parameter.ty.canonical) :
    canonicalAll (outlineAll parameters) = canonicalAll parameters := by
  induction parameters with
  | nil => rfl
  | cons parameter rest ih =>
    rw [outlineAll, canonicalAll, canonicalAll, each parameter List.mem_cons_self,
      ih fun other member => each other (List.mem_cons_of_mem _ member)]

theorem canonical_outline (ty : Ty) : ty.outline.canonical = ty.canonical := by
  induction ty using induct with
  | scalar tag kind => rfl
  | pointer tag pointee ih =>
    rw [outline]
    split
    · rfl
    · rw [canonical, canonical, ih]
  | array tag element count ih =>
    rw [outline]
    split
    · rfl
    · rw [canonical, canonical, ih]
  | function tag result parameters _ ih =>
    rw [outline]
    split
    · rfl
    · rw [canonical, canonical, canonicalAll_outlineAll_of ih]

/-- Types of one outline are compatible. -/
theorem compatible_of_outline_eq {one other : Ty} (same : one.outline = other.outline) :
    one.compatible other = true := by
  rw [compatible_iff, ← canonical_outline one, same, canonical_outline]

/-! ## Where a text ends -/

/-- What may follow the text of a type: nothing, a comma or a closing parenthesis. -/
def Closes (rest : List Char) : Prop :=
  ∀ c ∈ rest.head?, c = ',' ∨ c = ')'

theorem closes_nil : Closes [] := fun _ member => nomatch member

theorem closes_comma (rest : List Char) : Closes (',' :: rest) :=
  fun _ member => .inl (Option.some.inj member).symm

theorem closes_paren (rest : List Char) : Closes (')' :: rest) :=
  fun _ member => .inr (Option.some.inj member).symm

/-- The text goes on with no name character. -/
def Breaks (rest : List Char) : Prop :=
  ∀ c ∈ rest.head?, isNameChar c = false

theorem Closes.breaks {rest : List Char} (closes : Closes rest) : Breaks rest := by
  intro c member
  rcases closes c member with rfl | rfl <;> decide

theorem breaks_space (rest : List Char) : Breaks (' ' :: rest) := by
  intro c member
  obtain rfl : ' ' = c := Option.some.inj member
  decide

/-- A run of name characters ends where the text goes on with another one. -/
theorem run_append_inj {word otherWord rest otherRest : List Char}
    (run : ∀ c ∈ word, isNameChar c = true) (otherRun : ∀ c ∈ otherWord, isNameChar c = true)
    (breaks : Breaks rest) (otherBreaks : Breaks otherRest)
    (same : word ++ rest = otherWord ++ otherRest) : word = otherWord ∧ rest = otherRest := by
  have taken : ∀ {word rest : List Char}, (∀ c ∈ word, isNameChar c = true) → Breaks rest →
      (word ++ rest).takeWhile isNameChar = word := by
    intro word rest run breaks
    rw [List.takeWhile_append_of_pos run]
    cases rest with
    | nil => simp
    | cons c others => simp [breaks c rfl]
  have words : word = otherWord := by
    rw [← taken run breaks, same, taken otherRun otherBreaks]
  subst words
  exact ⟨rfl, List.append_cancel_left same⟩

/-- A number is a run of digits, which tells it. -/
theorem count_append_inj {count otherCount : UInt64} {rest otherRest : List Char}
    (breaks : Breaks rest) (otherBreaks : Breaks otherRest)
    (same : (toString count).toList ++ rest = (toString otherCount).toList ++ otherRest) :
    count = otherCount ∧ rest = otherRest := by
  have digits : ∀ count : UInt64, (toString count).toList = Nat.toDigits 10 count.toNat := by
    intro count
    simp [toString, Nat.repr]
  have run : ∀ count : UInt64, ∀ c ∈ (toString count).toList, isNameChar c = true := by
    intro count c member
    rw [digits] at member
    exact isNameChar_of_isDigit (Nat.isDigit_of_mem_toDigits (by decide) (by decide) member)
  obtain ⟨words, rests⟩ := run_append_inj (run count) (run otherCount) breaks otherBreaks same
  rw [digits, digits] at words
  have values := congrArg (Nat.ofDigitChars 10 · 0) words
  simp only [Nat.ofDigitChars_toDigits (b := 10) (by decide) (by decide)] at values
  exact ⟨UInt64.toNat_inj.mp values, rests⟩

/-! ## First words -/

section Texts

variable {made : String → Ty → Prop} {one other : Ty} {name word otherWord : String}
  {rest otherRest more : List Char}

/-- The type shows this name, which is built in or that of an instance that a definition makes. -/
structure Shows (made : String → Ty → Prop) (name : String) (ty : Ty) : Prop where
  text : ty.describe = name
  known : (name, ty) ∈ builtins ∨ made name ty

theorem shows_builtin (known : (name, one) ∈ builtins) : Shows made name one :=
  ⟨describe_builtin known, .inl known⟩

theorem shows_distinct {origin : Origin} {base : Ty}
    (copied : made name (base.distinctAt origin name)) :
    Shows made name (base.distinctAt origin name) :=
  ⟨describe_of_label (label_distinctAt origin name base), .inr copied⟩

theorem Shows.isName (named : Shows made name one) (wellNamed : WellNamed made) : IsName name := by
  rcases named.known with known | copied
  · exact isName_builtin known
  · exact wellNamed.isName copied

theorem Shows.once (wellNamed : WellNamed made) (named : Shows made name one)
    (otherNamed : Shows made name other) : one = other := by
  rcases named.known with known | copied <;> rcases otherNamed.known with otherKnown | otherCopied
  · exact builtin_once known otherKnown
  · exact absurd known (wellNamed.free otherCopied)
  · exact absurd otherKnown (wellNamed.free copied)
  · exact wellNamed.once copied otherCopied

/-- A name is not followed by a space. -/
theorem name_append_ne (isWord : IsName word) (isName : IsName name) (closes : Closes rest) :
    word.toList ++ ' ' :: more ≠ name.toList ++ rest := by
  intro same
  obtain ⟨_, rfl⟩ := run_append_inj isWord.run isName.run (breaks_space _) closes.breaks same
  rcases closes ' ' rfl with comma | paren
  · exact absurd comma (by decide)
  · exact absurd paren (by decide)

theorem words_append_inj (isWord : IsName word) (isOther : IsName otherWord)
    (same : word.toList ++ ' ' :: rest = otherWord.toList ++ ' ' :: otherRest) :
    word = otherWord ∧ rest = otherRest := by
  obtain ⟨words, rests⟩ := run_append_inj isWord.run isOther.run (breaks_space _) (breaks_space _)
    same
  exact ⟨String.toList_inj.mp words, (List.cons.inj rests).2⟩

theorem isName_pointer : IsName "pointer" :=
  ⟨by decide, List.all_eq_true.mp (by decide)⟩

theorem isName_array : IsName "array" :=
  ⟨by decide, List.all_eq_true.mp (by decide)⟩

theorem isName_function : IsName "function" :=
  ⟨by decide, List.all_eq_true.mp (by decide)⟩

/-- The texts of the entries of a parameter list, with commas between. -/
def entries (parameters : List (Parameter Ty)) : List Char :=
  (", ".intercalate (describeAll parameters)).toList

theorem text_pointer (place : Position) (pointee : Ty) (rest : List Char) :
    (pointer ⟨.site place, none⟩ pointee).describe.toList ++ rest =
      "pointer".toList ++ ' ' :: ("to ".toList ++ (pointee.describe.toList ++ rest)) := by
  simp [describe]

theorem text_array (place : Position) (element : Ty) (count : UInt64) (rest : List Char) :
    (array ⟨.site place, none⟩ element count).describe.toList ++ rest =
      "array".toList ++ ' ' :: ((toString count).toList ++
        ' ' :: ("of ".toList ++ (element.describe.toList ++ rest))) := by
  simp [describe]

theorem text_function (place : Position) (result : Ty) (parameters : List (Parameter Ty))
    (rest : List Char) :
    (function ⟨.site place, none⟩ result parameters).describe.toList ++ rest =
      "function".toList ++ ' ' :: '(' :: (entries parameters ++
        ')' :: (" returning ".toList ++ (result.describe.toList ++ rest))) := by
  simp [describe, entries]

theorem entries_cons (parameter : Parameter Ty) (rest : List (Parameter Ty)) :
    entries (parameter :: rest) = parameter.ty.describe.toList ++
      if rest.isEmpty then [] else ',' :: ' ' :: entries rest := by
  cases rest with
  | nil => simp [entries, describeAll]
  | cons => simp [entries, describeAll]

/-- The text of a type begins with a name character. -/
theorem Built.text_ne (wellNamed : WellNamed made) (built : Built made one) {c : Char}
    (outside : isNameChar c = false) : one.describe.toList ++ rest ≠ c :: otherRest := by
  intro same
  have ofWord : ∀ {word : String} {more : List Char}, IsName word →
      word.toList ++ more = c :: otherRest → False := by
    intro word more isWord same
    obtain ⟨d, others, begins⟩ := List.exists_cons_of_ne_nil isWord.nonempty
    rw [begins, List.cons_append] at same
    have inside := isWord.run d (begins ▸ List.mem_cons_self)
    rw [(List.cons.inj same).1, outside] at inside
    cases inside
  cases built with
  | builtin known =>
    rw [describe_builtin known] at same
    exact ofWord (isName_builtin known) same
  | distinct _ copied =>
    rw [(shows_distinct copied).text] at same
    exact ofWord (wellNamed.isName copied) same
  | pointer =>
    rw [text_pointer] at same
    exact ofWord isName_pointer same
  | array =>
    rw [text_array] at same
    exact ofWord isName_array same
  | function =>
    rw [text_function] at same
    exact ofWord isName_function same

/-! ## Texts tell outlines -/

/-- In front of what may follow, the text of the type is that of types of its outline only. -/
def Tells (made : String → Ty → Prop) (one : Ty) : Prop :=
  ∀ (other : Ty) (rest otherRest : List Char), Built made other → Closes rest →
    Closes otherRest → one.describe.toList ++ rest = other.describe.toList ++ otherRest →
    one.outline = other.outline ∧ rest = otherRest

variable (wellNamed : WellNamed made)

include wellNamed

theorem tells_of_shows (named : Shows made name one) : Tells made one := by
  have isName := named.isName wellNamed
  intro other rest otherRest built closes otherCloses same
  rw [named.text] at same
  have ofName : ∀ {otherName}, Shows made otherName other →
      one.outline = other.outline ∧ rest = otherRest := by
    intro otherName otherNamed
    rw [otherNamed.text] at same
    obtain ⟨words, rests⟩ := run_append_inj isName.run (otherNamed.isName wellNamed).run
      closes.breaks otherCloses.breaks same
    obtain rfl := String.toList_inj.mp words
    exact ⟨congrArg outline (named.once wellNamed otherNamed), rests⟩
  cases built with
  | builtin known => exact ofName (shows_builtin known)
  | distinct _ copied => exact ofName (shows_distinct copied)
  | pointer =>
    rw [text_pointer] at same
    exact absurd same.symm (name_append_ne isName_pointer isName closes)
  | array =>
    rw [text_array] at same
    exact absurd same.symm (name_append_ne isName_array isName closes)
  | function =>
    rw [text_function] at same
    exact absurd same.symm (name_append_ne isName_function isName closes)

/-- A text that goes on behind its first word with a space is not that of a type with a name. -/
theorem Shows.append_ne (named : Shows made name other) (isWord : IsName word)
    (closes : Closes otherRest) :
    word.toList ++ ' ' :: more ≠ other.describe.toList ++ otherRest := by
  rw [named.text]
  exact name_append_ne isWord (named.isName wellNamed) closes

theorem tells_pointer {place : Position} {pointee : Ty} (tells : Tells made pointee) :
    Tells made (pointer ⟨.site place, none⟩ pointee) := by
  intro other rest otherRest built closes otherCloses same
  rw [text_pointer] at same
  cases built with
  | builtin known =>
    exact absurd same ((shows_builtin known).append_ne wellNamed isName_pointer otherCloses)
  | distinct _ copied =>
    exact absurd same ((shows_distinct copied).append_ne wellNamed isName_pointer otherCloses)
  | pointer built =>
    rw [text_pointer] at same
    obtain ⟨_, tails⟩ := words_append_inj isName_pointer isName_pointer same
    obtain ⟨outlines, rests⟩ :=
      tells _ _ _ built closes otherCloses (List.append_cancel_left tails)
    exact ⟨congrArg (pointer unnamed) outlines, rests⟩
  | array =>
    rw [text_array] at same
    exact absurd (words_append_inj isName_pointer isName_array same).1 (by decide)
  | function =>
    rw [text_function] at same
    exact absurd (words_append_inj isName_pointer isName_function same).1 (by decide)

theorem tells_array {place : Position} {element : Ty} {count : UInt64}
    (tells : Tells made element) : Tells made (array ⟨.site place, none⟩ element count) := by
  intro other rest otherRest built closes otherCloses same
  rw [text_array] at same
  cases built with
  | builtin known =>
    exact absurd same ((shows_builtin known).append_ne wellNamed isName_array otherCloses)
  | distinct _ copied =>
    exact absurd same ((shows_distinct copied).append_ne wellNamed isName_array otherCloses)
  | pointer =>
    rw [text_pointer] at same
    exact absurd (words_append_inj isName_array isName_pointer same).1 (by decide)
  | array built =>
    rw [text_array] at same
    obtain ⟨_, tails⟩ := words_append_inj isName_array isName_array same
    obtain ⟨rfl, behind⟩ := count_append_inj (breaks_space _) (breaks_space _) tails
    obtain ⟨outlines, rests⟩ := tells _ _ _ built closes otherCloses
      (List.append_cancel_left (List.cons.inj behind).2)
    exact ⟨congrArg (array unnamed · _) outlines, rests⟩
  | function =>
    rw [text_function] at same
    exact absurd (words_append_inj isName_array isName_function same).1 (by decide)

/-- Parameter lists of one text have entries of the same outlines. -/
theorem tells_entries {parameters others : List (Parameter Ty)}
    (tells : ∀ parameter ∈ parameters, Tells made parameter.ty)
    (built : ∀ parameter ∈ parameters, Built made parameter.ty)
    (otherBuilt : ∀ parameter ∈ others, Built made parameter.ty)
    (same : entries parameters ++ ')' :: rest = entries others ++ ')' :: otherRest) :
    outlineAll parameters = outlineAll others ∧ rest = otherRest := by
  have noParen : isNameChar ')' = false := by decide
  induction parameters generalizing others with
  | nil =>
    cases others with
    | nil => exact ⟨rfl, (List.cons.inj same).2⟩
    | cons other otherMore =>
      rw [entries_cons, List.append_assoc] at same
      exact absurd same.symm
        ((otherBuilt other List.mem_cons_self).text_ne wellNamed noParen)
  | cons parameter more ih =>
    cases others with
    | nil =>
      rw [entries_cons, List.append_assoc] at same
      exact absurd same ((built parameter List.mem_cons_self).text_ne wellNamed noParen)
    | cons other otherMore =>
      rw [entries_cons, entries_cons, List.append_assoc, List.append_assoc] at same
      -- Behind an entry stands the comma in front of the next one, or the parenthesis.
      have closes : ∀ (more : List (Parameter Ty)) (rest : List Char),
          Closes ((if more.isEmpty then [] else ',' :: ' ' :: entries more) ++ ')' :: rest) := by
        intro more rest
        cases more with
        | nil => exact closes_paren rest
        | cons => exact closes_comma _
      obtain ⟨outlines, tails⟩ := tells parameter List.mem_cons_self _ _ _
        (otherBuilt other List.mem_cons_self) (closes more rest) (closes otherMore otherRest) same
      cases more with
      | nil =>
        cases otherMore with
        | nil => exact ⟨by rw [outlineAll, outlineAll, outlines]; rfl, (List.cons.inj tails).2⟩
        | cons => exact absurd (List.cons.inj tails).1 (by decide)
      | cons =>
        cases otherMore with
        | nil => exact absurd (List.cons.inj tails).1 (by decide)
        | cons =>
          obtain ⟨later, rests⟩ := ih
            (fun parameter member => tells parameter (List.mem_cons_of_mem _ member))
            (fun parameter member => built parameter (List.mem_cons_of_mem _ member))
            (fun parameter member => otherBuilt parameter (List.mem_cons_of_mem _ member))
            (List.cons.inj (List.cons.inj tails).2).2
          exact ⟨by rw [outlineAll, outlines, later]; rfl, rests⟩

theorem tells_function {place : Position} {result : Ty} {parameters : List (Parameter Ty)}
    (tells : Tells made result) (each : ∀ parameter ∈ parameters, Tells made parameter.ty)
    (allBuilt : ∀ parameter ∈ parameters, Built made parameter.ty) :
    Tells made (function ⟨.site place, none⟩ result parameters) := by
  intro other rest otherRest built closes otherCloses same
  rw [text_function] at same
  cases built with
  | builtin known =>
    exact absurd same ((shows_builtin known).append_ne wellNamed isName_function otherCloses)
  | distinct _ copied =>
    exact absurd same ((shows_distinct copied).append_ne wellNamed isName_function otherCloses)
  | pointer =>
    rw [text_pointer] at same
    exact absurd (words_append_inj isName_function isName_pointer same).1 (by decide)
  | array =>
    rw [text_array] at same
    exact absurd (words_append_inj isName_function isName_array same).1 (by decide)
  | function built otherBuilt =>
    rw [text_function] at same
    obtain ⟨_, tails⟩ := words_append_inj isName_function isName_function same
    obtain ⟨lists, tails⟩ :=
      tells_entries wellNamed each allBuilt otherBuilt (List.cons.inj tails).2
    obtain ⟨outlines, rests⟩ := tells _ _ _ built closes otherCloses
      (List.append_cancel_left tails)
    refine ⟨?_, rests⟩
    show function unnamed result.outline (outlineAll parameters) = _
    rw [outlines, lists]
    rfl

theorem tells_of_built (built : Built made one) : Tells made one := by
  induction built with
  | builtin known => exact tells_of_shows wellNamed (shows_builtin known)
  | distinct _ copied => exact tells_of_shows wellNamed (shows_distinct copied)
  | pointer _ ih => exact tells_pointer wellNamed ih
  | array _ ih => exact tells_array wellNamed ih
  | function _ allBuilt ih each => exact tells_function wellNamed ih each allBuilt

/-- Types of one text are of one outline. -/
theorem Built.outline_eq (built : Built made one) (otherBuilt : Built made other)
    (same : one.describe = other.describe) : one.outline = other.outline := by
  refine (tells_of_built wellNamed built other [] [] otherBuilt closes_nil closes_nil ?_).1
  rw [same]

end Texts

end Ty

end MiniC
