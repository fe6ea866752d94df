import Mathlib.Data.List.DropRight

namespace Gqlforge.Combinators

abbrev Parser (A : Type) := List Char → Option (A × List Char)

section

variable {A B : Type}

def char (c : Char) : Parser Char
  | first :: rest => if first = c then some (c, rest) else none
  | [] => none

def tag (word : List Char) : Parser (List Char) := fun input =>
  if word.isPrefixOf input then some (word, input.drop word.length) else none

def takeWhile1 (p : Char → Bool) : Parser (List Char) := fun input =>
  if (input.takeWhile p).isEmpty then none else some (input.takeWhile p, input.dropWhile p)

def isBlank (c : Char) : Bool :=
  c == ' ' || c == '\t' || c == '\r' || c == '\n'

def multispace0 (input : List Char) : List Char :=
  input.dropWhile isBlank

def alt (p q : Parser A) : Parser A := fun input =>
  p input <|> q input

def many0 (p : Parser A) (input : List Char) : Option (List A × List Char) :=
  match p input with
  | none => some ([], input)
  | some (first, rest) =>
    if rest.length < input.length then (many0 p rest).map fun (items, rest) => (first :: items, rest) else none
termination_by input.length

def preceded (sep : Parser B) (p : Parser A) : Parser A := fun input => do
  let (_, rest) ← sep input
  p rest

def separatedList1 (sep : Parser B) (p : Parser A) : Parser (List A) := fun input => do
  let (first, rest) ← p input
  let (items, rest) ← many0 (preceded sep p) rest
  return (first :: items, rest)

variable {sep : Parser B} {input rest : List Char}

theorem preceded_some {b : B} (h : sep input = some (b, rest)) (p : Parser A) : preceded sep p input = p rest := by
  rw [preceded, h]
  rfl

theorem preceded_none (h : sep input = none) (p : Parser A) : preceded sep p input = none := by
  rw [preceded, h]
  rfl

variable {p : Parser A}

theorem separatedList1_some {rest' : List Char} {first : A} {items : List A}
    (hfirst : p input = some (first, rest)) (hitems : many0 (preceded sep p) rest = some (items, rest')) :
    separatedList1 sep p input = some (first :: items, rest') := by
  rw [separatedList1, hfirst]
  show (do
    let (items, rest) ← many0 (preceded sep p) rest
    return (first :: items, rest)) = _
  rw [hitems]
  rfl

theorem char_cons (c : Char) (rest : List Char) : char c (c :: rest) = some (c, rest) :=
  if_pos rfl

theorem char_ne {c first : Char} (h : first ≠ c) (rest : List Char) : char c (first :: rest) = none :=
  if_neg h

theorem tag_append (word rest : List Char) : tag word (word ++ rest) = some (word, rest) := by
  rw [tag, if_pos (List.isPrefixOf_iff_prefix.mpr (List.prefix_append word rest)), List.drop_left]

theorem tag_none {word : List Char} (h : ¬ word <+: input) : tag word input = none :=
  if_neg fun hprefix => h (List.isPrefixOf_iff_prefix.mp hprefix)

theorem takeWhile1_append {p : Char → Bool} {word : List Char} (hword : ∀ c ∈ word, p c = true) (hne : word ≠ [])
    (hrest : ∀ c ∈ rest.head?, p c = false) : takeWhile1 p (word ++ rest) = some (word, rest) := by
  have hstop : rest.takeWhile p = [] ∧ rest.dropWhile p = rest := by
    cases rest with
    | nil => exact ⟨rfl, rfl⟩
    | cons c rest =>
      have hc := hrest c rfl
      exact ⟨List.takeWhile_cons_of_neg (by rw [hc]; decide), List.dropWhile_cons_of_neg (by rw [hc]; decide)⟩
  rw [takeWhile1, List.takeWhile_append_of_pos hword, List.dropWhile_append_of_pos hword, hstop.1, hstop.2,
    List.append_nil, if_neg (by simpa using hne)]

theorem takeWhile1_none {p : Char → Bool} (h : ∀ c ∈ input.head?, p c = false) : takeWhile1 p input = none := by
  cases input with
  | nil => rfl
  | cons c rest =>
    rw [takeWhile1, List.takeWhile_cons_of_neg (by rw [h c rfl]; decide)]
    rfl

theorem multispace0_append {blanks : List Char} (h : ∀ c ∈ blanks, isBlank c = true) (rest : List Char) :
    multispace0 (blanks ++ rest) = multispace0 rest :=
  List.dropWhile_append_of_pos h

theorem multispace0_of_head (h : ∀ c ∈ input.head?, isBlank c = false) : multispace0 input = input := by
  cases input with
  | nil => rfl
  | cons c rest => exact List.dropWhile_cons_of_neg (by rw [h c rfl]; decide)

theorem multispace0_idem (input : List Char) : multispace0 (multispace0 input) = multispace0 input :=
  List.dropWhile_idempotent isBlank input

theorem multispace0_length (input : List Char) : (multispace0 input).length ≤ input.length :=
  List.length_dropWhile_le _ _

theorem many0_none (h : p input = none) : many0 p input = some ([], input) := by
  rw [many0, h]

theorem many0_some {first : A} (h : p input = some (first, rest)) (hlength : rest.length < input.length) :
    many0 p input = (many0 p rest).map fun (items, rest) => (first :: items, rest) := by
  rw [many0, h]
  exact if_pos hlength

end

end Gqlforge.Combinators
