import Gqlforge.JsonTexts

namespace Gqlforge.JsonTexts

def isNumberChar (c : Char) : Bool :=
  c.isDigit || c == '+' || c == '-' || c == '.' || c == 'e' || c == 'E'

def dropMinus : List Char → List Char
  | '-' :: rest => rest
  | text => text

def dropSign : List Char → List Char
  | '+' :: rest => rest
  | '-' :: rest => rest
  | text => text

def isDigits (text : List Char) : Bool :=
  !text.isEmpty && text.all Char.isDigit

def isExponent : List Char → Bool
  | [] => true
  | 'e' :: rest => isDigits (dropSign rest)
  | 'E' :: rest => isDigits (dropSign rest)
  | _ => false

def isFraction : List Char → Bool
  | '.' :: rest => isDigits (rest.takeWhile Char.isDigit) && isExponent (rest.dropWhile Char.isDigit)
  | text => isExponent text

def isInteger (digits : List Char) : Bool :=
  isDigits digits && (digits.length == 1 || digits.head? != some '0')

def isNumber (text : List Char) : Bool :=
  isInteger ((dropMinus text).takeWhile Char.isDigit) && isFraction ((dropMinus text).dropWhile Char.isDigit) &&
    text.all isNumberChar

abbrev NumberText :=
  { text : List Char // isNumber text = true }

def readNumber (input : List Char) : Option (NumberText × List Char) :=
  if h : isNumber (input.takeWhile isNumberChar) = true then
    some (⟨input.takeWhile isNumberChar, h⟩, input.dropWhile isNumberChar)
  else none

def Delimited (rest : List Char) : Prop :=
  ∀ c tail, rest = c :: tail → isNumberChar c = false

theorem NumberText.all_chars (number : NumberText) : ∀ c ∈ number.1, isNumberChar c = true := by
  have h := number.2
  unfold isNumber at h
  rw [Bool.and_eq_true] at h
  exact List.all_eq_true.mp h.2

theorem run_append {p : Char → Bool} {used rest : List Char} (hused : ∀ c ∈ used, p c = true)
    (hrest : ∀ c tail, rest = c :: tail → p c = false) :
    (used ++ rest).takeWhile p = used ∧ (used ++ rest).dropWhile p = rest := by
  have hstop : rest.takeWhile p = [] ∧ rest.dropWhile p = rest := by
    cases rest with
    | nil => exact ⟨rfl, rfl⟩
    | cons c tail =>
      have hc := hrest c tail rfl
      exact ⟨by rw [List.takeWhile_cons, hc]; rfl, by rw [List.dropWhile_cons, hc]; rfl⟩
  constructor
  · rw [List.takeWhile_append_of_pos hused, hstop.1, List.append_nil]
  · rw [List.dropWhile_append_of_pos hused, hstop.2]

theorem readNumber_append (number : NumberText) {rest : List Char} (h : Delimited rest) :
    readNumber (number.1 ++ rest) = some (number, rest) := by
  obtain ⟨htake, hdrop⟩ := run_append number.all_chars h
  have hnumber : isNumber ((number.1 ++ rest).takeWhile isNumberChar) = true := by
    rw [htake]
    exact number.2
  rw [readNumber, dif_pos hnumber, hdrop]
  exact congrArg (fun n => some (n, rest)) (Subtype.ext htake)

inductive Tree (S : Type) where
  | null
  | bool (value : Bool)
  | number (text : NumberText)
  | string (text : S)
  | array (items : List (Tree S))
  | object (members : List (S × Tree S))

abbrev Value := Tree (List Char)

def isSpace (c : Char) : Bool :=
  c == ' ' || c == '\t' || c == '\n' || c == '\r'

def skipSpace (input : List Char) : List Char :=
  input.dropWhile isSpace

mutual

def readValue : ℕ → List Char → Option (Value × List Char)
  | 0, _ => none
  | fuel + 1, input =>
    match skipSpace input with
    | '"' :: rest => (readString (rest.length + 1) rest).map fun (text, rest) => (.string text, rest)
    | '[' :: rest =>
      match skipSpace rest with
      | ']' :: rest => some (.array [], rest)
      | _ => do
        let (item, rest) ← readValue fuel rest
        let (items, rest) ← readItems fuel rest
        return (.array (item :: items), rest)
    | '\x7b' :: rest =>
      match skipSpace rest with
      | '\x7d' :: rest => some (.object [], rest)
      | _ => do
        let (member, rest) ← readMember fuel rest
        let (members, rest) ← readMembers fuel rest
        return (.object (member :: members), rest)
    | 'n' :: 'u' :: 'l' :: 'l' :: rest => some (.null, rest)
    | 't' :: 'r' :: 'u' :: 'e' :: rest => some (.bool true, rest)
    | 'f' :: 'a' :: 'l' :: 's' :: 'e' :: rest => some (.bool false, rest)
    | rest => (readNumber rest).map fun (number, rest) => (.number number, rest)

def readItems : ℕ → List Char → Option (List Value × List Char)
  | 0, _ => none
  | fuel + 1, input =>
    match skipSpace input with
    | ']' :: rest => some ([], rest)
    | ',' :: rest => do
      let (item, rest) ← readValue fuel rest
      let (items, rest) ← readItems fuel rest
      return (item :: items, rest)
    | _ => none

def readMember : ℕ → List Char → Option ((List Char × Value) × List Char)
  | 0, _ => none
  | fuel + 1, input =>
    match skipSpace input with
    | '"' :: rest => do
      let (key, rest) ← readString (rest.length + 1) rest
      match skipSpace rest with
      | ':' :: rest => do
        let (value, rest) ← readValue fuel rest
        return ((key, value), rest)
      | _ => none
    | _ => none

def readMembers : ℕ → List Char → Option (List (List Char × Value) × List Char)
  | 0, _ => none
  | fuel + 1, input =>
    match skipSpace input with
    | '\x7d' :: rest => some ([], rest)
    | ',' :: rest => do
      let (member, rest) ← readMember fuel rest
      let (members, rest) ← readMembers fuel rest
      return (member :: members, rest)
    | _ => none

end

def parse (input : List Char) : Option Value :=
  match readValue (input.length + 1) input with
  | some (value, rest) => if (skipSpace rest).isEmpty then some value else none
  | none => none

def quoted (text : Written) : List Char :=
  '"' :: text.raw ++ ['"']

namespace Tree

variable {S : Type} (written : S → Written)

mutual

def write : Tree S → List Char
  | .null => ['n', 'u', 'l', 'l']
  | .bool true => ['t', 'r', 'u', 'e']
  | .bool false => ['f', 'a', 'l', 's', 'e']
  | .number digits => digits.1
  | .string text => quoted (written text)
  | .array [] => ['[', ']']
  | .array (item :: items) => '[' :: (write item ++ writeItems items)
  | .object [] => ['\x7b', '\x7d']
  | .object ((key, value) :: members) =>
    '\x7b' :: (quoted (written key) ++ ':' :: (write value ++ writeMembers members))

def writeItems : List (Tree S) → List Char
  | [] => [']']
  | item :: items => ',' :: (write item ++ writeItems items)

def writeMembers : List (S × Tree S) → List Char
  | [] => ['\x7d']
  | (key, value) :: members => ',' :: (quoted (written key) ++ ':' :: (write value ++ writeMembers members))

end

mutual

def size : Tree S → ℕ
  | .array (item :: items) => 1 + size item + sizeItems items
  | .object ((_, value) :: members) => 2 + size value + sizeMembers members
  | _ => 1

def sizeItems : List (Tree S) → ℕ
  | [] => 1
  | item :: items => 1 + size item + sizeItems items

def sizeMembers : List (S × Tree S) → ℕ
  | [] => 1
  | (_, value) :: members => 2 + size value + sizeMembers members

end

variable (key : S → List Char) (string : S → Value)

mutual

def substitute : Tree S → Value
  | .null => .null
  | .bool value => .bool value
  | .number digits => .number digits
  | .string text => string text
  | .array items => .array (substituteItems items)
  | .object members => .object (substituteMembers members)

def substituteItems : List (Tree S) → List Value
  | [] => []
  | item :: items => substitute item :: substituteItems items

def substituteMembers : List (S × Tree S) → List (List Char × Value)
  | [] => []
  | (name, value) :: members => (key name, substitute value) :: substituteMembers members

end

variable (ofKey ofString : S → Prop)

mutual

def All : Tree S → Prop
  | .string text => ofString text
  | .array items => AllItems items
  | .object members => AllMembers members
  | _ => True

def AllItems : List (Tree S) → Prop
  | [] => True
  | item :: items => All item ∧ AllItems items

def AllMembers : List (S × Tree S) → Prop
  | [] => True
  | (name, value) :: members => ofKey name ∧ All value ∧ AllMembers members

end

variable {key ofKey ofString} {string : S → Value} {ofKey' : S → Prop} {ofString' : S → Prop}

mutual

theorem All.and : ∀ {tree : Tree S}, All ofKey ofString tree → All ofKey' ofString' tree →
    All (fun key => ofKey key ∧ ofKey' key) (fun text => ofString text ∧ ofString' text) tree
  | .null, _, _ => trivial
  | .bool _, _, _ => trivial
  | .number _, _, _ => trivial
  | .string _, h, h' => ⟨h, h'⟩
  | .array _, h, h' => AllItems.and h h'
  | .object _, h, h' => AllMembers.and h h'

theorem AllItems.and : ∀ {items : List (Tree S)}, AllItems ofKey ofString items → AllItems ofKey' ofString' items →
    AllItems (fun key => ofKey key ∧ ofKey' key) (fun text => ofString text ∧ ofString' text) items
  | [], _, _ => trivial
  | _ :: _, h, h' => ⟨All.and h.1 h'.1, AllItems.and h.2 h'.2⟩

theorem AllMembers.and : ∀ {members : List (S × Tree S)}, AllMembers ofKey ofString members →
    AllMembers ofKey' ofString' members →
      AllMembers (fun key => ofKey key ∧ ofKey' key) (fun text => ofString text ∧ ofString' text) members
  | [], _, _ => trivial
  | _ :: _, h, h' => ⟨⟨h.1, h'.1⟩, All.and h.2.1 h'.2.1, AllMembers.and h.2.2 h'.2.2⟩

end

mutual

theorem All.imp (hkey : ∀ key, ofKey key → ofKey' key) (hstring : ∀ text, ofString text → ofString' text) :
    ∀ {tree : Tree S}, All ofKey ofString tree → All ofKey' ofString' tree
  | .null, _ => trivial
  | .bool _, _ => trivial
  | .number _, _ => trivial
  | .string text, h => hstring text h
  | .array _, h => AllItems.imp hkey hstring h
  | .object _, h => AllMembers.imp hkey hstring h

theorem AllItems.imp (hkey : ∀ key, ofKey key → ofKey' key) (hstring : ∀ text, ofString text → ofString' text) :
    ∀ {items : List (Tree S)}, AllItems ofKey ofString items → AllItems ofKey' ofString' items
  | [], _ => trivial
  | _ :: _, h => ⟨All.imp hkey hstring h.1, AllItems.imp hkey hstring h.2⟩

theorem AllMembers.imp (hkey : ∀ key, ofKey key → ofKey' key) (hstring : ∀ text, ofString text → ofString' text) :
    ∀ {members : List (S × Tree S)}, AllMembers ofKey ofString members → AllMembers ofKey' ofString' members
  | [], _ => trivial
  | _ :: _, h => ⟨hkey _ h.1, All.imp hkey hstring h.2.1, AllMembers.imp hkey hstring h.2.2⟩

end

mutual

theorem All.intro (hkey : ∀ key, ofKey key) (hstring : ∀ text, ofString text) :
    ∀ tree : Tree S, All ofKey ofString tree
  | .null => trivial
  | .bool _ => trivial
  | .number _ => trivial
  | .string text => hstring text
  | .array items => AllItems.intro hkey hstring items
  | .object members => AllMembers.intro hkey hstring members

theorem AllItems.intro (hkey : ∀ key, ofKey key) (hstring : ∀ text, ofString text) :
    ∀ items : List (Tree S), AllItems ofKey ofString items
  | [] => trivial
  | item :: items => ⟨All.intro hkey hstring item, AllItems.intro hkey hstring items⟩

theorem AllMembers.intro (hkey : ∀ key, ofKey key) (hstring : ∀ text, ofString text) :
    ∀ members : List (S × Tree S), AllMembers ofKey ofString members
  | [] => trivial
  | (key, value) :: members => ⟨hkey key, All.intro hkey hstring value, AllMembers.intro hkey hstring members⟩

end

variable {name : List Char → List Char} {meaning : List Char → Value}

mutual

theorem substitute_eq_self : ∀ {tree : Value}, substitute name meaning tree = tree ↔
    All (fun key => name key = key) (fun text => meaning text = .string text) tree
  | .null => iff_of_true rfl trivial
  | .bool _ => iff_of_true rfl trivial
  | .number _ => iff_of_true rfl trivial
  | .string _ => Iff.rfl
  | .array items => by
    rw [substitute, Tree.array.injEq]
    exact substituteItems_eq_self
  | .object members => by
    rw [substitute, Tree.object.injEq]
    exact substituteMembers_eq_self

theorem substituteItems_eq_self : ∀ {items : List Value}, substituteItems name meaning items = items ↔
    AllItems (fun key => name key = key) (fun text => meaning text = .string text) items
  | [] => iff_of_true rfl trivial
  | item :: items => by
    rw [substituteItems, List.cons.injEq, AllItems, substitute_eq_self, substituteItems_eq_self]

theorem substituteMembers_eq_self : ∀ {members : List (List Char × Value)},
    substituteMembers name meaning members = members ↔
      AllMembers (fun key => name key = key) (fun text => meaning text = .string text) members
  | [] => iff_of_true rfl trivial
  | (key, value) :: members => by
    rw [substituteMembers, List.cons.injEq, Prod.mk.injEq, AllMembers, substitute_eq_self, substituteMembers_eq_self,
      and_assoc]

end

end Tree

open Tree

section Heads

variable {S : Type} {written : S → Written}

theorem isNumber_head (number : NumberText) : ∃ c tail, number.1 = c :: tail ∧ (c = '-' ∨ c.isDigit = true) := by
  obtain ⟨text, h⟩ := number
  cases text with
  | nil => cases h
  | cons c tail =>
    refine ⟨c, tail, rfl, ?_⟩
    by_cases hminus : c = '-'
    · exact .inl hminus
    · right
      have hdrop : dropMinus (c :: tail) = c :: tail := by
        unfold dropMinus
        split
        · next heq => exact absurd (List.cons.inj heq).1 hminus
        · rfl
      unfold isNumber at h
      rw [hdrop] at h
      cases hdigit : c.isDigit with
      | true => rfl
      | false => simp [isInteger, isDigits, hdigit] at h

theorem write_head (tree : Tree S) : ∃ c tail, write written tree = c :: tail ∧ isSpace c = false ∧
    c ≠ ']' ∧ c ≠ '\x7d' := by
  cases tree with
  | number number =>
    obtain ⟨c, tail, heq, hc⟩ := isNumber_head number
    refine ⟨c, tail, by rw [write, heq], ?_⟩
    rcases hc with rfl | hc
    · decide
    · have hne {d : Char} (hd : d.isDigit = false) : c ≠ d := by
        rintro rfl
        rw [hc] at hd
        cases hd
      refine ⟨?_, hne (by decide), hne (by decide)⟩
      simp [isSpace, hne (d := ' ') (by decide), hne (d := '\t') (by decide), hne (d := '\n') (by decide),
        hne (d := '\r') (by decide)]
  | bool value => cases value <;> exact ⟨_, _, rfl, by decide⟩
  | array items => cases items <;> exact ⟨_, _, rfl, by decide⟩
  | object members =>
    cases members with
    | nil => exact ⟨_, _, rfl, by decide⟩
    | cons member members => exact ⟨_, _, by rw [write], by decide⟩
  | null => exact ⟨_, _, rfl, by decide⟩
  | string text => exact ⟨_, _, rfl, by decide⟩

theorem skipSpace_cons {c : Char} (h : isSpace c = false) (rest : List Char) : skipSpace (c :: rest) = c :: rest := by
  rw [skipSpace, List.dropWhile_cons, h]
  rfl

end Heads

theorem readValue_string (fuel : ℕ) (rest : List Char) :
    readValue (fuel + 1) ('"' :: rest) = (readString (rest.length + 1) rest).map fun p => (.string p.1, p.2) := by
  rw [readValue, skipSpace_cons (by decide)]
  rfl

theorem readValue_number (fuel : ℕ) (number : NumberText) {rest : List Char} (h : Delimited rest) :
    readValue (fuel + 1) (number.1 ++ rest) = some (.number number, rest) := by
  obtain ⟨c, tail, heq, hc⟩ := isNumber_head number
  have hne {d : Char} (hd : d.isDigit = false) (hminus : d ≠ '-') : c ≠ d := by
    rintro rfl
    rcases hc with rfl | hc
    · exact hminus rfl
    · rw [hc] at hd
      cases hd
  have hspace : skipSpace (number.1 ++ rest) = number.1 ++ rest := by
    rw [heq, List.cons_append, skipSpace_cons]
    simp [isSpace, hne (d := ' ') (by decide) (by decide), hne (d := '\t') (by decide) (by decide),
      hne (d := '\n') (by decide) (by decide), hne (d := '\r') (by decide) (by decide)]
  rw [readValue, hspace]
  split
  case h_7 => rw [readNumber_append number h, Option.map_some]
  all_goals
    next h =>
    rw [heq] at h
    exact absurd (List.cons.inj h).1 (hne (by decide) (by decide))

theorem readValue_array {c : Char} (hspace : isSpace c = false) (hc : c ≠ ']') (fuel : ℕ) (tail : List Char) :
    readValue (fuel + 1) ('[' :: c :: tail) = (readValue fuel (c :: tail)).bind fun p =>
      (readItems fuel p.2).map fun q => (.array (p.1 :: q.1), q.2) := by
  rw [readValue, skipSpace_cons (by decide)]
  simp only [skipSpace_cons hspace]
  split
  · next h => exact absurd (List.cons.inj h).1 hc
  · cases readValue fuel (c :: tail) with
    | none => rfl
    | some p =>
      change (readItems fuel p.2).bind _ = Option.map _ (readItems fuel p.2)
      cases readItems fuel p.2 <;> rfl

theorem readItems_cons (fuel : ℕ) (rest : List Char) :
    readItems (fuel + 1) (',' :: rest) = (readValue fuel rest).bind fun p =>
      (readItems fuel p.2).map fun q => (p.1 :: q.1, q.2) := by
  rw [readItems, skipSpace_cons (by decide)]
  change ((readValue fuel rest).bind fun p => (readItems fuel p.2).bind fun q => some (p.1 :: q.1, q.2)) = _
  cases readValue fuel rest with
  | none => rfl
  | some p =>
    change (readItems fuel p.2).bind _ = Option.map _ (readItems fuel p.2)
    cases readItems fuel p.2 <;> rfl

theorem readMember_eq_some (fuel : ℕ) {rest rest' key : List Char} {value : Value} :
    readMember (fuel + 1) ('"' :: rest) = some ((key, value), rest') ↔ ∃ after below,
      readString (rest.length + 1) rest = some (key, after) ∧ skipSpace after = ':' :: below ∧
        readValue fuel below = some (value, rest') := by
  have heq : readMember (fuel + 1) ('"' :: rest) = (readString (rest.length + 1) rest).bind fun p =>
      match skipSpace p.2 with
      | ':' :: rest => (readValue fuel rest).bind fun q => some ((p.1, q.1), q.2)
      | _ => none := by
    rw [readMember, skipSpace_cons (by decide)]
    rfl
  rw [heq]
  constructor
  · intro h
    obtain ⟨⟨key', after⟩, hkey, h⟩ := Option.bind_eq_some_iff.mp h
    dsimp only at h
    split at h
    · next below hbelow =>
      obtain ⟨⟨value', rest''⟩, hvalue, h⟩ := Option.bind_eq_some_iff.mp h
      obtain ⟨hmember, rfl⟩ := Prod.mk.inj (Option.some.inj h)
      obtain ⟨rfl, rfl⟩ := Prod.mk.inj hmember
      exact ⟨after, below, hkey, hbelow, hvalue⟩
    · cases h
  · rintro ⟨after, below, hkey, hbelow, hvalue⟩
    rw [hkey, Option.bind_some]
    simp only [hbelow, hvalue, Option.bind_some]

theorem readValue_object {c : Char} (hspace : isSpace c = false) (hc : c ≠ '\x7d') (fuel : ℕ) (tail : List Char) :
    readValue (fuel + 1) ('\x7b' :: c :: tail) = (readMember fuel (c :: tail)).bind fun p =>
      (readMembers fuel p.2).map fun q => (.object (p.1 :: q.1), q.2) := by
  rw [readValue, skipSpace_cons (by decide)]
  simp only [skipSpace_cons hspace]
  split
  · next h => exact absurd (List.cons.inj h).1 hc
  · cases readMember fuel (c :: tail) with
    | none => rfl
    | some p =>
      change (readMembers fuel p.2).bind _ = Option.map _ (readMembers fuel p.2)
      cases readMembers fuel p.2 <;> rfl

theorem readMembers_cons (fuel : ℕ) (rest : List Char) :
    readMembers (fuel + 1) (',' :: rest) = (readMember fuel rest).bind fun p =>
      (readMembers fuel p.2).map fun q => (p.1 :: q.1, q.2) := by
  rw [readMembers, skipSpace_cons (by decide)]
  change ((readMember fuel rest).bind fun p => (readMembers fuel p.2).bind fun q => some (p.1 :: q.1, q.2)) = _
  cases readMember fuel rest with
  | none => rfl
  | some p =>
    change (readMembers fuel p.2).bind _ = Option.map _ (readMembers fuel p.2)
    cases readMembers fuel p.2 <;> rfl

section Correctness

variable {S : Type} {written : S → Written}

theorem delimited_items (items : List (Tree S)) (rest : List Char) : Delimited (writeItems written items ++ rest) := by
  cases items <;>
    · rintro c tail h
      obtain ⟨rfl, -⟩ := List.cons.inj h
      decide

theorem delimited_members (members : List (S × Tree S)) (rest : List Char) :
    Delimited (writeMembers written members ++ rest) := by
  rcases members with _ | ⟨⟨key, value⟩, members⟩ <;>
    · rintro c tail h
      obtain ⟨rfl, -⟩ := List.cons.inj h
      decide

variable {text : Written}

theorem readString_quoted (h : text.IsPlain) (rest : List Char) :
    readString ((text.raw ++ '"' :: rest).length + 1) (text.raw ++ '"' :: rest) = some (text.chars, rest) := by
  apply Written.readString_raw h
  have hlength : text.length ≤ text.raw.length := by
    clear h
    induction text with
    | nil => exact Nat.zero_le _
    | cons item tail ih =>
      obtain ⟨c, escaped⟩ := item
      have hitem : 1 ≤ (if escaped then escapeChar c else [c]).length := by
        cases escaped with
        | true => exact one_le_cost c
        | false => exact le_rfl
      rw [Written.raw_cons, List.length_append, List.length_cons]
      omega
  rw [List.length_append]
  omega

theorem readValue_quoted (fuel : ℕ) (h : text.IsPlain) (rest : List Char) :
    readValue (fuel + 1) (quoted text ++ rest) = some (.string text.chars, rest) := by
  have heq : quoted text ++ rest = '"' :: (text.raw ++ '"' :: rest) := by simp [quoted]
  rw [heq, readValue_string, readString_quoted h]
  rfl

variable (written) (string : S → Value)

abbrev meant : Tree S → Value :=
  substitute (fun key => (written key).chars) string

abbrev Faithful : Tree S → Prop :=
  All (fun key => (written key).IsPlain) fun text =>
    (written text).IsPlain ∧ string text = .string (written text).chars

abbrev FaithfulItems : List (Tree S) → Prop :=
  AllItems (fun key => (written key).IsPlain) fun text =>
    (written text).IsPlain ∧ string text = .string (written text).chars

abbrev FaithfulMembers : List (S × Tree S) → Prop :=
  AllMembers (fun key => (written key).IsPlain) fun text =>
    (written text).IsPlain ∧ string text = .string (written text).chars

theorem readValue_items (item : Tree S) (fuel : ℕ) (rest : List Char) :
    readValue (fuel + 1) ('[' :: (write written item ++ rest)) =
      (readValue fuel (write written item ++ rest)).bind fun p =>
        (readItems fuel p.2).map fun q => (.array (p.1 :: q.1), q.2) := by
  obtain ⟨c, tail, heq, hspace, hbracket, -⟩ := @write_head S written item
  rw [heq, List.cons_append]
  exact readValue_array hspace hbracket fuel (tail ++ rest)

theorem readValue_members (key : S) (fuel : ℕ) (rest : List Char) :
    readValue (fuel + 1) ('\x7b' :: (quoted (written key) ++ rest)) =
      (readMember fuel (quoted (written key) ++ rest)).bind fun p =>
        (readMembers fuel p.2).map fun q => (.object (p.1 :: q.1), q.2) :=
  readValue_object (by decide) (by decide) fuel _

variable {value : Value}

theorem readMember_quoted (fuel : ℕ) (h : text.IsPlain) {below rest : List Char}
    (hvalue : readValue fuel below = some (value, rest)) :
    readMember (fuel + 1) (quoted text ++ ':' :: below) = some ((text.chars, value), rest) := by
  have heq : quoted text ++ ':' :: below = '"' :: (text.raw ++ '"' :: ':' :: below) := by simp [quoted]
  rw [heq]
  exact (readMember_eq_some fuel).mpr ⟨':' :: below, below, readString_quoted h _, skipSpace_cons (by decide) _, hvalue⟩

mutual

theorem readValue_write : ∀ (tree : Tree S) {fuel : ℕ} {rest : List Char}, Faithful written string tree →
    size tree ≤ fuel → Delimited rest →
      readValue fuel (write written tree ++ rest) = some (meant written string tree, rest)
  | tree, 0, _, _, hfuel, _ => by
    cases tree with
    | array items => cases items <;> simp [size] at hfuel
    | object members => cases members <;> simp [size] at hfuel
    | _ => simp [size] at hfuel
  | .null, _ + 1, _, _, _, _ => rfl
  | .bool true, _ + 1, _, _, _, _ => rfl
  | .bool false, _ + 1, _, _, _, _ => rfl
  | .number digits, fuel + 1, _, _, _, hd => readValue_number fuel digits hd
  | .string text, fuel + 1, rest, h, _, _ => by
    rw [write, readValue_quoted fuel h.1]
    exact congrArg (fun v => some (v, rest)) h.2.symm
  | .array [], _ + 1, _, _, _, _ => rfl
  | .array (item :: items), fuel + 1, rest, h, hfuel, _ => by
    simp only [size] at hfuel
    have hitem := readValue_write item h.1 (by omega : size item ≤ fuel) (@delimited_items S written items rest)
    have hitems : readItems fuel (writeItems written items ++ rest) = some (_, rest) :=
      readItems_write items h.2 (by omega : sizeItems items ≤ fuel)
    rw [write, List.cons_append, List.append_assoc, readValue_items, hitem, Option.bind_some, hitems]
    rfl
  | .object [], _ + 1, _, _, _, _ => rfl
  | .object ((key, value) :: members), fuel + 1, rest, h, hfuel, _ => by
    simp only [size] at hfuel
    obtain ⟨fuel, rfl⟩ := Nat.exists_eq_add_of_le' (by omega : 1 ≤ fuel)
    have hvalue := readValue_write value h.2.1 (by omega : size value ≤ fuel) (@delimited_members S written members rest)
    have hmembers : readMembers (fuel + 1) (writeMembers written members ++ rest) = some (_, rest) :=
      readMembers_write members h.2.2 (by omega : sizeMembers members ≤ fuel + 1)
    rw [write, List.cons_append, List.append_assoc, List.cons_append, List.append_assoc, readValue_members,
      readMember_quoted fuel h.1 hvalue, Option.bind_some, hmembers]
    rfl

theorem readItems_write : ∀ (items : List (Tree S)) {fuel : ℕ} {rest : List Char}, FaithfulItems written string items →
    sizeItems items ≤ fuel → readItems fuel (writeItems written items ++ rest) =
      some (substituteItems (fun key => (written key).chars) string items, rest)
  | items, 0, _, _, hfuel => by cases items <;> simp [sizeItems] at hfuel
  | [], _ + 1, _, _, _ => rfl
  | item :: items, fuel + 1, rest, h, hfuel => by
    simp only [sizeItems] at hfuel
    have hitem := readValue_write item h.1 (by omega : size item ≤ fuel) (@delimited_items S written items rest)
    have hitems : readItems fuel (writeItems written items ++ rest) = some (_, rest) :=
      readItems_write items h.2 (by omega : sizeItems items ≤ fuel)
    rw [writeItems, List.cons_append, List.append_assoc, readItems_cons, hitem, Option.bind_some, hitems]
    rfl

theorem readMembers_write : ∀ (members : List (S × Tree S)) {fuel : ℕ} {rest : List Char},
    FaithfulMembers written string members → sizeMembers members ≤ fuel →
      readMembers fuel (writeMembers written members ++ rest) =
        some (substituteMembers (fun key => (written key).chars) string members, rest)
  | members, 0, _, _, hfuel => by cases members <;> simp [sizeMembers] at hfuel
  | [], _ + 1, _, _, _ => rfl
  | (key, value) :: members, fuel + 1, rest, h, hfuel => by
    simp only [sizeMembers] at hfuel
    obtain ⟨fuel, rfl⟩ := Nat.exists_eq_add_of_le' (by omega : 1 ≤ fuel)
    have hvalue := readValue_write value h.2.1 (by omega : size value ≤ fuel) (@delimited_members S written members rest)
    have hmembers : readMembers (fuel + 1) (writeMembers written members ++ rest) = some (_, rest) :=
      readMembers_write members h.2.2 (by omega : sizeMembers members ≤ fuel + 1)
    rw [writeMembers, List.cons_append, List.append_assoc, List.cons_append, List.append_assoc, readMembers_cons,
      readMember_quoted fuel h.1 hvalue, Option.bind_some, hmembers]
    rfl

end

theorem readMember_quoted_exact {fuel : ℕ} {below rest : List Char}
    (h : readMember (fuel + 1) (quoted text ++ ':' :: below) = some ((text.chars, value), rest)) :
    text.IsPlain ∧ readValue fuel below = some (value, rest) := by
  have heq : quoted text ++ ':' :: below = '"' :: (text.raw ++ '"' :: ':' :: below) := by simp [quoted]
  rw [heq] at h
  obtain ⟨after, below', hkey, hbelow, hvalue⟩ := (readMember_eq_some fuel).mp h
  obtain ⟨hplain, rfl⟩ := Written.readString_exact hkey
  rw [skipSpace_cons (by decide)] at hbelow
  exact ⟨hplain, (List.cons.inj hbelow).2 ▸ hvalue⟩

abbrev OwnTexts : Tree S → Prop :=
  All (fun _ => True) fun text => ∀ chars, string text = .string chars → chars = (written text).chars

abbrev OwnTextsItems : List (Tree S) → Prop :=
  AllItems (fun _ => True) fun text => ∀ chars, string text = .string chars → chars = (written text).chars

abbrev OwnTextsMembers : List (S × Tree S) → Prop :=
  AllMembers (fun _ => True) fun text => ∀ chars, string text = .string chars → chars = (written text).chars

variable {written string}

mutual

theorem readValue_exact : ∀ (tree : Tree S) {fuel : ℕ} {rest rest' : List Char}, OwnTexts written string tree →
    Delimited rest → readValue fuel (write written tree ++ rest) = some (meant written string tree, rest') →
      Faithful written string tree ∧ rest' = rest
  | _, 0, _, _, _, _, h => by cases h
  | .null, _ + 1, _, _, _, _, h => ⟨trivial, (Prod.mk.inj (Option.some.inj h)).2.symm⟩
  | .bool true, _ + 1, _, _, _, _, h => ⟨trivial, (Prod.mk.inj (Option.some.inj h)).2.symm⟩
  | .bool false, _ + 1, _, _, _, _, h => ⟨trivial, (Prod.mk.inj (Option.some.inj h)).2.symm⟩
  | .number digits, fuel + 1, _, _, _, hd, h => by
    rw [write, readValue_number fuel digits hd] at h
    exact ⟨trivial, (Prod.mk.inj (Option.some.inj h)).2.symm⟩
  | .string text, fuel + 1, rest, rest', hown, _, h => by
    have heq : quoted (written text) ++ rest = '"' :: ((written text).raw ++ '"' :: rest) := by simp [quoted]
    rw [write, heq, readValue_string] at h
    obtain ⟨⟨chars, rest''⟩, hread, h⟩ := Option.map_eq_some_iff.mp h
    obtain ⟨hvalue, rfl⟩ := Prod.mk.inj h
    have hchars := hown chars hvalue.symm
    subst hchars
    obtain ⟨hplain, hrest⟩ := Written.readString_exact hread
    exact ⟨⟨hplain, hvalue.symm⟩, hrest⟩
  | .array [], _ + 1, _, _, _, _, h => ⟨trivial, (Prod.mk.inj (Option.some.inj h)).2.symm⟩
  | .array (item :: items), fuel + 1, rest, rest', hown, _, h => by
    rw [write, List.cons_append, List.append_assoc, readValue_items] at h
    obtain ⟨⟨value, after⟩, hitem, h⟩ := Option.bind_eq_some_iff.mp h
    obtain ⟨⟨values, rest''⟩, hitems, h⟩ := Option.map_eq_some_iff.mp h
    obtain ⟨harray, rfl⟩ := Prod.mk.inj h
    obtain ⟨rfl, rfl⟩ := List.cons.inj (Tree.array.inj harray)
    obtain ⟨hfaithful, rfl⟩ := readValue_exact item hown.1 (@delimited_items S written items rest) hitem
    obtain ⟨hfaithfuls, hrest⟩ := readItems_exact items hown.2 hitems
    exact ⟨⟨hfaithful, hfaithfuls⟩, hrest⟩
  | .object [], _ + 1, _, _, _, _, h => ⟨trivial, (Prod.mk.inj (Option.some.inj h)).2.symm⟩
  | .object ((key, value) :: members), fuel + 1, rest, rest', hown, _, h => by
    rw [write, List.cons_append, List.append_assoc, List.cons_append, List.append_assoc, readValue_members] at h
    obtain ⟨⟨member, after⟩, hmember, h⟩ := Option.bind_eq_some_iff.mp h
    obtain ⟨⟨values, rest''⟩, hmembers, h⟩ := Option.map_eq_some_iff.mp h
    obtain ⟨hobject, rfl⟩ := Prod.mk.inj h
    obtain ⟨rfl, rfl⟩ := List.cons.inj (Tree.object.inj hobject)
    cases fuel with
    | zero => cases hmember
    | succ fuel =>
      obtain ⟨hplain, hvalue⟩ := readMember_quoted_exact hmember
      obtain ⟨hfaithful, rfl⟩ := readValue_exact value hown.2.1 (@delimited_members S written members rest) hvalue
      obtain ⟨hfaithfuls, hrest⟩ := readMembers_exact members hown.2.2 hmembers
      exact ⟨⟨hplain, hfaithful, hfaithfuls⟩, hrest⟩

theorem readItems_exact : ∀ (items : List (Tree S)) {fuel : ℕ} {rest rest' : List Char},
    OwnTextsItems written string items → readItems fuel (writeItems written items ++ rest) =
        some (substituteItems (fun key => (written key).chars) string items, rest') →
          FaithfulItems written string items ∧ rest' = rest
  | _, 0, _, _, _, h => by cases h
  | [], _ + 1, _, _, _, h => ⟨trivial, (Prod.mk.inj (Option.some.inj h)).2.symm⟩
  | item :: items, fuel + 1, rest, rest', hown, h => by
    rw [writeItems, List.cons_append, List.append_assoc, readItems_cons] at h
    obtain ⟨⟨value, after⟩, hitem, h⟩ := Option.bind_eq_some_iff.mp h
    obtain ⟨⟨values, rest''⟩, hitems, h⟩ := Option.map_eq_some_iff.mp h
    obtain ⟨harray, rfl⟩ := Prod.mk.inj h
    obtain ⟨rfl, rfl⟩ := List.cons.inj harray
    obtain ⟨hfaithful, rfl⟩ := readValue_exact item hown.1 (@delimited_items S written items rest) hitem
    obtain ⟨hfaithfuls, hrest⟩ := readItems_exact items hown.2 hitems
    exact ⟨⟨hfaithful, hfaithfuls⟩, hrest⟩

theorem readMembers_exact : ∀ (members : List (S × Tree S)) {fuel : ℕ} {rest rest' : List Char},
    OwnTextsMembers written string members → readMembers fuel (writeMembers written members ++ rest) =
        some (substituteMembers (fun key => (written key).chars) string members, rest') →
          FaithfulMembers written string members ∧ rest' = rest
  | _, 0, _, _, _, h => by cases h
  | [], _ + 1, _, _, _, h => ⟨trivial, (Prod.mk.inj (Option.some.inj h)).2.symm⟩
  | (key, value) :: members, fuel + 1, rest, rest', hown, h => by
    rw [writeMembers, List.cons_append, List.append_assoc, List.cons_append, List.append_assoc, readMembers_cons] at h
    obtain ⟨⟨member, after⟩, hmember, h⟩ := Option.bind_eq_some_iff.mp h
    obtain ⟨⟨values, rest''⟩, hmembers, h⟩ := Option.map_eq_some_iff.mp h
    obtain ⟨hobject, rfl⟩ := Prod.mk.inj h
    obtain ⟨rfl, rfl⟩ := List.cons.inj hobject
    cases fuel with
    | zero => cases hmember
    | succ fuel =>
      obtain ⟨hplain, hvalue⟩ := readMember_quoted_exact hmember
      obtain ⟨hfaithful, rfl⟩ := readValue_exact value hown.2.1 (@delimited_members S written members rest) hvalue
      obtain ⟨hfaithfuls, hrest⟩ := readMembers_exact members hown.2.2 hmembers
      exact ⟨⟨hplain, hfaithful, hfaithfuls⟩, hrest⟩

end

mutual

theorem size_le : ∀ tree : Tree S, size tree ≤ (write written tree).length
  | .null => by simp [size, write]
  | .bool true => by simp [size, write]
  | .bool false => by simp [size, write]
  | .number digits => by
    obtain ⟨c, tail, heq, -⟩ := isNumber_head digits
    simp [size, write, heq]
  | .string text => by simp [size, write, quoted]
  | .array [] => by simp [size, write]
  | .array (item :: items) => by
    have hitem := size_le item
    have hitems := sizeItems_le items
    simp only [size, write, List.length_cons, List.length_append]
    omega
  | .object [] => by simp [size, write]
  | .object ((key, value) :: members) => by
    have hvalue := size_le value
    have hmembers := sizeMembers_le members
    simp only [size, write, quoted, List.length_cons, List.length_append]
    omega

theorem sizeItems_le : ∀ items : List (Tree S), sizeItems items ≤ (writeItems written items).length
  | [] => by simp [sizeItems, writeItems]
  | item :: items => by
    have hitem := size_le item
    have hitems := sizeItems_le items
    simp only [sizeItems, writeItems, List.length_cons, List.length_append]
    omega

theorem sizeMembers_le : ∀ members : List (S × Tree S), sizeMembers members ≤ (writeMembers written members).length
  | [] => by simp [sizeMembers, writeMembers]
  | (key, value) :: members => by
    have hvalue := size_le value
    have hmembers := sizeMembers_le members
    simp only [sizeMembers, writeMembers, quoted, List.length_cons, List.length_append]
    omega

end

theorem parse_eq_some {input : List Char} (h : parse input = some value) :
    ∃ rest, readValue (input.length + 1) input = some (value, rest) := by
  unfold parse at h
  split at h
  · next value' rest heq =>
    split at h
    · exact ⟨rest, Option.some.inj h ▸ heq⟩
    · cases h
  · cases h

theorem parse_write_iff {tree : Tree S} (hown : OwnTexts written string tree) :
    parse (write written tree) = some (meant written string tree) ↔ Faithful written string tree := by
  have hempty : Delimited [] := fun c tail heq => by cases heq
  constructor
  · intro h
    obtain ⟨rest, hread⟩ := parse_eq_some h
    have hsame : write written tree ++ [] = write written tree := List.append_nil _
    rw [← hsame] at hread
    exact (readValue_exact tree hown hempty hread).1
  · intro h
    have hsize : size tree ≤ (write written tree).length + 1 := Nat.le_succ_of_le (size_le tree)
    have hread := readValue_write written string tree h hsize hempty
    rw [List.append_nil] at hread
    rw [parse, hread]
    rfl

theorem parse_string_length {input text : List Char} (h : parse input = some (.string text)) :
    2 + costs text ≤ input.length := by
  obtain ⟨rest, hread⟩ := parse_eq_some h
  rw [readValue] at hread
  have hskip : (skipSpace input).length ≤ input.length := (List.dropWhile_suffix _).length_le
  split at hread
  · next tail heq =>
    obtain ⟨⟨chars, rest'⟩, hstring, hread⟩ := Option.map_eq_some_iff.mp hread
    obtain ⟨hvalue, -⟩ := Prod.mk.inj hread
    cases hvalue
    obtain ⟨used, hused, hcosts, -⟩ := readString_used hstring
    rw [heq, hused] at hskip
    simp only [List.length_cons, List.length_append] at hskip
    omega
  · next tail _ =>
    split at hread
    · cases hread
    · obtain ⟨⟨item, after⟩, -, hread⟩ := Option.bind_eq_some_iff.mp hread
      obtain ⟨⟨items, after'⟩, -, hread⟩ := Option.bind_eq_some_iff.mp hread
      cases hread
  · next tail _ =>
    split at hread
    · cases hread
    · obtain ⟨⟨member, after⟩, -, hread⟩ := Option.bind_eq_some_iff.mp hread
      obtain ⟨⟨members, after'⟩, -, hread⟩ := Option.bind_eq_some_iff.mp hread
      cases hread
  · cases hread
  · cases hread
  · cases hread
  · obtain ⟨number, -, hread⟩ := Option.map_eq_some_iff.mp hread
    cases hread

end Correctness

section Lengths

/-- What is left behind a value, and how much of the text a string takes with its quotes. -/
structure Shrinks (input : List Char) (value : Value) (rest : List Char) : Prop where
  length : rest.length < input.length
  string : ∀ text, value = .string text → text.length + 2 + rest.length ≤ input.length

theorem length_le_costs (text : List Char) : text.length ≤ costs text := by
  induction text with
  | nil => exact le_rfl
  | cons c text ih =>
    have hc := one_le_cost c
    rw [costs, List.map_cons, List.sum_cons, List.length_cons]
    rw [costs] at ih
    omega

variable {input rest : List Char}

theorem readString_length {fuel : ℕ} {text : List Char} (h : readString fuel input = some (text, rest)) :
    text.length + 1 + rest.length ≤ input.length := by
  obtain ⟨used, rfl, hcosts, -⟩ := readString_used h
  have htext := length_le_costs text
  rw [List.length_append, List.length_cons]
  omega

theorem skipSpace_length (input : List Char) : (skipSpace input).length ≤ input.length :=
  (List.dropWhile_suffix _).length_le

theorem readNumber_length {number : NumberText} (h : readNumber input = some (number, rest)) :
    rest.length < input.length := by
  unfold readNumber at h
  split at h
  · next hnumber =>
    obtain ⟨-, rfl⟩ := Prod.mk.inj (Option.some.inj h)
    obtain ⟨c, tail, hhead, -⟩ := isNumber_head ⟨_, hnumber⟩
    have hsplit := congrArg List.length (List.takeWhile_append_dropWhile (p := isNumberChar) (l := input))
    rw [show input.takeWhile isNumberChar = c :: tail from hhead, List.length_append, List.length_cons] at hsplit
    omega
  · cases h

structure Reads (fuel : ℕ) : Prop where
  value : ∀ input value rest, readValue fuel input = some (value, rest) → Shrinks input value rest
  items : ∀ input items rest, readItems fuel input = some (items, rest) → rest.length < input.length
  member : ∀ input member rest, readMember fuel input = some (member, rest) → Shrinks input member.2 rest
  members : ∀ input members rest, readMembers fuel input = some (members, rest) → rest.length < input.length ∧
    ∀ key text, (key, .string text) ∈ members → text.length + 2 ≤ input.length

theorem Shrinks.of_no_string {value : Value} (h : rest.length < input.length)
    (hvalue : ∀ text, value ≠ .string text) : Shrinks input value rest :=
  ⟨h, fun text htext => absurd htext (hvalue text)⟩

theorem readValue_shrinks {fuel : ℕ} (ih : Reads fuel) {value : Value}
    (h : readValue (fuel + 1) input = some (value, rest)) : Shrinks input value rest := by
  have hskip := skipSpace_length input
  have hliteral {tail : List Char} (htail : tail.length < (skipSpace input).length) {literal : Value}
      (hvalue : ∀ text, literal ≠ .string text) (heq : some (literal, tail) = some (value, rest)) :
      Shrinks input value rest := by
    obtain ⟨rfl, rfl⟩ := Prod.mk.inj (Option.some.inj heq)
    exact .of_no_string (by omega) hvalue
  rw [readValue] at h
  split at h
  · next tail heq =>
    obtain ⟨⟨text, rest'⟩, hstring, h⟩ := Option.map_eq_some_iff.mp h
    obtain ⟨rfl, rfl⟩ := Prod.mk.inj h
    have hlength := readString_length hstring
    rw [heq, List.length_cons] at hskip
    refine ⟨by omega, fun text' htext => ?_⟩
    cases htext
    omega
  · next tail heq =>
    have htail := skipSpace_length tail
    split at h
    · next tail' heq' =>
      refine hliteral ?_ (fun _ hstring => by cases hstring) h
      rw [heq, List.length_cons]
      rw [heq', List.length_cons] at htail
      omega
    · obtain ⟨⟨item, after⟩, hitem, h⟩ := Option.bind_eq_some_iff.mp h
      obtain ⟨⟨items, after'⟩, hitems, h⟩ := Option.bind_eq_some_iff.mp h
      have hafter := (ih.value _ _ _ hitem).length
      have hafter' := ih.items _ _ _ hitems
      refine hliteral ?_ (fun _ hstring => by cases hstring) h
      rw [heq, List.length_cons]
      omega
  · next tail heq =>
    have htail := skipSpace_length tail
    split at h
    · next tail' heq' =>
      refine hliteral ?_ (fun _ hstring => by cases hstring) h
      rw [heq, List.length_cons]
      rw [heq', List.length_cons] at htail
      omega
    · obtain ⟨⟨member, after⟩, hmember, h⟩ := Option.bind_eq_some_iff.mp h
      obtain ⟨⟨members, after'⟩, hmembers, h⟩ := Option.bind_eq_some_iff.mp h
      have hafter := (ih.member _ _ _ hmember).length
      have hafter' := (ih.members _ _ _ hmembers).1
      refine hliteral ?_ (fun _ hstring => by cases hstring) h
      rw [heq, List.length_cons]
      omega
  · next tail heq => exact hliteral (by simp only [heq, List.length_cons]; omega) (fun _ hstring => by cases hstring) h
  · next tail heq => exact hliteral (by simp only [heq, List.length_cons]; omega) (fun _ hstring => by cases hstring) h
  · next tail heq => exact hliteral (by simp only [heq, List.length_cons]; omega) (fun _ hstring => by cases hstring) h
  · obtain ⟨⟨number, after⟩, hnumber, h⟩ := Option.map_eq_some_iff.mp h
    have hafter := readNumber_length hnumber
    exact hliteral hafter (fun _ hstring => by cases hstring) (congrArg some h)

theorem reads (fuel : ℕ) : Reads fuel := by
  induction fuel with
  | zero =>
    constructor <;>
      · intro _ _ _ h
        cases h
  | succ fuel ih =>
    refine ⟨fun _ _ _ h => readValue_shrinks ih h, fun input items rest h => ?_, fun input member rest h => ?_,
      fun input members rest h => ?_⟩
    · have hskip := skipSpace_length input
      rw [readItems] at h
      split at h
      · next tail heq =>
        obtain ⟨-, rfl⟩ := Prod.mk.inj (Option.some.inj h)
        rw [heq, List.length_cons] at hskip
        omega
      · next tail heq =>
        obtain ⟨⟨item, after⟩, hitem, h⟩ := Option.bind_eq_some_iff.mp h
        obtain ⟨⟨items', after'⟩, hitems, h⟩ := Option.bind_eq_some_iff.mp h
        obtain ⟨-, rfl⟩ := Prod.mk.inj (Option.some.inj h)
        have hafter := (ih.value _ _ _ hitem).length
        have hafter' := ih.items _ _ _ hitems
        rw [heq, List.length_cons] at hskip
        omega
      · cases h
    · have hskip := skipSpace_length input
      rw [readMember] at h
      split at h
      · next tail heq =>
        obtain ⟨⟨key, after⟩, hkey, h⟩ := Option.bind_eq_some_iff.mp h
        have hlength := readString_length hkey
        have hafter := skipSpace_length after
        dsimp only at h
        split at h
        · next tail' heq' =>
          obtain ⟨⟨value, after'⟩, hvalue, h⟩ := Option.bind_eq_some_iff.mp h
          dsimp only at h
          obtain ⟨rfl, rfl⟩ := Prod.mk.inj (Option.some.inj h)
          obtain ⟨hlength', hstring⟩ := ih.value _ _ _ hvalue
          rw [heq, List.length_cons] at hskip
          rw [heq', List.length_cons] at hafter
          refine ⟨by omega, fun text htext => ?_⟩
          have htext := hstring text htext
          omega
        · cases h
      · cases h
    · have hskip := skipSpace_length input
      rw [readMembers] at h
      split at h
      · next tail heq =>
        obtain ⟨rfl, rfl⟩ := Prod.mk.inj (Option.some.inj h)
        rw [heq, List.length_cons] at hskip
        refine ⟨by omega, fun key text hmem => ?_⟩
        cases hmem
      · next tail heq =>
        obtain ⟨⟨member, after⟩, hmember, h⟩ := Option.bind_eq_some_iff.mp h
        obtain ⟨⟨members', after'⟩, hmembers, h⟩ := Option.bind_eq_some_iff.mp h
        obtain ⟨rfl, rfl⟩ := Prod.mk.inj (Option.some.inj h)
        obtain ⟨hlength, hstring⟩ := ih.member _ _ _ hmember
        obtain ⟨hlength', hstrings⟩ := ih.members _ _ _ hmembers
        rw [heq, List.length_cons] at hskip
        refine ⟨by omega, fun key text hmem => ?_⟩
        rcases List.mem_cons.mp hmem with hmem | hmem
        · have htext := hstring text (congrArg Prod.snd hmem).symm
          omega
        · have htext := hstrings key text hmem
          omega
      · cases h

end Lengths

end Gqlforge.JsonTexts
