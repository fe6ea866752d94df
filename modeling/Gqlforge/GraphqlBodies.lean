import Gqlforge.JsonTrees

namespace Gqlforge.GraphqlBodies

open JsonTexts

structure Request where
  query : List Char
  operationName : Option (List Char)
  variableValues : List (List Char × Value)

def inQuery (text : List Char) : List Char :=
  "\x7b\"query\": ".toList ++ (text ++ " \x7d".toList)

section

-- The tables of the Unicode version that the standard library has.
variable (graphemeExtended printable : Char → Bool)

def escapeUnicode (c : Char) : List Char :=
  ['\\', 'u', '\x7b'] ++ Nat.toDigits 16 c.toNat ++ ['\x7d']

def escapeDebug (c : Char) : List Char :=
  if c = '\x00' then ['\\', '0']
  else if c = '\t' then ['\\', 't']
  else if c = '\r' then ['\\', 'r']
  else if c = '\n' then ['\\', 'n']
  else if c = '\\' then ['\\', '\\']
  else if c = '"' then ['\\', '"']
  else if graphemeExtended c then escapeUnicode c
  else if printable c then [c]
  else escapeUnicode c

def debug (text : List Char) : List Char :=
  '"' :: (text.flatMap (escapeDebug graphemeExtended printable) ++ ['"'])

def enriched (decodedStr : List Char) : List Char :=
  inQuery (if decodedStr.contains '\\' then decodedStr else debug graphemeExtended printable decodedStr)

def graphqlRequest (fromValue : Value → Option Request) (contentType : Option String) (body : List Char) :
    Option Request :=
  (parse (if contentType = some "application/graphql" then enriched graphemeExtended printable body else body)).bind
    fromValue

def Kept (c : Char) : Prop :=
  c ≠ '\\' ∧ (c = '\t' ∨ c = '\r' ∨ c = '\n' ∨ c = '"' ∨
    32 ≤ c.toNat ∧ graphemeExtended c = false ∧ printable c = true)

end

/-- What is relied on of the request's own reading: its query is the text of a member of that name, and a query alone is
a request with nothing else. -/
structure Deserializes (fromValue : Value → Option Request) : Prop where
  alone : ∀ text, fromValue (.object [("query".toList, .string text)]) = some ⟨text, none, []⟩
  member : ∀ value request, fromValue value = some request → ∃ members, value = .object members ∧
    (request.query = [] ∨ ("query".toList, .string request.query) ∈ members)

section

variable {graphemeExtended printable : Char → Bool}

theorem escapeDebug_of_ge {c : Char} (hcode : 32 ≤ c.toNat) (hbackslash : c ≠ '\\') (hquote : c ≠ '"') :
    escapeDebug graphemeExtended printable c = if graphemeExtended c = false ∧ printable c = true then [c]
      else escapeUnicode c := by
  have hne {d : Char} (hd : d.toNat < 32) : c ≠ d := by
    rintro rfl
    omega
  rw [escapeDebug, if_neg (hne (by decide)), if_neg (hne (by decide)), if_neg (hne (by decide)),
    if_neg (hne (by decide)), if_neg hbackslash, if_neg hquote]
  cases graphemeExtended c <;> cases printable c <;> rfl

theorem readChar_kept {c : Char} (h : Kept graphemeExtended printable c) (rest : List Char) :
    readChar (escapeDebug graphemeExtended printable c ++ rest) = some (c, rest) := by
  obtain ⟨hbackslash, rfl | rfl | rfl | rfl | ⟨hcode, hshown⟩⟩ := h
  · rfl
  · rfl
  · rfl
  · rfl
  · by_cases hquote : c = '"'
    · subst hquote
      rfl
    · rw [escapeDebug_of_ge hcode hbackslash hquote, if_pos hshown, List.singleton_append, readChar]
      · exact if_neg (by omega)
      · exact fun hc => hbackslash hc

theorem readChar_escapeUnicode (c : Char) (rest : List Char) : readChar (escapeUnicode c ++ rest) = none := by
  have hhex : readHex ('\x7b' :: (Nat.toDigits 16 c.toNat ++ ['\x7d'] ++ rest)) = none := by
    rcases Nat.toDigits 16 c.toNat ++ ['\x7d'] ++ rest with _ | ⟨a, _ | ⟨b, _ | ⟨d, tail⟩⟩⟩ <;> rfl
  have heq : escapeUnicode c ++ rest = '\\' :: 'u' :: '\x7b' :: (Nat.toDigits 16 c.toNat ++ ['\x7d'] ++ rest) := by
    simp [escapeUnicode]
  rw [heq]
  change readUnicode _ = none
  rw [readUnicode, hhex]
  rfl

theorem readChar_not_kept {c : Char} (hbackslash : c ≠ '\\') (h : ¬Kept graphemeExtended printable c)
    (rest : List Char) : readChar (escapeDebug graphemeExtended printable c ++ rest) = none := by
  rw [Kept, not_and] at h
  have hother := h hbackslash
  simp only [not_or] at hother
  obtain ⟨htab, hreturn, hline, hquote, hshown⟩ := hother
  by_cases hzero : c = '\x00'
  · subst hzero
    rfl
  rw [escapeDebug, if_neg hzero, if_neg htab, if_neg hreturn, if_neg hline, if_neg hbackslash, if_neg hquote]
  by_cases hextended : graphemeExtended c = true
  · rw [if_pos hextended, readChar_escapeUnicode]
  · rw [if_neg hextended]
    by_cases hprintable : printable c = true
    · -- It is left as it is, which JSON does not allow for a control character.
      rw [if_pos hprintable, List.singleton_append, readChar]
      · have hcode : c.toNat < 32 := by
          by_contra hcode
          exact hshown ⟨by omega, Bool.eq_false_iff.mpr hextended, hprintable⟩
        exact if_pos hcode
      · exact fun hc => hbackslash hc
    · rw [if_neg hprintable, readChar_escapeUnicode]

theorem escapeDebug_head (c : Char) (rest : List Char) :
    (escapeDebug graphemeExtended printable c ++ rest).head? ≠ some '"' := by
  by_cases hquote : c = '"'
  · subst hquote
    exact fun h => by cases h
  have hescape : ∀ more : List Char, ('\\' :: more ++ rest).head? ≠ some '"' := fun more h => by cases h
  have hplain : ([c] ++ rest).head? ≠ some '"' := fun h => hquote (Option.some.inj h)
  unfold escapeDebug
  repeat' split
  all_goals
    first
    | exact hplain
    | exact hescape _

variable {text : List Char}

theorem readString_debug {rest : List Char} (h : ∀ c ∈ text, Kept graphemeExtended printable c) {fuel : ℕ}
    (hfuel : text.length < fuel) :
    readString fuel (text.flatMap (escapeDebug graphemeExtended printable) ++ '"' :: rest) = some (text, rest) := by
  induction text generalizing fuel with
  | nil =>
    obtain ⟨fuel, rfl⟩ := Nat.exists_eq_succ_of_ne_zero (Nat.ne_zero_of_lt hfuel)
    rfl
  | cons c text ih =>
    obtain ⟨fuel, rfl⟩ := Nat.exists_eq_succ_of_ne_zero (Nat.ne_zero_of_lt hfuel)
    rw [List.forall_mem_cons] at h
    rw [List.flatMap_cons, List.append_assoc, readString_cons (escapeDebug_head c _), readChar_kept h.1,
      Option.bind_some,
      ih h.2 (Nat.lt_of_succ_lt_succ hfuel)]
    rfl

theorem kept_of_readString {rest : List Char} (hbackslash : '\\' ∉ text) {fuel : ℕ} {result : List Char × List Char}
    (h : readString fuel (text.flatMap (escapeDebug graphemeExtended printable) ++ rest) = some result) :
    ∀ c ∈ text, Kept graphemeExtended printable c := by
  induction text generalizing fuel result with
  | nil => exact List.forall_mem_nil _
  | cons c text ih =>
    rw [List.mem_cons, not_or] at hbackslash
    cases fuel with
    | zero => cases h
    | succ fuel =>
      rw [List.flatMap_cons, List.append_assoc, readString_cons (escapeDebug_head c _)] at h
      by_cases hc : Kept graphemeExtended printable c
      · rw [readChar_kept hc, Option.bind_some] at h
        obtain ⟨result', hrest, _⟩ := Option.map_eq_some_iff.mp h
        exact List.forall_mem_cons.mpr ⟨hc, ih hbackslash.2 hrest⟩
      · rw [readChar_not_kept (Ne.symm hbackslash.1) hc] at h
        cases h

def queryKey : Written :=
  "query".toList.map fun c => (c, false)

theorem readValue_space (fuel : ℕ) (input : List Char) : readValue fuel (' ' :: input) = readValue fuel input := by
  cases fuel with
  | zero => rfl
  | succ fuel => rw [readValue, readValue, show skipSpace (' ' :: input) = skipSpace input from rfl]

theorem inQuery_eq (text : List Char) :
    inQuery text = '\x7b' :: (quoted queryKey ++ ':' :: ' ' :: (text ++ [' ', '\x7d'])) := rfl

theorem inQuery_length (text : List Char) : (inQuery text).length + 1 = text.length + 11 + 2 := by
  rw [inQuery_eq, List.length_cons, List.length_append, List.length_cons, List.length_cons, List.length_append,
    show (quoted queryKey).length = 7 from rfl, show [' ', '\x7d'].length = 2 from rfl]
  omega

theorem inQuery_object (fuel : ℕ) (text : List Char) : readValue (fuel + 2) (inQuery text) =
    (readMember (fuel + 1) (quoted queryKey ++ ':' :: ' ' :: (text ++ [' ', '\x7d']))).bind fun p =>
      (readMembers (fuel + 1) p.2).map fun q => (.object (p.1 :: q.1), q.2) := by
  rw [inQuery_eq]
  exact readValue_object (show isSpace '"' = false from rfl) (by decide) (fuel + 1) _

theorem parse_inQuery {value : Value} (h : parse (inQuery text) = some value) :
    ∃ first rest members rest', readValue (text.length + 11) (text ++ [' ', '\x7d']) = some (first, rest) ∧
      readMembers (text.length + 12) rest = some (members, rest') ∧
      value = .object (("query".toList, first) :: members) := by
  obtain ⟨rest', hread⟩ := parse_eq_some h
  rw [inQuery_length, inQuery_object] at hread
  obtain ⟨⟨⟨key, first⟩, rest⟩, hmember, hread⟩ := Option.bind_eq_some_iff.mp hread
  obtain ⟨⟨members, after⟩, hmembers, hread⟩ := Option.map_eq_some_iff.mp hread
  obtain ⟨rfl, rfl⟩ := Prod.mk.inj hread
  have hquoted := readString_quoted (show queryKey.IsPlain by decide) (':' :: ' ' :: (text ++ [' ', '\x7d']))
  have hsame : quoted queryKey ++ ':' :: ' ' :: (text ++ [' ', '\x7d']) =
      '"' :: (queryKey.raw ++ '"' :: ':' :: ' ' :: (text ++ [' ', '\x7d'])) := rfl
  rw [hsame] at hmember
  obtain ⟨after', below, hkey, hbelow, hfirst⟩ := (readMember_eq_some _).mp hmember
  rw [hquoted] at hkey
  obtain ⟨rfl, rfl⟩ := Prod.mk.inj (Option.some.inj hkey)
  rw [skipSpace_cons (by decide)] at hbelow
  obtain ⟨-, rfl⟩ := List.cons.inj hbelow
  rw [readValue_space] at hfirst
  exact ⟨first, rest, members, after, hfirst, hmembers, rfl⟩

theorem parse_inQuery_string {string : List Char}
    (h : readValue (text.length + 11) (text ++ [' ', '\x7d']) = some (.string string, [' ', '\x7d'])) :
    parse (inQuery text) = some (.object [("query".toList, .string string)]) := by
  have hmember := readMember_quoted _ (show queryKey.IsPlain by decide) ((readValue_space _ _).trans h)
  rw [parse, inQuery_length, inQuery_object, hmember]
  rfl

theorem length_le_debug (h : ∀ c ∈ text, Kept graphemeExtended printable c) :
    text.length ≤ (text.flatMap (escapeDebug graphemeExtended printable)).length := by
  induction text with
  | nil => exact le_rfl
  | cons c text ih =>
    rw [List.forall_mem_cons] at h
    have hne : escapeDebug graphemeExtended printable c ≠ [] := by
      intro hnil
      have hread := readChar_kept h.1 []
      rw [hnil] at hread
      cases hread
    have hpos := List.length_pos_iff.mpr hne
    have hrest := ih h.2
    rw [List.flatMap_cons, List.length_append, List.length_cons]
    omega

theorem kept_no_backslash (h : ∀ c ∈ text, Kept graphemeExtended printable c) : text.contains '\\' = false := by
  rw [List.contains_eq_mem, decide_eq_false_iff_not]
  exact fun hmem => (h _ hmem).1 rfl

theorem readValue_debug (fuel : ℕ) (text rest : List Char) :
    readValue (fuel + 1) (debug graphemeExtended printable text ++ rest) =
      (readString ((text.flatMap (escapeDebug graphemeExtended printable) ++ '"' :: rest).length + 1)
        (text.flatMap (escapeDebug graphemeExtended printable) ++ '"' :: rest)).map fun p => (.string p.1, p.2) := by
  rw [debug, List.cons_append, List.append_assoc, readValue_string]
  rfl

theorem parse_kept (h : ∀ c ∈ text, Kept graphemeExtended printable c) :
    parse (enriched graphemeExtended printable text) = some (.object [("query".toList, .string text)]) := by
  rw [enriched, kept_no_backslash h, if_neg Bool.false_ne_true]
  apply parse_inQuery_string
  have hlength := length_le_debug h
  rw [readValue_debug, readString_debug h (by rw [List.length_append]; omega)]
  rfl

theorem kept_of_parse (hbackslash : text.contains '\\' = false) {value : Value}
    (h : parse (enriched graphemeExtended printable text) = some value) :
    ∀ c ∈ text, Kept graphemeExtended printable c := by
  rw [enriched, hbackslash, if_neg Bool.false_ne_true] at h
  obtain ⟨first, rest, members, rest', hfirst, -, -⟩ := parse_inQuery h
  rw [readValue_debug] at hfirst
  obtain ⟨result, hstring, -⟩ := Option.map_eq_some_iff.mp hfirst
  rw [List.contains_eq_mem, decide_eq_false_iff_not] at hbackslash
  exact kept_of_readString hbackslash hstring

theorem shorter_of_parse (hbackslash : text.contains '\\' = true) {members : List (List Char × Value)}
    (h : parse (enriched graphemeExtended printable text) = some (.object members)) :
    ∀ key string, (key, .string string) ∈ members → string.length < text.length := by
  rw [enriched, if_pos hbackslash] at h
  obtain ⟨first, rest, members', rest', hfirst, hmembers, hvalue⟩ := parse_inQuery h
  cases hvalue
  obtain ⟨hlength, hstring⟩ := (reads _).value _ _ _ hfirst
  obtain ⟨hlength', hstrings⟩ := (reads _).members _ _ _ hmembers
  simp only [List.length_append, List.length_cons, List.length_nil] at hlength hstring
  intro key string hmem
  rcases List.mem_cons.mp hmem with hmem | hmem
  · have hshort := hstring string (congrArg Prod.snd hmem).symm
    omega
  · have hshort := hstrings key string hmem
    omega

theorem graphqlRequest_exact_iff {fromValue : Value → Option Request} (hfrom : Deserializes fromValue)
    (text : List Char) :
    graphqlRequest graphemeExtended printable fromValue (some "application/graphql") text = some ⟨text, none, []⟩ ↔
      ∀ c ∈ text, Kept graphemeExtended printable c := by
  rw [graphqlRequest, if_pos rfl]
  constructor
  · intro h
    obtain ⟨value, hparse, hvalue⟩ := Option.bind_eq_some_iff.mp h
    cases hbackslash : text.contains '\\' with
    | false => exact kept_of_parse hbackslash hparse
    | true =>
      obtain ⟨members, rfl, hempty | hmem⟩ := hfrom.member _ _ hvalue
      · rw [show text = [] from hempty] at hbackslash
        cases hbackslash
      · exact absurd (shorter_of_parse hbackslash hparse _ _ hmem) (lt_irrefl _)
  · intro h
    rw [parse_kept h]
    exact hfrom.alone text

end

def requestOf : Value → Option Request
  | .object members =>
    let operationName := match members.lookup "operationName".toList with
      | some (.string name) => some name
      | _ => none
    let variableValues := match members.lookup "variables".toList with
      | some (.object entries) => entries
      | _ => []
    match members.filter fun member => member.1 == "query".toList with
    | [] => some ⟨[], operationName, variableValues⟩
    | [(_, .string text)] => some ⟨text, operationName, variableValues⟩
    | _ => none
  | _ => none

theorem deserializes_requestOf : Deserializes requestOf := by
  constructor
  · exact fun text => rfl
  · intro value request h
    cases value with
    | object members =>
      refine ⟨members, rfl, ?_⟩
      simp only [requestOf] at h
      split at h
      · cases h
        exact .inl rfl
      · next key text hfilter =>
        cases h
        have hmem : (key, Tree.string text) ∈ members.filter fun member => member.1 == "query".toList := by
          rw [hfilter]
          exact List.mem_cons_self
        obtain ⟨hmem, hkey⟩ := List.mem_filter.mp hmem
        rw [← eq_of_beq hkey]
        exact .inr hmem
      · cases h
    | _ => cases h

def ascii (c : Char) : Bool :=
  32 ≤ c.toNat && c.toNat < 127

theorem graphqlRequest_exact_user :
    graphqlRequest (fun _ => false) ascii requestOf (some "application/graphql")
        "\x7b user(name: \"Ann\") \x7d".toList = some ⟨"\x7b user(name: \"Ann\") \x7d".toList, none, []⟩ ↔
      ∀ c ∈ "\x7b user(name: \"Ann\") \x7d".toList, Kept (fun _ => false) ascii c :=
  graphqlRequest_exact_iff deserializes_requestOf _

theorem readValue_selection (fuel : ℕ) (rest : List Char) :
    readValue (fuel + 2) ('\x7b' :: ' ' :: 'u' :: rest) = none := rfl

theorem graphqlRequest_not_exact :
    graphqlRequest (fun _ => false) ascii requestOf (some "application/graphql")
      "\x7b user(name: \"A\\n\") \x7d".toList = none := by
  have hbackslash : "\x7b user(name: \"A\\n\") \x7d".toList.contains '\\' = true := by decide
  have hsplit : "\x7b user(name: \"A\\n\") \x7d".toList =
      '\x7b' :: ' ' :: 'u' :: "ser(name: \"A\\n\") \x7d".toList := by decide
  rw [graphqlRequest, if_pos rfl, enriched, if_pos hbackslash, Option.bind_eq_none_iff]
  intro value h
  obtain ⟨first, rest, members, rest', hfirst, -⟩ := parse_inQuery h
  rw [hsplit] at hfirst
  cases (readValue_selection _ _).symm.trans hfirst

end Gqlforge.GraphqlBodies
