import Mathlib.Algebra.BigOperators.Group.List.Basic
import Mathlib.Algebra.GroupWithZero.Nat
import Mathlib.Data.List.Count
import Mathlib.Order.Nat

namespace Gqlforge.JsonTexts

def hexDigit (n : ℕ) : Char :=
  if n < 10 then Char.ofNat ('0'.toNat + n) else Char.ofNat ('a'.toNat + (n - 10))

def escapeChar (c : Char) : List Char :=
  if c = '"' then ['\\', '"']
  else if c = '\\' then ['\\', '\\']
  else if c = '\x08' then ['\\', 'b']
  else if c = '\x0c' then ['\\', 'f']
  else if c = '\n' then ['\\', 'n']
  else if c = '\r' then ['\\', 'r']
  else if c = '\t' then ['\\', 't']
  else if c.toNat < 0x20 then ['\\', 'u', '0', '0', hexDigit (c.toNat / 16), hexDigit (c.toNat % 16)]
  else [c]

def hexValue (c : Char) : Option ℕ :=
  if c.isDigit then some (c.toNat - '0'.toNat)
  else if 'a' ≤ c ∧ c ≤ 'f' then some (c.toNat - 'a'.toNat + 10)
  else if 'A' ≤ c ∧ c ≤ 'F' then some (c.toNat - 'A'.toNat + 10)
  else none

def readHex : List Char → Option (ℕ × List Char)
  | a :: b :: c :: d :: rest => do
    let a ← hexValue a
    let b ← hexValue b
    let c ← hexValue c
    let d ← hexValue d
    return (((a * 16 + b) * 16 + c) * 16 + d, rest)
  | _ => none

def readLow (high : ℕ) : List Char → Option (Char × List Char)
  | '\\' :: 'u' :: rest => do
    let (low, rest) ← readHex rest
    if 0xDC00 ≤ low ∧ low < 0xE000 then
      return (Char.ofNat (0x10000 + (high - 0xD800) * 0x400 + (low - 0xDC00)), rest)
    else none
  | _ => none

def readUnicode (input : List Char) : Option (Char × List Char) := do
  let (code, rest) ← readHex input
  if 0xD800 ≤ code ∧ code < 0xDC00 then readLow code rest
  else if 0xDC00 ≤ code ∧ code < 0xE000 then none
  else return (Char.ofNat code, rest)

def readEscape : List Char → Option (Char × List Char)
  | '"' :: rest => some ('"', rest)
  | '\\' :: rest => some ('\\', rest)
  | '/' :: rest => some ('/', rest)
  | 'b' :: rest => some ('\x08', rest)
  | 'f' :: rest => some ('\x0c', rest)
  | 'n' :: rest => some ('\n', rest)
  | 'r' :: rest => some ('\r', rest)
  | 't' :: rest => some ('\t', rest)
  | 'u' :: rest => readUnicode rest
  | _ => none

def readChar : List Char → Option (Char × List Char)
  | [] => none
  | '\\' :: rest => readEscape rest
  | c :: rest => if c.toNat < 0x20 then none else some (c, rest)

def readString : ℕ → List Char → Option (List Char × List Char)
  | 0, _ => none
  | _ + 1, '"' :: rest => some ([], rest)
  | fuel + 1, input => do
    let (c, rest) ← readChar input
    let (text, rest) ← readString fuel rest
    return (c :: text, rest)

def cost (c : Char) : ℕ :=
  (escapeChar c).length

def costs (text : List Char) : ℕ :=
  (text.map cost).sum

def Plain (c : Char) : Prop :=
  c ≠ '"' ∧ c ≠ '\\' ∧ 0x20 ≤ c.toNat

instance (c : Char) : Decidable (Plain c) :=
  inferInstanceAs (Decidable (_ ∧ _ ∧ _))

theorem escapeChar_plain {c : Char} (h : Plain c) : escapeChar c = [c] := by
  obtain ⟨hquote, hbackslash, hcontrol⟩ := h
  have hne {d : Char} (hd : d.toNat < 0x20) : c ≠ d := by
    rintro rfl
    omega
  unfold escapeChar
  rw [if_neg hquote, if_neg hbackslash, if_neg (hne (by decide)), if_neg (hne (by decide)),
    if_neg (hne (by decide)), if_neg (hne (by decide)), if_neg (hne (by decide)), if_neg (by omega)]

theorem escapeChar_cases (c : Char) : Plain c ∨ ∃ d rest, escapeChar c = '\\' :: d :: rest := by
  by_cases h : Plain c
  · exact .inl h
  right
  unfold escapeChar
  split
  · exact ⟨_, _, rfl⟩
  split
  · exact ⟨_, _, rfl⟩
  split
  · exact ⟨_, _, rfl⟩
  split
  · exact ⟨_, _, rfl⟩
  split
  · exact ⟨_, _, rfl⟩
  split
  · exact ⟨_, _, rfl⟩
  split
  · exact ⟨_, _, rfl⟩
  split
  · exact ⟨_, _, rfl⟩
  next hquote hbackslash _ _ _ _ _ hcontrol => exact absurd ⟨hquote, hbackslash, by omega⟩ h

theorem cost_eq_one_iff {c : Char} : cost c = 1 ↔ Plain c := by
  constructor
  · intro h
    rcases escapeChar_cases c with hplain | ⟨d, rest, hescape⟩
    · exact hplain
    · rw [cost, hescape] at h
      simp at h
  · intro h
    rw [cost, escapeChar_plain h]
    rfl

theorem one_le_cost (c : Char) : 1 ≤ cost c := by
  rcases escapeChar_cases c with hplain | ⟨d, rest, hescape⟩
  · exact (cost_eq_one_iff.mpr hplain).ge
  · rw [cost, hescape]
    simp

theorem cost_le_six (c : Char) : cost c ≤ 6 := by
  unfold cost escapeChar
  split_ifs <;> simp

section Reading

/-- What is read for a character is at least as long as its shortest form, and holds no other quote. -/
structure Consumed (input : List Char) (c : Char) (rest : List Char) : Prop where
  exists_used : ∃ used, input = used ++ rest ∧ cost c ≤ used.length ∧ used.count '"' ≤ [c].count '"'

variable {input rest : List Char}

theorem readHex_used {n : ℕ} (h : readHex input = some (n, rest)) :
    ∃ used, input = used ++ rest ∧ used.length = 4 ∧ used.count '"' = 0 := by
  have hquote {c : Char} {n : ℕ} (hc : hexValue c = some n) : c ≠ '"' := by
    rintro rfl
    cases hc
  unfold readHex at h
  split at h
  · next a b c d tail =>
    obtain ⟨na, ha, h⟩ := Option.bind_eq_some_iff.mp h
    obtain ⟨nb, hb, h⟩ := Option.bind_eq_some_iff.mp h
    obtain ⟨nc, hc, h⟩ := Option.bind_eq_some_iff.mp h
    obtain ⟨nd, hd, h⟩ := Option.bind_eq_some_iff.mp h
    obtain ⟨-, rfl⟩ := Prod.mk.inj (Option.some.inj h)
    refine ⟨[a, b, c, d], rfl, rfl, List.count_eq_zero.mpr ?_⟩
    simp [(hquote ha).symm, (hquote hb).symm, (hquote hc).symm, (hquote hd).symm]
  · cases h

theorem readUnicode_used {c : Char} (h : readUnicode input = some (c, rest)) :
    ∃ used, input = used ++ rest ∧ 4 ≤ used.length ∧ used.count '"' = 0 := by
  obtain ⟨⟨code, rest'⟩, hcode, hlast⟩ := Option.bind_eq_some_iff.mp h
  obtain ⟨used, rfl, hlength, hcount⟩ := readHex_used hcode
  dsimp only at hlast
  split at hlast
  · unfold readLow at hlast
    split at hlast
    · next tail =>
      obtain ⟨⟨low, rest''⟩, hlow, hchar⟩ := Option.bind_eq_some_iff.mp hlast
      obtain ⟨used', rfl, -, hcount'⟩ := readHex_used hlow
      dsimp only at hchar
      split at hchar
      · obtain ⟨-, rfl⟩ := Prod.mk.inj (Option.some.inj hchar)
        refine ⟨used ++ '\\' :: 'u' :: used', by simp, by simp; omega, ?_⟩
        simp [List.count_append, hcount, hcount']
      · cases hchar
    · cases hlast
  · split at hlast
    · cases hlast
    · obtain ⟨-, rfl⟩ := Prod.mk.inj (Option.some.inj hlast)
      exact ⟨used, rfl, hlength.ge, hcount⟩

theorem readEscape_consumed {c : Char} (h : readEscape input = some (c, rest)) : Consumed ('\\' :: input) c rest := by
  have hpair {d : Char} {tail : List Char} (hd : input = d :: tail) (hc : cost c ≤ 2)
      (hquote : ['\\', d].count '"' ≤ [c].count '"') (hrest : tail = rest) : Consumed ('\\' :: input) c rest := by
    subst hd hrest
    exact ⟨['\\', d], rfl, hc, hquote⟩
  unfold readEscape at h
  split at h
  case h_9 tail =>
    obtain ⟨used, rfl, hlength, hcount⟩ := readUnicode_used h
    refine ⟨'\\' :: 'u' :: used, rfl, le_trans (cost_le_six c) (by simp only [List.length_cons]; omega), ?_⟩
    simp [List.count_cons, hcount]
  case h_10 => cases h
  all_goals
    obtain ⟨rfl, hrest⟩ := Prod.mk.inj (Option.some.inj h)
    exact hpair rfl (by decide) (by decide) hrest

theorem readChar_consumed {c : Char} (hquote : input.head? ≠ some '"')
    (h : readChar input = some (c, rest)) : Consumed input c rest := by
  unfold readChar at h
  split at h
  · cases h
  · exact readEscape_consumed h
  next d tail hbackslash =>
    split at h
    · cases h
    next hcontrol =>
      obtain ⟨rfl, rfl⟩ := Prod.mk.inj (Option.some.inj h)
      have hplain : Plain d := ⟨fun hd => hquote (by rw [hd]; rfl), hbackslash, by omega⟩
      exact ⟨[d], rfl, (cost_eq_one_iff.mpr hplain).le, le_rfl⟩

theorem readString_cons (hquote : input.head? ≠ some '"') (fuel : ℕ) :
    readString (fuel + 1) input = (readChar input).bind fun p =>
      (readString fuel p.2).map fun q => (p.1 :: q.1, q.2) := by
  rw [readString]
  · cases readChar input with
    | none => rfl
    | some p =>
      obtain ⟨c, rest⟩ := p
      change ((readString fuel rest).bind fun q => some (c :: q.1, q.2)) =
        (readString fuel rest).map fun q => (c :: q.1, q.2)
      cases readString fuel rest <;> rfl
  · rintro rest rfl
    exact hquote rfl

theorem readString_used {fuel : ℕ} {text : List Char} (h : readString fuel input = some (text, rest)) :
    ∃ used, input = used ++ '"' :: rest ∧ costs text ≤ used.length ∧ used.count '"' ≤ text.count '"' := by
  induction fuel generalizing input text with
  | zero => cases h
  | succ fuel ih =>
    by_cases hquote : input.head? = some '"'
    · obtain ⟨tail, rfl⟩ : ∃ tail, input = '"' :: tail := by
        cases input with
        | nil => cases hquote
        | cons d tail => exact ⟨tail, by rw [Option.some.inj hquote]⟩
      obtain ⟨rfl, rfl⟩ := Prod.mk.inj (Option.some.inj h)
      exact ⟨[], rfl, le_rfl, le_rfl⟩
    · rw [readString_cons hquote] at h
      obtain ⟨⟨c, rest'⟩, hchar, h⟩ := Option.bind_eq_some_iff.mp h
      obtain ⟨⟨text', rest''⟩, hstring, heq⟩ := Option.map_eq_some_iff.mp h
      obtain ⟨rfl, rfl⟩ := Prod.mk.inj heq
      obtain ⟨used, rfl, hcost, hcount⟩ := (readChar_consumed hquote hchar).exists_used
      obtain ⟨used', rfl, hcosts, hcounts⟩ := ih hstring
      refine ⟨used ++ used', by simp, ?_, ?_⟩
      · rw [List.length_append, costs, List.map_cons, List.sum_cons]
        exact Nat.add_le_add hcost hcosts
      · rw [List.count_append, ← List.singleton_append, List.count_append]
        exact Nat.add_le_add hcount hcounts

end Reading

theorem hexValue_hexDigit : ∀ n < 16, hexValue (hexDigit n) = some n := by
  decide

theorem readChar_escapeChar (c : Char) (rest : List Char) : readChar (escapeChar c ++ rest) = some (c, rest) := by
  rcases Decidable.em (Plain c) with hplain | hplain
  · rw [escapeChar_plain hplain]
    obtain ⟨-, hbackslash, hcontrol⟩ := hplain
    rw [List.singleton_append, readChar]
    · rw [if_neg (by omega)]
    · exact hbackslash
  · unfold escapeChar
    split
    · next h => rw [h]; rfl
    split
    · next h => rw [h]; rfl
    split
    · next h => rw [h]; rfl
    split
    · next h => rw [h]; rfl
    split
    · next h => rw [h]; rfl
    split
    · next h => rw [h]; rfl
    split
    · next h => rw [h]; rfl
    split
    · next hcontrol =>
      have hhex : readHex ('0' :: '0' :: hexDigit (c.toNat / 16) :: hexDigit (c.toNat % 16) :: rest) =
          some (c.toNat, rest) := by
        rw [readHex, hexValue_hexDigit _ (by omega), hexValue_hexDigit _ (by omega)]
        have hcode : ((0 * 16 + 0) * 16 + c.toNat / 16) * 16 + c.toNat % 16 = c.toNat := by omega
        exact congrArg (fun n => some (n, rest)) hcode
      have hcode : readUnicode ('0' :: '0' :: hexDigit (c.toNat / 16) :: hexDigit (c.toNat % 16) :: rest) =
          some (c, rest) := by
        rw [readUnicode, hhex]
        change (if 0xD800 ≤ c.toNat ∧ c.toNat < 0xDC00 then readLow c.toNat rest
          else if 0xDC00 ≤ c.toNat ∧ c.toNat < 0xE000 then none else some (Char.ofNat c.toNat, rest)) = _
        rw [if_neg (by omega), if_neg (by omega), Char.ofNat_toNat]
      exact hcode
    next hquote hbackslash _ _ _ _ _ hcontrol => exact absurd ⟨hquote, hbackslash, by omega⟩ hplain

abbrev Written := List (Char × Bool)

namespace Written

def raw (written : Written) : List Char :=
  written.flatMap fun (c, escaped) => if escaped then escapeChar c else [c]

def chars (written : Written) : List Char :=
  written.map Prod.fst

def IsPlain (written : Written) : Prop :=
  ∀ c, (c, false) ∈ written → Plain c

instance (written : Written) : Decidable written.IsPlain :=
  decidable_of_iff (∀ item ∈ written, item.2 = false → Plain item.1)
    ⟨fun h c hc => h (c, false) hc rfl, fun h item hitem hescaped => h item.1 (hescaped ▸ hitem)⟩

theorem raw_cons (c : Char) (escaped : Bool) (written : Written) :
    raw ((c, escaped) :: written) = (if escaped then escapeChar c else [c]) ++ raw written := rfl

theorem isPlain_cons (c : Char) (escaped : Bool) (written : Written) :
    IsPlain ((c, escaped) :: written) ↔ (escaped = false → Plain c) ∧ IsPlain written := by
  constructor
  · exact fun h => ⟨fun he => h c (he ▸ List.mem_cons_self), fun d hd => h d (List.mem_cons_of_mem _ hd)⟩
  · rintro ⟨hc, hw⟩ d hd
    rcases List.mem_cons.mp hd with heq | hd
    · obtain ⟨rfl, he⟩ := Prod.mk.inj heq
      exact hc he.symm
    · exact hw d hd

theorem item_length_le (c : Char) (escaped : Bool) :
    (if escaped then escapeChar c else [c]).length ≤ cost c ∧
      ((if escaped then escapeChar c else [c]).length = cost c ↔ (escaped = false → Plain c)) := by
  cases escaped with
  | true => simp [cost]
  | false =>
    refine ⟨one_le_cost c, ?_⟩
    simp only [Bool.false_eq_true, if_false, List.length_singleton, forall_const]
    rw [eq_comm, cost_eq_one_iff]

theorem raw_length (written : Written) :
    written.raw.length ≤ costs written.chars ∧ (written.raw.length = costs written.chars ↔ written.IsPlain) := by
  induction written with
  | nil => exact ⟨le_rfl, by simp [raw, costs, chars, IsPlain]⟩
  | cons item rest ih =>
    obtain ⟨c, escaped⟩ := item
    obtain ⟨hle, hiff⟩ := ih
    obtain ⟨hitem, hitemIff⟩ := item_length_le c escaped
    have hcosts : costs (chars ((c, escaped) :: rest)) = cost c + costs (chars rest) := rfl
    rw [raw_cons, List.length_append, hcosts, isPlain_cons, ← hitemIff, ← hiff]
    constructor
    · omega
    · constructor <;> intro h
      · constructor <;> omega
      · omega

theorem escapeChar_count (c : Char) : (escapeChar c).count '"' = [c].count '"' := by
  have hcontrol : ∀ n < 32, (escapeChar (Char.ofNat n)).count '"' = [Char.ofNat n].count '"' := by decide
  by_cases hc : c.toNat < 32
  · have h := hcontrol c.toNat hc
    rwa [Char.ofNat_toNat] at h
  by_cases hquote : c = '"'
  · subst hquote
    decide
  by_cases hbackslash : c = '\\'
  · subst hbackslash
    decide
  rw [escapeChar_plain ⟨hquote, hbackslash, by omega⟩]

theorem raw_count (written : Written) : written.raw.count '"' = written.chars.count '"' := by
  induction written with
  | nil => rfl
  | cons item rest ih =>
    obtain ⟨c, escaped⟩ := item
    have hchars : chars ((c, escaped) :: rest) = [c] ++ chars rest := rfl
    rw [raw_cons, hchars, List.count_append, List.count_append, ih]
    cases escaped with
    | true => rw [if_pos rfl, escapeChar_count]
    | false => rfl

theorem readString_raw {written : Written} (h : written.IsPlain) {fuel : ℕ} (hfuel : written.length < fuel)
    (rest : List Char) : readString fuel (written.raw ++ '"' :: rest) = some (written.chars, rest) := by
  induction written generalizing fuel with
  | nil =>
    obtain ⟨fuel, rfl⟩ := Nat.exists_eq_succ_of_ne_zero (Nat.ne_zero_of_lt hfuel)
    rfl
  | cons item tail ih =>
    obtain ⟨c, escaped⟩ := item
    obtain ⟨fuel, rfl⟩ := Nat.exists_eq_succ_of_ne_zero (Nat.ne_zero_of_lt hfuel)
    obtain ⟨hc, htail⟩ := (isPlain_cons c escaped tail).mp h
    have hitem : (if escaped then escapeChar c else [c]) = escapeChar c := by
      cases escaped with
      | true => rfl
      | false => exact (escapeChar_plain (hc rfl)).symm
    have hhead : (escapeChar c ++ (raw tail ++ '"' :: rest)).head? ≠ some '"' := by
      rcases escapeChar_cases c with hplain | ⟨d, more, hescape⟩
      · rw [escapeChar_plain hplain]
        simpa using hplain.1
      · rw [hescape]
        simp
    rw [raw_cons, hitem, List.append_assoc, readString_cons hhead, readChar_escapeChar, Option.bind_some,
      ih htail (by simpa using hfuel)]
    rfl

theorem readString_exact {written : Written} {fuel : ℕ} {rest rest' : List Char}
    (h : readString fuel (written.raw ++ '"' :: rest) = some (written.chars, rest')) :
    written.IsPlain ∧ rest' = rest := by
  obtain ⟨used, heq, hcosts, hcount⟩ := readString_used h
  obtain ⟨hle, hiff⟩ := written.raw_length
  rcases Nat.lt_or_ge written.raw.length used.length with hlong | hshort
  · -- The closing quote has been read as a part of the string.
    have hprefix : written.raw ++ ['"'] <+: used ++ '"' :: rest' := by
      rw [← heq]
      exact ⟨rest, by simp⟩
    have hlength : (written.raw ++ ['"']).length ≤ used.length := by
      rw [List.length_append]
      exact hlong
    obtain ⟨more, hused⟩ : written.raw ++ ['"'] <+: used :=
      List.prefix_of_prefix_length_le hprefix (List.prefix_append _ _) hlength
    rw [← hused, List.count_append, List.count_append, raw_count] at hcount
    simp at hcount
    omega
  · have hlength : used.length = written.raw.length := by omega
    obtain ⟨hused, hrest⟩ := List.append_inj heq hlength.symm
    exact ⟨hiff.mp (by omega), (List.cons.inj hrest).2.symm⟩

end Written

end Gqlforge.JsonTexts
