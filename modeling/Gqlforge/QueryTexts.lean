import Gqlforge.FormUrlencoded
import Gqlforge.SortedMaps
import Mathlib.Data.List.DropRight
import Mathlib.Data.List.Infix

namespace Gqlforge.QueryTexts

open BigEndian FormUrlencoded

abbrev Text := List Char

/-! ## The query of a URL -/

def isC0OrSpace (c : Char) : Bool :=
  decide (c.toNat ≤ 32)

def tidy (text : Text) : Text :=
  visible (text.rdropWhile isC0OrSpace)

def inQuerySet (c : Char) : Bool :=
  decide (c.toNat ≤ 32) || decide (126 < c.toNat) || ['"', '#', '<', '>', '\''].contains c

def hexUpper (n : Nat) : Char :=
  n.digitChar.toUpper

def percentByte (byte : UInt8) : Text :=
  ['%', hexUpper (byte.toNat / 16), hexUpper (byte.toNat % 16)]

def encodeChar (c : Char) : Text :=
  if inQuerySet c then (String.utf8EncodeChar c).flatMap percentByte else [c]

def encodeQuery (text : Text) : Text :=
  text.flatMap encodeChar

def entryOf (pair : Text × Text) : Entry :=
  (pair.1, some pair.2)

def queryText (pairs : List (Text × Text)) : Text :=
  ['&'].intercalate (pairs.map fun pair => (entryOf pair).text)

theorem queryText_cons_cons (pair pair' : Text × Text) (rest : List (Text × Text)) :
    queryText (pair :: pair' :: rest) = (entryOf pair).text ++ '&' :: queryText (pair' :: rest) := by
  rw [queryText, List.map_cons, List.map_cons, List.intercalate_cons_cons, List.append_assoc]
  rfl

theorem queryText_singleton (pair : Text × Text) : queryText [pair] = (entryOf pair).text :=
  List.intercalate_singleton

theorem fields_induction {motive : Text → Prop} (one : ∀ text, '&' ∉ text → motive text)
    (more : ∀ front back, '&' ∉ front → motive front → motive back → motive (front ++ '&' :: back)) (text : Text) :
    motive text := by
  induction hn : text.length using Nat.strongRecOn generalizing text with
  | ind n ih =>
    subst hn
    by_cases hmem : '&' ∈ text
    · obtain ⟨front, back, rfl, hfront⟩ := List.eq_append_cons_of_mem hmem
      exact more front back hfront (one front hfront)
        (ih back.length (by rw [List.length_append, List.length_cons]; omega) back rfl)
    · exact one text hmem

/-! ## Escapes of the query set -/

variable {c : Char}

theorem hexDigit_range (h : (hexDigit c).isSome) :
    48 ≤ c.toNat ∧ c.toNat ≤ 57 ∨ 65 ≤ c.toNat ∧ c.toNat ≤ 70 ∨ 97 ≤ c.toNat ∧ c.toNat ≤ 102 := by
  unfold hexDigit at h
  split at h
  next hdigit =>
    simp only [Char.isDigit, Bool.and_eq_true, decide_eq_true_eq, UInt32.le_iff_toNat_le] at hdigit
    exact .inl hdigit
  · split at h
    next hlower => exact .inr (.inr hlower)
    · split at h
      next hupper => exact .inr (.inl hupper)
      · cases h

theorem inQuerySet_of_hexDigit (h : (hexDigit c).isSome) : inQuerySet c = false := by
  have hrange := hexDigit_range h
  have hne (c' : Char) (hc : c'.toNat < 48 ∨ c'.toNat = 60 ∨ c'.toNat = 62) : c ≠ c' := by
    rintro rfl
    omega
  have hnot : c ∉ ['"', '#', '<', '>', '\''] := by
    simp only [List.mem_cons, List.not_mem_nil, or_false, not_or]
    exact ⟨hne _ (by decide), hne _ (by decide), hne _ (by decide), hne _ (by decide), hne _ (by decide)⟩
  simp only [inQuerySet, List.contains_eq_mem, Bool.or_eq_false_iff, decide_eq_false_iff_not]
  exact ⟨⟨by omega, by omega⟩, hnot⟩

theorem hexDigit_hexUpper {n : Nat} (h : n < 16) : hexDigit (hexUpper n) = some n := by
  have hall : ∀ n : Fin 16, hexDigit (hexUpper n) = some n.val := by decide
  exact hall ⟨n, h⟩

theorem hexByte_percentByte (byte : UInt8) :
    hexByte (hexUpper (byte.toNat / 16)) (hexUpper (byte.toNat % 16)) = some byte := by
  have hlt : byte.toNat < 256 := UInt8.toNat_lt byte
  rw [hexByte, hexDigit_hexUpper (by omega), hexDigit_hexUpper (by omega)]
  show some (UInt8.ofNat (byte.toNat / 16 * 16 + byte.toNat % 16)) = some byte
  rw [Nat.div_add_mod', UInt8.ofNat_toNat]

theorem decodeBytes_percentBytes (bytes : Bytes) (rest : Text) :
    decodeBytes (bytes.flatMap percentByte ++ rest) = bytes ++ decodeBytes rest := by
  induction bytes with
  | nil => rfl
  | cons byte bytes ih =>
    rw [List.flatMap_cons, List.append_assoc, percentByte]
    show decodeBytes ('%' :: _ :: _ :: _) = _
    rw [decodeBytes, hexByte_percentByte]
    exact congrArg (byte :: ·) ih

theorem encodeQuery_cons (c : Char) (rest : Text) : encodeQuery (c :: rest) = encodeChar c ++ encodeQuery rest :=
  List.flatMap_cons

theorem encodeQuery_append (text text' : Text) : encodeQuery (text ++ text') = encodeQuery text ++ encodeQuery text' :=
  List.flatMap_append

theorem encodeChar_cases (c : Char) :
    encodeChar c = [c] ∧ inQuerySet c = false ∨ ∃ tail, encodeChar c = '%' :: tail ∧ inQuerySet c = true := by
  unfold encodeChar
  split
  next hset =>
    obtain ⟨byte, bytes, hbytes⟩ := List.exists_cons_of_ne_nil (String.utf8EncodeChar_ne_nil (c := c))
    rw [hbytes]
    exact .inr ⟨_, rfl, hset⟩
  next hset => exact .inl ⟨rfl, Bool.not_eq_true _ ▸ hset⟩

theorem hexByte_isSome {high low : Char} (h : (hexByte high low).isSome) : (hexDigit high).isSome ∧ (hexDigit low).isSome := by
  unfold hexByte at h
  cases hhigh : hexDigit high with
  | none => rw [hhigh] at h; cases h
  | some _ =>
    cases hlow : hexDigit low with
    | none => rw [hhigh, hlow] at h; cases h
    | some _ => exact ⟨rfl, rfl⟩

variable {rest : Text}

theorem eq_of_encodeQuery {text : Text} (h : encodeQuery text = c :: rest) (hc : c ≠ '%') :
    ∃ text', text = c :: text' ∧ encodeQuery text' = rest := by
  cases text with
  | nil => cases h
  | cons c' text' =>
    rw [encodeQuery_cons] at h
    rcases encodeChar_cases c' with ⟨hone, _⟩ | ⟨tail, htail, _⟩
    · rw [hone] at h
      cases h
      exact ⟨text', rfl, rfl⟩
    · rw [htail] at h
      cases h
      exact absurd rfl hc

theorem eq_of_hexByte_encodeQuery {text : Text} {high low : Char} (h : encodeQuery text = high :: low :: rest)
    (hhex : (hexByte high low).isSome) : ∃ text', text = high :: low :: text' := by
  have hpercent {c : Char} (hc : (hexDigit c).isSome) : c ≠ '%' := by
    rintro rfl
    exact absurd hc (by decide)
  obtain ⟨hhigh, hlow⟩ := hexByte_isSome hhex
  obtain ⟨tail, rfl, htail⟩ := eq_of_encodeQuery h (hpercent hhigh)
  obtain ⟨text', rfl, _⟩ := eq_of_encodeQuery htail (hpercent hlow)
  exact ⟨text', rfl⟩

theorem decodeBytes_of_no_digits
    (h : ∀ high low rest', c = '%' → rest = high :: low :: rest' → hexByte high low = none) :
    decodeBytes (c :: rest) = String.utf8EncodeChar (if c = '+' then ' ' else c) ++ decodeBytes rest := by
  by_cases hc : c = '%'
  · subst hc
    match rest with
    | high :: low :: rest' =>
      rw [decodeBytes, h high low rest' rfl rfl]
      rfl
    | [] => rfl
    | [_] => rfl
  · rw [decodeBytes]
    exact fun _ _ _ heq _ => hc heq

theorem decodeBytes_encodeQuery (text : Text) : decodeBytes (encodeQuery text) = decodeBytes text := by
  have hstep (c : Char) (rest : Text) (ih : decodeBytes (encodeQuery rest) = decodeBytes rest)
      (h : ∀ high low rest', c = '%' → rest = high :: low :: rest' → hexByte high low = none) :
      decodeBytes (encodeQuery (c :: rest)) = decodeBytes (c :: rest) := by
    rw [encodeQuery_cons, decodeBytes_of_no_digits h]
    rcases encodeChar_cases c with ⟨hone, _⟩ | ⟨_, _, hset⟩
    · rw [hone, List.singleton_append, decodeBytes_of_no_digits, ih]
      intro high low rest' hc hrest
      by_contra hsome
      obtain ⟨text', rfl⟩ := eq_of_hexByte_encodeQuery hrest (Option.isSome_iff_ne_none.mpr hsome)
      exact hsome (h high low text' hc rfl)
    · have hplus : c ≠ '+' := by
        rintro rfl
        exact absurd hset (by decide)
      rw [encodeChar, if_pos hset, decodeBytes_percentBytes, ih, if_neg hplus]
  fun_induction decodeBytes text with
  | case1 high low rest byte hbyte ih =>
    obtain ⟨hhigh, hlow⟩ := hexByte_isSome (Option.isSome_iff_exists.mpr ⟨byte, hbyte⟩)
    have hplain {c : Char} (hc : inQuerySet c = false) (rest : Text) : encodeQuery (c :: rest) = c :: encodeQuery rest := by
      rw [encodeQuery_cons, encodeChar, hc]
      rfl
    rw [hplain (by decide), hplain (inQuerySet_of_hexDigit hhigh), hplain (inQuerySet_of_hexDigit hlow), decodeBytes,
      hbyte]
    exact congrArg (byte :: ·) ih
  | case2 high low rest hbyte ih =>
    rw [hstep _ _ ih fun _ _ _ _ heq => by cases heq; exact hbyte, decodeBytes, hbyte]
  | case3 c rest hother ih =>
    rw [hstep c rest ih fun _ _ _ hc hrest => (hother _ _ _ hc hrest).elim, decodeBytes]
    exact hother
  | case4 => rfl

section

variable {read : Bytes → Text}

variable {sep : Char} {text : Text}

theorem not_mem_encodeQuery (hset : inQuerySet sep = false) (hpercent : sep ∉ '%' :: "0123456789ABCDEF".toList)
 (h : sep ∉ text) : sep ∉ encodeQuery text := by
  have hdigit (n : Nat) (hn : n < 16) : hexUpper n ∈ "0123456789ABCDEF".toList := by
    have hall : ∀ n : Fin 16, hexUpper n ∈ "0123456789ABCDEF".toList := by decide
    exact hall ⟨n, hn⟩
  intro hmem
  obtain ⟨c, hc, hsep⟩ := List.mem_flatMap.mp hmem
  unfold encodeChar at hsep
  split at hsep
  · obtain ⟨byte, _, hbyte⟩ := List.mem_flatMap.mp hsep
    have hlt : byte.toNat < 256 := UInt8.toNat_lt byte
    simp only [percentByte, List.mem_cons, List.not_mem_nil, or_false] at hbyte
    rcases hbyte with rfl | rfl | rfl
    · exact hpercent List.mem_cons_self
    · exact hpercent (List.mem_cons_of_mem _ (hdigit _ (by omega)))
    · exact hpercent (List.mem_cons_of_mem _ (hdigit _ (by omega)))
  · exact h (List.mem_singleton.mp hsep ▸ hc)

theorem field_keyed {key : Text} (h : '=' ∉ key) (value : Text) :
    field read (key ++ '=' :: value) = (decode read key, decode read value) := by
  obtain ⟨htake, hdrop⟩ := takeWhile_key h value
  rw [field, htake, hdrop]

theorem field_bare (h : '=' ∉ text) : field read text = (decode read text, decode read []) := by
  rw [field, List.takeWhile_eq_self_iff.mpr (bne_of_not_mem h), List.dropWhile_eq_nil_iff.mpr (bne_of_not_mem h)]
  rfl

theorem decode_encodeQuery (text : Text) : decode read (encodeQuery text) = decode read text := by
  rw [decode, decodeBytes_encodeQuery]
  rfl

theorem encodeQuery_sep (hset : inQuerySet sep = false) (front back : Text) :
    encodeQuery (front ++ sep :: back) = encodeQuery front ++ sep :: encodeQuery back := by
  rw [encodeQuery_append, encodeQuery_cons, encodeChar, hset]
  rfl

theorem parse_encodeQuery (text : Text) : parse read (encodeQuery text) = parse read text := by
  induction text using fields_induction with
  | one text h =>
    have hamp : '&' ∉ encodeQuery text := not_mem_encodeQuery (by decide) (by decide) h
    cases text with
    | nil => rfl
    | cons c rest =>
      have hne : encodeQuery (c :: rest) ≠ [] := by
        rw [encodeQuery_cons]
        rcases encodeChar_cases c with ⟨hone, _⟩ | ⟨_, hcons, _⟩
        · rw [hone]; nofun
        · rw [hcons]; nofun
      rw [parse_of_not_mem hamp hne, parse_of_not_mem h (List.cons_ne_nil c rest)]
      by_cases heq : '=' ∈ c :: rest
      · obtain ⟨key, value, htext, hkey⟩ := List.eq_append_cons_of_mem heq
        rw [htext, encodeQuery_sep (by decide), field_keyed hkey,
          field_keyed (not_mem_encodeQuery (by decide) (by decide) hkey), decode_encodeQuery, decode_encodeQuery]
      · rw [field_bare heq, field_bare (not_mem_encodeQuery (by decide) (by decide) heq), decode_encodeQuery]
  | more front back _ ihfront ihback => rw [encodeQuery_sep (by decide), parse_append, parse_append, ihfront, ihback]

/-! ## Counting characters -/

theorem hasEscape_sep (hsep : sep = '&' ∨ sep = '=') (front back : Text) :
    hasEscape (front ++ sep :: back) = (hasEscape front || hasEscape back) := by
  have hdigit : hexDigit sep = none := by rcases hsep with rfl | rfl <;> decide
  have hnone (c c' : Char) (hc : c = sep ∨ c' = sep) : hexByte c c' = none := by
    by_contra hsome
    obtain ⟨hleft, hright⟩ := hexByte_isSome (Option.isSome_iff_ne_none.mpr hsome)
    rcases hc with rfl | rfl
    · rw [hdigit] at hleft; cases hleft
    · rw [hdigit] at hright; cases hright
  have hcons (back : Text) : hasEscape (sep :: back) = hasEscape back := by
    rw [hasEscape]
    rintro _ _ _ rfl
    rcases hsep with h | h <;> exact absurd h (by decide)
  fun_induction hasEscape front with
  | case1 high low rest ih =>
    show hasEscape ('%' :: high :: low :: (rest ++ sep :: back)) = _
    rw [hasEscape, Bool.or_assoc]
    exact congrArg _ ih
  | case2 c rest hother ih =>
    rw [List.cons_append, ← ih]
    by_cases hc : c = '%'
    · rcases rest with _ | ⟨high, _ | ⟨low, rest⟩⟩
      · subst hc
        cases back with
        | nil => rfl
        | cons c' back => rw [List.nil_append, hasEscape, hnone _ _ (.inl rfl)]; rfl
      · subst hc
        show hasEscape ('%' :: high :: sep :: back) = _
        rw [hasEscape, hnone _ _ (.inr rfl)]
        rfl
      · exact (hother _ _ _ hc rfl).elim
    · rw [hasEscape]
      exact fun _ _ _ heq _ => hc heq
  | case3 => rw [List.nil_append, hcons, Bool.false_or]

theorem hasEscape_cons (h : hasEscape text = true) (c : Char) : hasEscape (c :: text) = true := by
  by_cases hc : c = '%'
  · subst hc
    match text with
    | high :: low :: rest => rw [hasEscape, h, Bool.or_true]
    | [] => cases h
    | [_] => exact h
  · rw [hasEscape]
    · exact h
    · exact fun _ _ _ heq _ => hc heq

theorem hasEscape_append (h : hasEscape text = true) (rest : Text) : hasEscape (text ++ rest) = true := by
  fun_induction hasEscape text with
  | case1 high low tail ih =>
    show hasEscape ('%' :: high :: low :: (tail ++ rest)) = true
    rw [hasEscape, Bool.or_eq_true]
    exact (Bool.or_eq_true _ _ ▸ h).imp_right ih
  | case2 c tail _ ih => exact hasEscape_cons (ih h) c
  | case3 => cases h

theorem hasEscape_part {part : Text} (hpart : part <:+: text) (h : hasEscape text = false) :
    hasEscape part = false := by
  obtain ⟨front, back, rfl⟩ := hpart
  rw [← Bool.not_eq_true] at h ⊢
  intro hescape
  apply h
  rw [List.append_assoc]
  induction front with
  | nil => exact hasEscape_append hescape back
  | cons c front ih => exact hasEscape_cons (ih (fun hfront => h (hasEscape_cons hfront c))) c

theorem hasEscape_queryText (pairs : List (Text × Text)) :
    hasEscape (queryText pairs) = pairs.any fun pair => hasEscape pair.1 || hasEscape pair.2 := by
  induction pairs with
  | nil => rfl
  | cons pair rest ih =>
    have hone : hasEscape (entryOf pair).text = (hasEscape pair.1 || hasEscape pair.2) := hasEscape_sep (.inr rfl) _ _
    cases rest with
    | nil => rw [queryText_singleton, hone, List.any_cons, List.any_nil, Bool.or_false]
    | cons pair' rest =>
      rw [queryText_cons_cons, hasEscape_sep (.inl rfl), hone, ih]
      rfl

variable (p : Char → Bool)

def total (pairs : List (Text × Text)) : Nat :=
  (pairs.map fun pair => pair.1.countP p + pair.2.countP p).sum

variable {p}

theorem total_subperm {pairs pairs' : List (Text × Text)} (h : pairs.Subperm pairs') : total p pairs ≤ total p pairs' := by
  obtain ⟨middle, hperm, hsub⟩ := h
  rw [total, ← (hperm.map _).sum_eq]
  exact (hsub.map _).sum_le_sum fun _ _ => Nat.zero_le _

theorem countP_queryText (hamp : p '&' = false) (heq : p '=' = false) (pairs : List (Text × Text)) :
    (queryText pairs).countP p = total p pairs := by
  induction pairs with
  | nil => rfl
  | cons pair rest ih =>
    have hone : (entryOf pair).text.countP p = pair.1.countP p + pair.2.countP p := by
      show (pair.1 ++ '=' :: pair.2).countP p = _
      rw [List.countP_append, List.countP_cons_of_neg (by simp [heq])]
    cases rest with
    | nil => rw [queryText_singleton, hone]; rfl
    | cons pair' rest =>
      rw [queryText_cons_cons, List.countP_append, hone, List.countP_cons_of_neg (by simp [hamp]), ih]
      rfl

theorem total_parse_le {cost : Text → Nat} (hamp : p '&' = false) (heq : p '=' = false)
    (hcost : ∀ sep, sep = '&' ∨ sep = '=' → ∀ front back, cost (front ++ sep :: back) ≤ cost front + cost back)
    (text : Text) (h : ∀ part, part <:+: text → (decode read part).countP p + cost part ≤ part.countP p) :
    total p (parse read text) + cost text ≤ text.countP p := by
  have hnil : (decode read []).countP p + cost [] ≤ 0 := h [] (List.nil_infix)
  induction text using fields_induction with
  | one text hmem =>
    cases text with
    | nil =>
      show 0 + cost [] ≤ 0
      omega
    | cons c rest =>
      have hsingle (key value : Text) : total p [(key, value)] = key.countP p + value.countP p := Nat.add_zero _
      rw [parse_of_not_mem hmem (List.cons_ne_nil c rest)]
      by_cases hvalue : '=' ∈ c :: rest
      · obtain ⟨key, value, htext, hkey⟩ := List.eq_append_cons_of_mem hvalue
        rw [htext] at h ⊢
        have hleft := h key (List.prefix_append key _).isInfix
        have hright := h value ((List.suffix_cons '=' value).trans (List.suffix_append key _)).isInfix
        have hsplit := hcost '=' (.inr rfl) key value
        rw [field_keyed hkey, hsingle, List.countP_append, List.countP_cons_of_neg (by simp [heq])]
        omega
      · have hwhole := h (c :: rest) List.infix_rfl
        rw [field_bare hvalue, hsingle]
        omega
  | more front back _ ihfront ihback =>
    have hleft := ihfront fun part hpart => h part (hpart.trans (List.prefix_append front _).isInfix)
    have hright := ihback fun part hpart =>
      h part (hpart.trans ((List.suffix_cons '&' back).trans (List.suffix_append front _)).isInfix)
    have hsplit := hcost '&' (.inl rfl) front back
    have happend : total p (parse read front ++ parse read back) = total p (parse read front) + total p (parse read back) := by
      rw [total, List.map_append, List.sum_append]
      rfl
    rw [parse_append, happend, List.countP_append, List.countP_cons_of_neg (by simp [hamp])]
    omega

end

end Gqlforge.QueryTexts
