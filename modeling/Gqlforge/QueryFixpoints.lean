import Gqlforge.QueryTexts
import Mathlib.Data.Char
import Mathlib.Data.List.Lex

namespace Gqlforge.QueryFixpoints

open BigEndian FormUrlencoded QueryTexts

def isAscii (c : Char) : Bool :=
  decide (c.toNat < 128)

def isAsciiByte (byte : UInt8) : Bool :=
  decide (byte.toNat < 128)

def byteChar (byte : UInt8) : Char :=
  Char.ofNat byte.toNat

structure LossyUtf8 (read : Bytes → Text) : Prop extends Utf8 read where
  ascii (bytes : Bytes) : (read bytes).filter isAscii = (bytes.filter isAsciiByte).map byteChar

theorem byteChar_ofNat {c : Char} (h : isAscii c = true) : byteChar (UInt8.ofNat c.toNat) = c := by
  have hlt : c.toNat < 128 := of_decide_eq_true h
  have hnat : (UInt8.ofNat c.toNat).toNat = c.toNat := UInt8.toNat_ofNat_of_lt' (by show c.toNat < 256; omega)
  rw [byteChar, hnat, Char.ofNat_toNat]

theorem utf8_of_ascii {c : Char} (h : isAscii c = true) : String.utf8EncodeChar c = [UInt8.ofNat c.toNat] := by
  have hlt : c.toNat < 128 := of_decide_eq_true h
  exact if_pos (show c.val.toNat ≤ 127 from Nat.le_of_lt_succ hlt)

theorem utf8_byteChar {byte : UInt8} (h : isAsciiByte byte = true) :
    isAscii (byteChar byte) = true ∧ String.utf8EncodeChar (byteChar byte) = [byte] := by
  have hlt : byte.toNat < 128 := of_decide_eq_true h
  have hnat : (byteChar byte).toNat = byte.toNat := by
    have hall : ∀ n : Fin 128, (Char.ofNat n.val).toNat = n.val := by decide
    exact hall ⟨byte.toNat, hlt⟩
  have hascii : isAscii (byteChar byte) = true := decide_eq_true (hnat.symm ▸ hlt)
  exact ⟨hascii, by rw [utf8_of_ascii hascii, hnat, UInt8.ofNat_toNat]⟩

theorem filter_utf8 (c : Char) :
    ((String.utf8EncodeChar c).filter isAsciiByte).map byteChar = if isAscii c then [c] else [] := by
  by_cases h : isAscii c = true
  · have hbyte : isAsciiByte (UInt8.ofNat c.toNat) = true := by
      have hlt : c.toNat < 128 := of_decide_eq_true h
      have hnat : (UInt8.ofNat c.toNat).toNat = c.toNat := UInt8.toNat_ofNat_of_lt' (by show c.toNat < 256; omega)
      exact decide_eq_true (hnat.symm ▸ hlt)
    rw [utf8_of_ascii h, if_pos h, List.filter_cons_of_pos hbyte, List.filter_nil, List.map_singleton, byteChar_ofNat h]
  · have hge : 128 ≤ c.val.toNat := Nat.le_of_not_lt (of_decide_eq_false (Bool.not_eq_true _ ▸ h))
    rw [if_neg h, List.map_eq_nil_iff, List.filter_eq_nil_iff]
    intro byte hbyte
    rw [isAsciiByte, decide_eq_true_eq, Nat.not_lt]
    simp only [String.utf8EncodeChar] at hbyte
    have hlarge (n : Nat) (hn : 128 ≤ n % 256) : 128 ≤ (UInt8.ofNat n).toNat := by
      rwa [UInt8.toNat_ofNat']
    split at hbyte
    · omega
    · split at hbyte
      · simp only [List.mem_cons, List.not_mem_nil, or_false] at hbyte
        rcases hbyte with rfl | rfl <;> exact hlarge _ (by omega)
      · split at hbyte
        · simp only [List.mem_cons, List.not_mem_nil, or_false] at hbyte
          rcases hbyte with rfl | rfl | rfl <;> exact hlarge _ (by omega)
        · simp only [List.mem_cons, List.not_mem_nil, or_false] at hbyte
          rcases hbyte with rfl | rfl | rfl | rfl <;> exact hlarge _ (by omega)

theorem readUtf8_lossy : LossyUtf8 readUtf8 where
  toUtf8 := readUtf8_utf8
  ascii bytes := by
    induction hn : bytes.length using Nat.strongRecOn generalizing bytes with
    | ind n ih =>
      subst hn
      cases bytes with
      | nil => rfl
      | cons byte rest =>
        cases hdecode : (byte :: rest).toByteArray.utf8DecodeChar? 0 with
        | some c =>
          obtain ⟨tail, htail⟩ := ByteArray.exists_of_utf8DecodeChar?_eq_some hdecode
          have hbytes : byte :: rest = String.utf8EncodeChar c ++ tail.data.toList := by
            have hdata := congrArg (fun array => array.data.toList) htail
            simpa only [ByteArray.data_append, Array.toList_append, List.toList_data_toByteArray] using hdata
          have hpos : 0 < (String.utf8EncodeChar c).length := by
            rw [String.length_utf8EncodeChar]
            exact c.utf8Size_pos
          have htail := ih tail.data.toList.length (by rw [hbytes, List.length_append]; omega) _ rfl
          rw [hbytes, readUtf8_utf8.char, List.filter_append, List.map_append, filter_utf8, ← htail]
          by_cases hc : isAscii c = true
          · rw [List.filter_cons_of_pos hc, if_pos hc]
            rfl
          · rw [List.filter_cons_of_neg hc, if_neg hc]
            rfl
        | none =>
          have hbyte : ¬ isAsciiByte byte = true := by
            intro hbyte
            obtain ⟨hascii, hutf8⟩ := utf8_byteChar hbyte
            rw [← List.singleton_append, ← hutf8, List.toByteArray_append,
              ByteArray.utf8DecodeChar?_utf8EncodeChar_append] at hdecode
            cases hdecode
          rw [readUtf8, hdecode]
          show List.filter isAscii ('\uFFFD' :: readUtf8 rest) = _
          rw [List.filter_cons_of_neg (by decide), List.filter_cons_of_neg hbyte]
          exact ih rest.length (Nat.lt_succ_self _) rest rfl

section

variable {read : Bytes → Text}

def isCounted (c : Char) : Bool :=
  isAscii c && c != '=' && c != '&'

theorem countP_read (hread : LossyUtf8 read) (bytes : Bytes) :
    (read bytes).countP isCounted = ((bytes.filter isAsciiByte).map byteChar).countP isCounted := by
  rw [← hread.ascii, List.countP_filter]
  apply List.countP_congr
  intro c _
  cases hc : isAscii c <;> simp [isCounted, hc]

theorem countP_decode_le (hread : LossyUtf8 read) (text : Text) :
    (decode read text).countP isCounted + (if hasEscape text then 1 else 0) ≤ text.countP isCounted := by
  have hchar (c : Char) (bytes : Bytes) :
      (((String.utf8EncodeChar c ++ bytes).filter isAsciiByte).map byteChar).countP isCounted =
        (if isCounted c then 1 else 0) + ((bytes.filter isAsciiByte).map byteChar).countP isCounted := by
    rw [List.filter_append, List.map_append, List.countP_append, filter_utf8]
    congr 1
    by_cases hc : isAscii c = true
    · rw [if_pos hc, List.countP_singleton]
    · rw [if_neg hc, isCounted, Bool.eq_false_of_not_eq_true hc]
      rfl
  rw [decode, countP_read hread]
  fun_induction decodeBytes text with
  | case1 high low rest byte hbyte ih =>
    have hone : (((byte :: decodeBytes rest).filter isAsciiByte).map byteChar).countP isCounted ≤
        ((((decodeBytes rest).filter isAsciiByte).map byteChar).countP isCounted) + 1 := by
      rw [List.filter_cons]
      split
      · rw [List.map_cons, List.countP_cons]
        split <;> omega
      · omega
    have hdigit {c : Char} (hc : (hexDigit c).isSome) : isCounted c = true := by
      have hrange := hexDigit_range hc
      have hne (c' : Char) (hc' : c'.toNat = 61 ∨ c'.toNat = 38) : c ≠ c' := by
        rintro rfl
        omega
      simp only [isCounted, isAscii, Bool.and_eq_true, bne_iff_ne, decide_eq_true_eq]
      exact ⟨⟨by omega, hne '=' (by decide)⟩, hne '&' (by decide)⟩
    obtain ⟨hhigh, hlow⟩ := hexByte_isSome (Option.isSome_iff_exists.mpr ⟨byte, hbyte⟩)
    rw [List.countP_cons_of_pos (show isCounted '%' = true by decide), List.countP_cons_of_pos (hdigit hhigh),
      List.countP_cons_of_pos (hdigit hlow)]
    split <;> omega
  | case2 high low rest hbyte ih =>
    rw [hchar, hasEscape, hbyte, List.countP_cons]
    simp only [Option.isSome_none, Bool.false_or] at ih ⊢
    omega
  | case3 c rest hother ih =>
    have hplus : isCounted (if c = '+' then ' ' else c) = isCounted c := by
      split
      next hc => subst hc; decide
      · rfl
    rw [hchar, hplus, hasEscape, List.countP_cons]
    · omega
    · exact hother
  | case4 => rfl

def sortedPairs (read : Bytes → Text) (query : Text) : List (Text × Text) :=
  (SortedMap.ofPairs (parse read query)).entries

variable {text : Text}

theorem hasEscape_of_countP_le (hread : LossyUtf8 read)
    (h : text.countP isCounted ≤ (queryText (sortedPairs read text)).countP isCounted) : hasEscape text = false := by
  have hparse := @total_parse_le read isCounted (fun part => if hasEscape part then 1 else 0) (by decide) (by decide) (by
      intro sep hsep front back
      rw [hasEscape_sep hsep]
      cases hasEscape front <;> cases hasEscape back <;> decide) text fun part _ => countP_decode_le hread part
  have hsorted : total isCounted (sortedPairs read text) ≤ total isCounted (parse read text) :=
    total_subperm (SortedMap.ofPairs_subperm _)
  rw [countP_queryText (by decide) (by decide)] at h
  by_contra hescape
  rw [if_pos (Bool.not_eq_false _ ▸ hescape)] at hparse
  omega

variable {c : Char}

theorem mem_decode (hread : Utf8 read) (h : hasEscape text = false)
    (hc : c ∈ decode read text) : c ≠ '+' ∧ (c ∈ text ∨ c = ' ') := by
  rw [decode_of_no_escape hread h] at hc
  obtain ⟨c', hc', rfl⟩ := List.mem_map.mp hc
  split
  · exact ⟨by decide, .inr rfl⟩
  next hplus => exact ⟨hplus, .inl hc'⟩

theorem mem_parse (hread : Utf8 read) (h : hasEscape text = false) {pair : Text × Text}
    (hpair : pair ∈ parse read text) :
    '=' ∉ pair.1 ∧ ∀ c, c ∈ pair.1 ∨ c ∈ pair.2 → c ≠ '&' ∧ c ≠ '+' ∧ (c ∈ text ∨ c = ' ') := by
  induction text using fields_induction with
  | one text hmem =>
    have hne : text ≠ [] := by
      rintro rfl
      cases hpair
    have hamp {c : Char} (hc : c ∈ text ∨ c = ' ') : c ≠ '&' := by
      rintro rfl
      rcases hc with hc | hc
      · exact hmem hc
      · exact absurd hc (by decide)
    rw [parse_of_not_mem hmem hne, List.mem_singleton] at hpair
    by_cases heq : '=' ∈ text
    · obtain ⟨key, value, rfl, hkey⟩ := List.eq_append_cons_of_mem heq
      rw [hasEscape_sep (.inr rfl), Bool.or_eq_false_iff] at h
      rw [field_keyed hkey] at hpair
      subst hpair
      constructor
      · intro hmem'
        rcases (mem_decode hread h.1 hmem').2 with hc | hc
        · exact hkey hc
        · exact absurd hc (by decide)
      · rintro c (hc | hc)
        · obtain ⟨hplus, hwhere⟩ := mem_decode hread h.1 hc
          have hwhere' : c ∈ key ++ '=' :: value ∨ c = ' ' := hwhere.imp_left (List.mem_append_left _)
          exact ⟨hamp hwhere', hplus, hwhere'⟩
        · obtain ⟨hplus, hwhere⟩ := mem_decode hread h.2 hc
          have hwhere' : c ∈ key ++ '=' :: value ∨ c = ' ' :=
            hwhere.imp_left fun hc => List.mem_append_right _ (List.mem_cons_of_mem _ hc)
          exact ⟨hamp hwhere', hplus, hwhere'⟩
    · rw [field_bare heq] at hpair
      subst hpair
      constructor
      · intro hmem'
        rcases (mem_decode hread h hmem').2 with hc | hc
        · exact heq hc
        · exact absurd hc (by decide)
      · rintro c (hc | hc)
        · obtain ⟨hplus, hwhere⟩ := mem_decode hread h hc
          exact ⟨hamp hwhere, hplus, hwhere⟩
        · have hnil : decode read [] = [] := hread.nil
          rw [hnil] at hc
          cases hc
  | more front back _ ihfront ihback =>
    rw [hasEscape_sep (.inl rfl), Bool.or_eq_false_iff] at h
    rw [parse_append] at hpair
    rcases List.mem_append.mp hpair with hpair | hpair
    · obtain ⟨hkey, hall⟩ := ihfront h.1 hpair
      refine ⟨hkey, fun c hc => ?_⟩
      obtain ⟨hamp, hplus, hwhere⟩ := hall c hc
      exact ⟨hamp, hplus, hwhere.imp_left (List.mem_append_left _)⟩
    · obtain ⟨hkey, hall⟩ := ihback h.2 hpair
      refine ⟨hkey, fun c hc => ?_⟩
      obtain ⟨hamp, hplus, hwhere⟩ := hall c hc
      exact ⟨hamp, hplus, hwhere.imp_left fun hc => List.mem_append_right _ (List.mem_cons_of_mem _ hc)⟩

variable {pairs : List (Text × Text)}

theorem mem_queryText (h : c ∈ queryText pairs) : c = '&' ∨ c = '=' ∨ ∃ pair ∈ pairs, c ∈ pair.1 ∨ c ∈ pair.2 := by
  induction pairs with
  | nil => cases h
  | cons pair rest ih =>
    have hone (hc : c ∈ (entryOf pair).text) : c = '&' ∨ c = '=' ∨ ∃ pair' ∈ pair :: rest, c ∈ pair'.1 ∨ c ∈ pair'.2 := by
      rcases List.mem_append.mp (show c ∈ pair.1 ++ '=' :: pair.2 from hc) with hc | hc
      · exact .inr (.inr ⟨pair, List.mem_cons_self, .inl hc⟩)
      · rcases List.mem_cons.mp hc with hc | hc
        · exact .inr (.inl hc)
        · exact .inr (.inr ⟨pair, List.mem_cons_self, .inr hc⟩)
    cases rest with
    | nil => exact hone (queryText_singleton pair ▸ h)
    | cons pair' rest =>
      rw [queryText_cons_cons] at h
      rcases List.mem_append.mp h with hc | hc
      · exact hone hc
      · rcases List.mem_cons.mp hc with hc | hc
        · exact .inl hc
        · rcases ih hc with hc | hc | ⟨other, hother, hc⟩
          · exact .inl hc
          · exact .inr (.inl hc)
          · exact .inr (.inr ⟨other, List.mem_cons_of_mem _ hother, hc⟩)

theorem mem_queryText_of_mem {pair : Text × Text} (hpair : pair ∈ pairs)
    (hc : c ∈ pair.1 ∨ c ∈ pair.2) : c ∈ queryText pairs := by
  have hone : c ∈ (entryOf pair).text := by
    show c ∈ pair.1 ++ '=' :: pair.2
    rcases hc with hc | hc
    · exact List.mem_append_left _ hc
    · exact List.mem_append_right _ (List.mem_cons_of_mem _ hc)
  induction pairs with
  | nil => cases hpair
  | cons first rest ih =>
    cases rest with
    | nil => rwa [queryText_singleton, ← List.mem_singleton.mp hpair]
    | cons second rest =>
      rw [queryText_cons_cons]
      rcases List.mem_cons.mp hpair with rfl | hpair
      · exact List.mem_append_left _ hone
      · exact List.mem_append_right _ (List.mem_cons_of_mem _ (ih hpair))

/-! ## Queries that stay as they are -/

structure PlainQuery (pairs : List (Text × Text)) : Prop where
  sorted : pairs.Pairwise fun pair pair' => pair.1 < pair'.1
  plain : ∀ pair ∈ pairs, PlainEntry (entryOf pair)
  hash : '#' ∉ queryText pairs
  ending : ∀ c ∈ (queryText pairs).getLast?, isC0OrSpace c = false

theorem visible_queryText (h : ∀ pair ∈ pairs, PlainEntry (entryOf pair)) :
    visible (queryText pairs) = queryText pairs := by
  rw [visible, List.filter_eq_self]
  intro c hc
  have hplain {text : Text} (htext : PlainText text) (hmem : c ∈ text) : isTabOrNewline c = false := by
    have hnot := htext.1 c hmem
    simp only [List.mem_cons, List.not_mem_nil, or_false, not_or] at hnot
    simp [isTabOrNewline, hnot]
  rw [Bool.not_eq_true']
  rcases mem_queryText hc with rfl | rfl | ⟨pair, hpair, hc | hc⟩
  · rfl
  · rfl
  · exact hplain (h pair hpair).1 hc
  · exact hplain (h pair hpair).2.2 hc

theorem parse_visible_queryText (pairs : List (Text × Text)) : parse read (visible (queryText pairs)) =
    (pairs.map entryOf).flatMap fun entry => parse read (visible entry.text) := by
  induction pairs with
  | nil => rfl
  | cons pair rest ih =>
    cases rest with
    | nil => rw [queryText_singleton, List.map_singleton, List.flatMap_singleton]
    | cons pair' rest =>
      have hvisible (front back : Text) : visible (front ++ '&' :: back) = visible front ++ '&' :: visible back :=
        visible_append front _
      rw [queryText_cons_cons, hvisible, parse_append, ih]
      rfl

theorem parse_queryText (hread : Utf8 read)
    (h : ∀ pair ∈ pairs, PlainEntry (entryOf pair)) : parse read (queryText pairs) = pairs := by
  rw [← visible_queryText h, parse_visible_queryText, (parse_entries_iff hread _).mpr, List.map_map]
  · exact List.map_id pairs
  · intro entry hentry
    obtain ⟨pair, hpair, rfl⟩ := List.mem_map.mp hentry
    exact h pair hpair

theorem sortedPairs_queryText (hread : Utf8 read) (h : PlainQuery pairs) :
    sortedPairs read (queryText pairs) = pairs := by
  rw [sortedPairs, parse_queryText hread h.plain, SortedMap.entries_ofPairs h.sorted]

theorem tidy_queryText (h : PlainQuery pairs) : tidy (queryText pairs) = queryText pairs := by
  have hend : (queryText pairs).rdropWhile isC0OrSpace = queryText pairs := by
    rw [List.rdropWhile_eq_self_iff]
    intro hne
    rw [h.ending _ (List.getLast?_eq_some_getLast hne)]
    exact Bool.false_ne_true
  rw [tidy, hend, visible_queryText h.plain]

theorem mem_sorted (hread : Utf8 read) (h : hasEscape text = false)
    (hc : c ∈ queryText (sortedPairs read text)) : c ≠ '+' ∧ (c = '&' ∨ c = '=' ∨ c ∈ text ∨ c = ' ') := by
  rcases mem_queryText hc with rfl | rfl | ⟨pair, hpair, hmem⟩
  · exact ⟨by decide, .inl rfl⟩
  · exact ⟨by decide, .inr (.inl rfl)⟩
  · have hparse := (SortedMap.ofPairs_subperm (parse read text)).subset hpair
    obtain ⟨_, hplus, hwhere⟩ := (mem_parse hread h hparse).2 c hmem
    exact ⟨hplus, .inr (.inr hwhere)⟩

theorem not_fragment (hread : LossyUtf8 read) {query : Text} (h : '#' ∈ queryText (sortedPairs read query)) :
    encodeQuery (visible ((queryText (sortedPairs read query)).takeWhile (· != '#'))) ≠ query := by
  intro hquery
  have hparse : sortedPairs read query =
      sortedPairs read (visible ((queryText (sortedPairs read query)).takeWhile (· != '#'))) := by
    conv_lhs => rw [← hquery]
    rw [sortedPairs, parse_encodeQuery]
    rfl
  generalize hfront : (queryText (sortedPairs read query)).takeWhile (· != '#') = front at hparse
  have hsub : (visible front).Sublist (queryText (sortedPairs read query)) :=
    List.filter_sublist.trans (hfront ▸ List.takeWhile_sublist _)
  rw [hparse] at h hsub
  have hescape := hasEscape_of_countP_le hread (hsub.countP_le)
  rcases (mem_sorted hread.toUtf8 hescape h).2 with hc | hc | hc | hc
  · exact absurd hc (by decide)
  · exact absurd hc (by decide)
  · rw [← hfront] at hc
    have hne := List.mem_takeWhile_imp (List.mem_of_mem_filter hc)
    exact absurd hne (by decide)
  · exact absurd hc (by decide)

theorem countP_tidy (text : Text) :
    (tidy text).countP (fun c => !isC0OrSpace c) = text.countP fun c => !isC0OrSpace c := by
  have hnone : (text.rtakeWhile isC0OrSpace).countP (fun c => !isC0OrSpace c) = 0 := by
    rw [List.countP_eq_zero]
    intro c hc
    rw [List.mem_rtakeWhile_imp hc]
    decide
  have hsplit : text.rdropWhile isC0OrSpace ++ text.rtakeWhile isC0OrSpace = text := List.rdropWhile_append_rtakeWhile
  conv_rhs => rw [← hsplit]
  rw [List.countP_append, hnone, Nat.add_zero, tidy, visible, List.countP_filter]
  apply List.countP_congr
  intro c _
  by_cases htab : isTabOrNewline c = true
  · have hstripped : isC0OrSpace c = true := by
      simp only [isTabOrNewline, Bool.or_eq_true, beq_iff_eq] at htab
      rcases htab with (rfl | rfl) | rfl <;> decide
    rw [hstripped]
    rfl
  · rw [Bool.eq_false_of_not_eq_true htab]
    simp

theorem eq_of_tidy (hread : Utf8 read) (hpairs : sortedPairs read text = pairs) (htext : tidy (queryText pairs) = text)
    (hescape : hasEscape text = false) : text = queryText pairs := by
  have hsub : text.Sublist (queryText pairs) :=
    htext ▸ List.filter_sublist.trans (List.rdropWhile_prefix isC0OrSpace _).sublist
  have hplus : '+' ∉ text := fun hmem => (mem_sorted hread hescape (hpairs ▸ hsub.subset hmem)).1 rfl
  have htotal := @total_parse_le read isC0OrSpace (fun _ => 0) (by decide) (by decide) (fun _ _ _ _ => Nat.le_refl 0)
    text fun part hpart => by
      rw [(decode_eq_iff hread part).mpr ⟨hasEscape_part hpart hescape, fun hmem => hplus (hpart.subset hmem)⟩]
      exact Nat.le_refl _
  have hsorted : total isC0OrSpace pairs ≤ total isC0OrSpace (parse read text) :=
    hpairs ▸ total_subperm (SortedMap.ofPairs_subperm _)
  have hcount := countP_queryText (p := isC0OrSpace) (by decide) (by decide) pairs
  have hrest := countP_tidy (queryText pairs)
  rw [htext] at hrest
  have hlength (text : Text) :
      text.length = text.countP isC0OrSpace + text.countP fun c => !isC0OrSpace c := by
    rw [List.length_eq_countP_add_countP isC0OrSpace]
    simp only [Bool.not_eq_true, Bool.decide_eq_false]
  apply hsub.eq_of_length_le
  rw [hlength text, hlength (queryText pairs)]
  omega

theorem plainQuery_of_fixpoint (hread : LossyUtf8 read) {query : Text}
    (hhash : '#' ∉ queryText (sortedPairs read query))
    (hquery : encodeQuery (tidy (queryText (sortedPairs read query))) = query) :
    PlainQuery (sortedPairs read query) ∧
      tidy (queryText (sortedPairs read query)) = queryText (sortedPairs read query) := by
  have hparse : sortedPairs read query = sortedPairs read (tidy (queryText (sortedPairs read query))) := by
    conv_lhs => rw [← hquery]
    rw [sortedPairs, parse_encodeQuery]
    rfl
  generalize hpairs : sortedPairs read query = pairs at *
  generalize htext : tidy (queryText pairs) = text at *
  have hsub : text.Sublist (queryText pairs) :=
    htext ▸ List.filter_sublist.trans (List.rdropWhile_prefix isC0OrSpace _).sublist
  have hescape : hasEscape text = false := hasEscape_of_countP_le hread (hparse ▸ hsub.countP_le)
  obtain rfl := eq_of_tidy hread.toUtf8 hparse.symm htext hescape
  have hvisible : visible ((queryText pairs).rdropWhile isC0OrSpace) = queryText pairs := htext
  have hend : (queryText pairs).rdropWhile isC0OrSpace = queryText pairs := by
    apply (List.rdropWhile_prefix isC0OrSpace _).eq_of_length_le
    conv_lhs => rw [← hvisible]
    exact List.length_filter_le _ _
  rw [hend] at hvisible
  refine ⟨⟨?_, fun pair hpair => ?_, hhash, fun c hc => ?_⟩, rfl⟩
  · rw [← hpairs]
    exact (SortedMap.ofPairs _).sorted
  · have hmem := (SortedMap.ofPairs_subperm (parse read (queryText pairs))).subset (hparse ▸ hpair)
    obtain ⟨hkey, hall⟩ := mem_parse hread.toUtf8 hescape hmem
    have hpart : hasEscape pair.1 = false ∧ hasEscape pair.2 = false := by
      rw [hasEscape_queryText, List.any_eq_false] at hescape
      have hnone := hescape pair hpair
      rwa [Bool.not_eq_true, Bool.or_eq_false_iff] at hnone
    have hchars (c : Char) (hc : c ∈ pair.1 ∨ c ∈ pair.2) : c ∉ ['&', '+', '\t', '\n', '\r'] := by
      obtain ⟨hamp, hplus, _⟩ := hall c hc
      have hblank : isTabOrNewline c = false := by
        have hmem := mem_queryText_of_mem hpair hc
        rw [← hvisible] at hmem
        simpa using (List.mem_filter.mp hmem).2
      simp only [isTabOrNewline, Bool.or_eq_false_iff, beq_eq_false_iff_ne] at hblank
      simp [hamp, hplus, hblank]
    exact ⟨⟨fun c hc => hchars c (.inl hc), hpart.1⟩, hkey, fun c hc => hchars c (.inr hc), hpart.2⟩
  · obtain ⟨hne, rfl⟩ := List.mem_getLast?_eq_getLast hc
    exact Bool.eq_false_of_not_eq_true (List.rdropWhile_eq_self_iff.mp hend hne)

end

end Gqlforge.QueryFixpoints
