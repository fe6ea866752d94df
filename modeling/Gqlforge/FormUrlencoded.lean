import Gqlforge.BigEndian
import Mathlib.Data.List.TakeWhile
import Mathlib.Algebra.Order.BigOperators.Group.List

namespace Gqlforge.FormUrlencoded

open BigEndian

def hexByte (high low : Char) : Option UInt8 := do
  let high ← hexDigit high
  let low ← hexDigit low
  return UInt8.ofNat (high * 16 + low)

def decodeBytes : List Char → Bytes
  | '%' :: high :: low :: rest => match hexByte high low with
    | some byte => byte :: decodeBytes rest
    | none => String.utf8EncodeChar '%' ++ decodeBytes (high :: low :: rest)
  | c :: rest => String.utf8EncodeChar (if c = '+' then ' ' else c) ++ decodeBytes rest
  | [] => []

def hasEscape : List Char → Bool
  | '%' :: high :: low :: rest => (hexByte high low).isSome || hasEscape (high :: low :: rest)
  | _ :: rest => hasEscape rest
  | [] => false

structure Utf8 (read : Bytes → List Char) : Prop where
  nil : read [] = []
  char (c : Char) (bytes : Bytes) : read (String.utf8EncodeChar c ++ bytes) = c :: read bytes
  byte (byte : UInt8) (bytes : Bytes) : (read (byte :: bytes)).length ≤ (read bytes).length + 1

def readUtf8 : Bytes → List Char
  | [] => []
  | byte :: rest => match (byte :: rest).toByteArray.utf8DecodeChar? 0 with
    | some c => c :: (readUtf8 rest).drop (c.utf8Size - 1)
    | none => '\uFFFD' :: readUtf8 rest

theorem readUtf8_continuation {bytes : Bytes} (h : ∀ byte ∈ bytes, ¬ byte.IsUTF8FirstByte) (rest : Bytes) :
    (readUtf8 (bytes ++ rest)).drop bytes.length = readUtf8 rest := by
  induction bytes with
  | nil => rfl
  | cons byte bytes ih =>
    have hnone : (byte :: (bytes ++ rest)).toByteArray.utf8DecodeChar? 0 = none := by
      by_contra hsome
      have hfirst := ByteArray.isUTF8FirstByte_of_isSome_utf8DecodeChar? (Option.isSome_iff_ne_none.mpr hsome)
      rw [List.getElem_toByteArray, List.getElem_cons_zero] at hfirst
      exact h byte List.mem_cons_self hfirst
    rw [List.cons_append, readUtf8, hnone, List.length_cons]
    exact ih fun byte hbyte => h byte (List.mem_cons_of_mem _ hbyte)

theorem readUtf8_utf8 : Utf8 readUtf8 where
  nil := rfl
  char c bytes := by
    have hlength := String.length_utf8EncodeChar c
    have hpos := c.utf8Size_pos
    have hdecode : (String.utf8EncodeChar c ++ bytes).toByteArray.utf8DecodeChar? 0 = some c := by
      rw [List.toByteArray_append]
      exact ByteArray.utf8DecodeChar?_utf8EncodeChar_append
    cases hbytes : String.utf8EncodeChar c with
    | nil =>
      rw [hbytes, List.length_nil] at hlength
      omega
    | cons first tail =>
      rw [hbytes, List.length_cons] at hlength
      have htail : ∀ byte ∈ tail, ¬ byte.IsUTF8FirstByte := by
        intro byte hbyte
        obtain ⟨i, hi, rfl⟩ := List.getElem_of_mem hbyte
        have hlast : i + 1 < (String.utf8EncodeChar c).length := by
          rw [hbytes, List.length_cons]
          omega
        have hget : (String.utf8EncodeChar c)[i + 1] = tail[i] := by simp only [hbytes, List.getElem_cons_succ]
        rw [← hget, UInt8.isUTF8FirstByte_getElem_utf8EncodeChar]
        omega
      rw [hbytes, List.cons_append] at hdecode
      have hsize : c.utf8Size - 1 = tail.length := by omega
      rw [List.cons_append, readUtf8, hdecode]
      simp only [hsize]
      exact congrArg (c :: ·) (readUtf8_continuation htail bytes)
  byte byte bytes := by
    rw [readUtf8]
    split
    · rw [List.length_cons, List.length_drop]
      omega
    · rw [List.length_cons]

section

variable (read : Bytes → List Char)

def decode (text : List Char) : List Char :=
  read (decodeBytes text)

def field (text : List Char) : List Char × List Char :=
  (decode read (text.takeWhile (· != '=')), decode read ((text.dropWhile (· != '=')).drop 1))

def parse (text : List Char) : List (List Char × List Char) :=
  ((text.splitOn '&').filter fun part => !part.isEmpty).map (field read)

variable {read}

theorem length_decode (hread : Utf8 read) (text : List Char) :
    (decode read text).length + (if hasEscape text then 1 else 0) ≤ text.length := by
  unfold decode
  fun_induction decodeBytes text with
  | case1 high low rest byte hbyte ih =>
    have hone := hread.byte byte (decodeBytes rest)
    simp only [List.length_cons]
    split <;> omega
  | case2 high low rest hbyte ih =>
    rw [hread.char, hasEscape, hbyte]
    simp only [Option.isSome_none, Bool.false_or, List.length_cons] at ih ⊢
    omega
  | case3 c rest hother ih =>
    rw [hread.char, hasEscape, List.length_cons, List.length_cons]
    · omega
    · exact hother
  | case4 => simp [hasEscape, hread.nil]

theorem decode_of_no_escape (hread : Utf8 read) {text : List Char} (h : hasEscape text = false) :
    decode read text = text.map fun c => if c = '+' then ' ' else c := by
  unfold decode
  fun_induction hasEscape text with
  | case1 high low rest ih =>
    rw [Bool.or_eq_false_iff, Option.isSome_eq_false_iff, Option.isNone_iff_eq_none] at h
    rw [decodeBytes, h.1, hread.char, ih h.2]
    rfl
  | case2 c rest hother ih =>
    rw [decodeBytes, hread.char, ih h]
    · rfl
    · exact hother
  | case3 => exact hread.nil

theorem decode_eq_iff (hread : Utf8 read) (text : List Char) :
    decode read text = text ↔ hasEscape text = false ∧ '+' ∉ text := by
  constructor
  · intro h
    have hescape : hasEscape text = false := by
      have hlength := length_decode hread text
      rw [h] at hlength
      by_contra htrue
      rw [if_pos (Bool.not_eq_false _ ▸ htrue)] at hlength
      omega
    refine ⟨hescape, fun hplus => ?_⟩
    rw [decode_of_no_escape hread hescape] at h
    have hmem : '+' ∈ text.map fun c => if c = '+' then ' ' else c := by rwa [h]
    obtain ⟨c, _, hc⟩ := List.mem_map.mp hmem
    split at hc
    · exact absurd hc (by decide)
    · contradiction
  · rintro ⟨hescape, hplus⟩
    rw [decode_of_no_escape hread hescape]
    refine (List.map_congr_left fun c hc => if_neg ?_).trans (List.map_id text)
    rintro rfl
    exact hplus hc

theorem length_decode_le (hread : Utf8 read) (text : List Char) : (decode read text).length ≤ text.length := by
  have hlength := length_decode hread text
  omega

def fieldWeight (field : List Char × List Char) : Nat :=
  2 * (field.1.length + field.2.length) + 1

def weight (fields : List (List Char × List Char)) : Nat :=
  (fields.map fieldWeight).sum

theorem weight_append (fields fields' : List (List Char × List Char)) :
    weight (fields ++ fields') = weight fields + weight fields' := by
  rw [weight, List.map_append, List.sum_append]
  rfl

theorem parse_nil : parse read [] = [] := rfl

theorem parse_append (text text' : List Char) : parse read (text ++ '&' :: text') = parse read text ++ parse read text' := by
  rw [parse, List.splitOn_eq_splitOnP, List.splitOnP_append_cons text text' rfl, List.filter_append, List.map_append]
  rfl

theorem parse_of_not_mem {text : List Char} (h : '&' ∉ text) (hne : text ≠ []) : parse read text = [field read text] := by
  have hsplit : text.splitOn '&' = [text] := by
    rw [List.splitOn_eq_splitOnP]
    apply List.splitOnP_eq_singleton
    intro c hc
    refine beq_false_of_ne ?_
    rintro rfl
    exact h hc
  rw [parse, hsplit]
  cases text with
  | nil => exact absurd rfl hne
  | cons c text => rfl

theorem span_length (text : List Char) :
    (text.takeWhile (· != '=')).length + ((text.dropWhile (· != '=')).drop 1).length + (if '=' ∈ text then 1 else 0) =
      text.length := by
  induction text with
  | nil => rfl
  | cons c text ih =>
    by_cases hc : c = '='
    · simp [hc]
    · have hne : (c != '=') = true := bne_iff_ne.mpr hc
      have hmem : '=' ∈ c :: text ↔ '=' ∈ text := by simp [Ne.symm hc]
      simp only [List.takeWhile_cons, List.dropWhile_cons, hne, if_true, hmem, List.length_cons]
      omega

theorem weight_parse_le (hread : Utf8 read) (text : List Char) :
    weight (parse read text) + (if '=' ∈ text then 2 else 0) + (if '&' ∈ text then 1 else 0) ≤ 2 * text.length + 1 := by
  induction hn : text.length using Nat.strongRecOn generalizing text with
  | ind n ih =>
    subst hn
    by_cases hmem : '&' ∈ text
    · obtain ⟨front, back, rfl⟩ := List.append_of_mem hmem
      have hlength : (front ++ '&' :: back).length = front.length + back.length + 1 := by
        rw [List.length_append, List.length_cons]
        omega
      have hfront := ih front.length (by omega) front rfl
      have hback := ih back.length (by omega) back rfl
      have heq : '=' ∈ front ++ '&' :: back ↔ '=' ∈ front ∨ '=' ∈ back := by simp
      rw [parse_append, weight_append, if_pos hmem, hlength]
      simp only [heq]
      grind
    · rw [if_neg hmem]
      cases text with
      | nil => simp [parse_nil, weight]
      | cons c text =>
        have hspan := span_length (c :: text)
        have hkey := length_decode_le hread ((c :: text).takeWhile (· != '='))
        have hvalue := length_decode_le hread (((c :: text).dropWhile (· != '=')).drop 1)
        rw [parse_of_not_mem hmem (by simp)]
        simp only [weight, List.map_singleton, List.sum_singleton, fieldWeight, field]
        split at hspan <;> simp_all <;> omega

def isTabOrNewline (c : Char) : Bool :=
  c == '\t' || c == '\n' || c == '\r'

def visible (text : List Char) : List Char :=
  text.filter fun c => !isTabOrNewline c

theorem visible_append (text text' : List Char) : visible (text ++ text') = visible text ++ visible text' :=
  List.filter_append text text'

theorem mem_visible {c : Char} (h : isTabOrNewline c = false) (text : List Char) : c ∈ visible text ↔ c ∈ text := by
  simp [visible, h]

abbrev Entry := List Char × Option (List Char)

namespace Entry

def text : Entry → List Char
  | (key, some value) => key ++ '=' :: value
  | (key, none) => key

def pair (entry : Entry) : List Char × List Char :=
  (entry.1, entry.2.getD [])

end Entry

def PlainText (text : List Char) : Prop :=
  (∀ c ∈ text, c ∉ ['&', '+', '\t', '\n', '\r']) ∧ hasEscape text = false

def PlainEntry (entry : Entry) : Prop :=
  PlainText entry.1 ∧ '=' ∉ entry.1 ∧ match entry.2 with
    | some value => PlainText value
    | none => entry.1 ≠ []

theorem weight_parse_visible (hread : Utf8 read) (entry : Entry) :
    weight (parse read (visible entry.text)) + (if '&' ∈ entry.text then 1 else 0) +
      2 * (entry.text.length - (visible entry.text).length) ≤ fieldWeight entry.pair := by
  have hweight := weight_parse_le hread (visible entry.text)
  have hlength : (visible entry.text).length ≤ entry.text.length := List.length_filter_le _ _
  have heq : '=' ∈ visible entry.text ↔ '=' ∈ entry.text := mem_visible rfl _
  have hamp : '&' ∈ visible entry.text ↔ '&' ∈ entry.text := mem_visible rfl _
  have hsize : 2 * entry.text.length + 1 ≤ fieldWeight entry.pair + (if '=' ∈ entry.text then 2 else 0) := by
    rcases entry with ⟨key, _ | value⟩
    · simp [Entry.text, Entry.pair, fieldWeight]
    · simp [Entry.text, Entry.pair, fieldWeight]
      omega
  by_cases hvalue : '=' ∈ entry.text
  · rw [if_pos (heq.mpr hvalue)] at hweight
    rw [if_pos hvalue] at hsize
    by_cases hsplit : '&' ∈ entry.text
    · rw [if_pos (hamp.mpr hsplit)] at hweight
      rw [if_pos hsplit]
      omega
    · rw [if_neg hsplit]
      omega
  · rw [if_neg hvalue] at hsize
    by_cases hsplit : '&' ∈ entry.text
    · rw [if_pos (hamp.mpr hsplit)] at hweight
      rw [if_pos hsplit]
      omega
    · rw [if_neg hsplit]
      omega

theorem weight_parse_visible_le (hread : Utf8 read) (entry : Entry) :
    weight (parse read (visible entry.text)) ≤ fieldWeight entry.pair := by
  have hweight := weight_parse_visible hread entry
  omega

theorem one_field (hread : Utf8 read) (entry : Entry)
    (h : weight (parse read (visible entry.text)) = fieldWeight entry.pair) :
    (∀ c ∈ entry.text, c ∉ ['&', '\t', '\n', '\r']) ∧ parse read (visible entry.text) = [field read entry.text] := by
  have hweight := weight_parse_visible hread entry
  have hlength : (visible entry.text).length ≤ entry.text.length := List.length_filter_le _ _
  have hamp : '&' ∉ entry.text := by
    intro hmem
    rw [if_pos hmem] at hweight
    omega
  have hvisible : visible entry.text = entry.text :=
    List.filter_sublist.eq_of_length_le (show entry.text.length ≤ (visible entry.text).length by omega)
  have hne : entry.text ≠ [] := by
    intro hnil
    rw [hvisible, hnil, parse_nil] at h
    simp [weight, fieldWeight] at h
  refine ⟨fun c hc hmem => ?_, by rw [hvisible, parse_of_not_mem hamp hne]⟩
  have htab : isTabOrNewline c = false := by
    rw [← hvisible] at hc
    simpa using (List.mem_filter.mp hc).2
  simp only [List.mem_cons, List.not_mem_nil, or_false] at hmem
  rcases hmem with rfl | rfl | rfl | rfl
  · exact hamp hc
  all_goals exact absurd htab (by decide)

theorem bne_of_not_mem {sep : Char} {text : List Char} (h : sep ∉ text) : ∀ c ∈ text, (c != sep) = true := by
  intro c hc
  refine bne_iff_ne.mpr ?_
  rintro rfl
  exact h hc

theorem takeWhile_key {key : List Char} (h : '=' ∉ key) (value : List Char) :
    (key ++ '=' :: value).takeWhile (· != '=') = key ∧ ((key ++ '=' :: value).dropWhile (· != '=')).drop 1 = value := by
  have hall := bne_of_not_mem h
  rw [List.takeWhile_append_of_pos hall, List.dropWhile_append_of_pos hall]
  simp

theorem field_eq_iff (hread : Utf8 read) (entry : Entry) :
    field read entry.text = entry.pair ↔ '=' ∉ entry.1 ∧ decode read entry.1 = entry.1 ∧
      decode read (entry.2.getD []) = entry.2.getD [] := by
  obtain ⟨key, value⟩ := entry
  by_cases hkey : '=' ∈ key
  · refine iff_of_false (fun h => ?_) fun h => h.1 hkey
    -- the name ends before it was meant to, and decoding does not make it longer
    obtain ⟨front, back, rfl, hfront⟩ := List.eq_append_cons_of_mem hkey
    have htext : ∃ rest, Entry.text (front ++ '=' :: back, value) = front ++ '=' :: rest := by
      cases value with
      | none => exact ⟨back, rfl⟩
      | some value => exact ⟨back ++ '=' :: value, by simp [Entry.text]⟩
    obtain ⟨rest, htext⟩ := htext
    have hname := congrArg (fun pair => pair.1.length) h
    have hdecode := length_decode_le hread front
    simp only [field, htext, (takeWhile_key hfront rest).1, Entry.pair, List.length_append, List.length_cons] at hname
    omega
  · cases value with
    | none =>
      have htake : key.takeWhile (· != '=') = key := List.takeWhile_eq_self_iff.mpr (bne_of_not_mem hkey)
      have hdrop : key.dropWhile (· != '=') = [] := List.dropWhile_eq_nil_iff.mpr (bne_of_not_mem hkey)
      have hnil : decode read [] = [] := hread.nil
      simp [field, Entry.text, Entry.pair, htake, hdrop, hnil, hkey]
    | some value =>
      obtain ⟨htake, hdrop⟩ := takeWhile_key hkey value
      simp only [field, Entry.text, Entry.pair, Option.getD_some, htake, hdrop, Prod.mk.injEq, hkey, not_false_eq_true,
        true_and]

theorem plainText_iff (hread : Utf8 read) (text : List Char) : PlainText text ↔
    (∀ c ∈ text, c ∉ ['&', '\t', '\n', '\r']) ∧ decode read text = text := by
  rw [decode_eq_iff hread, PlainText]
  constructor
  · rintro ⟨hall, hescape⟩
    refine ⟨fun c hc hmem => hall c hc (by simp at hmem ⊢; tauto), hescape, fun hplus => ?_⟩
    exact hall '+' hplus (by simp)
  · rintro ⟨hall, hescape, hplus⟩
    refine ⟨fun c hc hmem => ?_, hescape⟩
    simp only [List.mem_cons, List.not_mem_nil, or_false] at hmem
    rcases hmem with rfl | rfl | hmem
    · exact hall '&' hc (by simp)
    · exact hplus hc
    · exact hall c hc (by simp [hmem])

theorem visible_of_plain {text : List Char} (h : ∀ c ∈ text, c ∉ ['&', '\t', '\n', '\r']) : visible text = text := by
  rw [visible, List.filter_eq_self]
  intro c hc
  have hne := h c hc
  simp only [List.mem_cons, List.not_mem_nil, or_false, not_or] at hne
  simp [isTabOrNewline, hne.2.1, hne.2.2.1, hne.2.2.2]

theorem parse_entry_iff (hread : Utf8 read) (entry : Entry) :
    parse read (visible entry.text) = [entry.pair] ↔ PlainEntry entry := by
  constructor
  · intro h
    obtain ⟨hall, hone⟩ := one_field hread entry (by rw [h, weight, List.map_singleton, List.sum_singleton])
    rw [hone, List.singleton_inj, field_eq_iff hread] at h
    obtain ⟨hkey, hname, hvalue⟩ := h
    rcases entry with ⟨key, _ | value⟩
    · refine ⟨(plainText_iff hread key).mpr ⟨hall, hname⟩, hkey, ?_⟩
      rintro rfl
      simp [Entry.text, visible, parse_nil] at hone
    · refine ⟨(plainText_iff hread key).mpr ⟨fun c hc => hall c ?_, hname⟩, hkey,
        (plainText_iff hread value).mpr ⟨fun c hc => hall c ?_, hvalue⟩⟩
      · simp [Entry.text, hc]
      · simp [Entry.text, hc]
  · rintro ⟨hname, hkey, hvalue⟩
    have hplain : (∀ c ∈ entry.text, c ∉ ['&', '\t', '\n', '\r']) ∧ entry.text ≠ [] ∧
        decode read (entry.2.getD []) = entry.2.getD [] := by
      obtain ⟨hall, _⟩ := (plainText_iff hread _).mp hname
      rcases entry with ⟨key, _ | value⟩
      · exact ⟨hall, hvalue, hread.nil⟩
      · obtain ⟨hall', hdecode⟩ := (plainText_iff hread value).mp hvalue
        refine ⟨fun c hc => ?_, by simp [Entry.text], hdecode⟩
        rcases List.mem_append.mp hc with hc | hc
        · exact hall c hc
        · rcases List.mem_cons.mp hc with rfl | hc
          · decide
          · exact hall' c hc
    obtain ⟨hall, hne, hdecode⟩ := hplain
    have hamp : '&' ∉ entry.text := fun hmem => hall '&' hmem (by simp)
    rw [visible_of_plain hall, parse_of_not_mem hamp hne, List.singleton_inj, field_eq_iff hread]
    exact ⟨hkey, ((plainText_iff hread _).mp hname).2, hdecode⟩

theorem eq_of_sum_eq {α : Type} {l : List α} {a b : α → Nat} (hle : ∀ x ∈ l, a x ≤ b x)
    (h : (l.map a).sum = (l.map b).sum) : ∀ x ∈ l, a x = b x := by
  induction l with
  | nil => exact fun x hx => absurd hx List.not_mem_nil
  | cons first rest ih =>
    have hfirst := hle first List.mem_cons_self
    have hrest : (rest.map a).sum ≤ (rest.map b).sum :=
      List.sum_le_sum fun x hx => hle x (List.mem_cons_of_mem _ hx)
    simp only [List.map_cons, List.sum_cons] at h
    have hall := ih (fun x hx => hle x (List.mem_cons_of_mem _ hx)) (by omega)
    rintro x (_ | ⟨_, hx⟩)
    · omega
    · exact hall x hx

theorem singletons_of_flatMap {α β : Type} {l : List α} {f : α → List β} {g : α → β} (w : β → Nat)
    (hle : ∀ x ∈ l, ((f x).map w).sum ≤ w (g x)) (hone : ∀ x ∈ l, ((f x).map w).sum = w (g x) → (f x).length = 1)
    (h : l.flatMap f = l.map g) : ∀ x ∈ l, f x = [g x] := by
  have hsum : (l.map fun x => ((f x).map w).sum).sum = (l.map fun x => w (g x)).sum := by
    have hflat (l : List α) : ((l.flatMap f).map w).sum = (l.map fun x => ((f x).map w).sum).sum := by
      induction l with
      | nil => rfl
      | cons first rest ih => rw [List.flatMap_cons, List.map_append, List.sum_append, ih, List.map_cons, List.sum_cons]
    rw [← hflat, h, List.map_map]
    rfl
  have hlength : ∀ x ∈ l, (f x).length = 1 := fun x hx => hone x hx (eq_of_sum_eq hle hsum x hx)
  clear hsum hle hone
  induction l with
  | nil => exact fun x hx => absurd hx List.not_mem_nil
  | cons first rest ih =>
    obtain ⟨y, hy⟩ := List.length_eq_one_iff.mp (hlength first List.mem_cons_self)
    rw [List.flatMap_cons, hy, List.map_cons, List.singleton_append, List.cons.injEq] at h
    rintro x (_ | ⟨_, hx⟩)
    · rw [hy, h.1]
    · exact ih h.2 (fun x hx => hlength x (List.mem_cons_of_mem _ hx)) x hx

theorem parse_entries_iff (hread : Utf8 read) (entries : List Entry) :
    (entries.flatMap fun entry => parse read (visible entry.text)) = entries.map Entry.pair ↔
      ∀ entry ∈ entries, PlainEntry entry := by
  have hall : (∀ entry ∈ entries, PlainEntry entry) ↔
      ∀ entry ∈ entries, parse read (visible entry.text) = [entry.pair] := by
    simp only [parse_entry_iff hread]
  rw [hall]
  constructor
  · intro h
    apply singletons_of_flatMap fieldWeight (fun entry _ => weight_parse_visible_le hread entry) ?_ h
    intro entry _ heq
    rw [(one_field hread entry heq).2, List.length_singleton]
  · intro h
    rw [List.flatMap_congr h, List.map_eq_flatMap]

end

end Gqlforge.FormUrlencoded
