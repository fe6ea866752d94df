import Gqlforge.ChunkedReads
import Gqlforge.EventStreams
import Gqlforge.FormUrlencoded
import Gqlforge.PostgresTemplates

namespace Gqlforge.SseClient

open BigEndian ChunkedReads EventStreams FormUrlencoded PostgresTemplates

structure SseEventParser where
  buffer : Bytes
  deriving DecidableEq

def SseEventParser.new : SseEventParser :=
  { buffer := [] }

def findDoubleNewline : Bytes → Option Nat
  | [] => none
  | byte :: rest => if byte = 10 ∧ rest.head? = some 10 then some 0 else (findDoubleNewline rest).map (· + 1)

def strLines : List Line → List Line
  | [] => []
  | [last] => if last = [] then [] else [last]
  | line :: rest => stripCr line :: strLines rest

def trimStart (value : List Char) : List Char :=
  value.dropWhile isWhitespace

def dataLine (line : Line) : Option (List Char) :=
  if "data:".toList <+: line then some (trimStart (line.drop 5))
  else if "data".toList <+: line then if line.drop 4 = [] then some [] else none
  else none

def extractDataLines (block : List Char) : List Char :=
  ['\n'].intercalate ((strLines (block.splitOn '\n')).filterMap dataLine)

theorem findDoubleNewline_lt {buffer : Bytes} {pos : Nat} (h : findDoubleNewline buffer = some pos) :
    pos < buffer.length := by
  induction buffer generalizing pos with
  | nil => cases h
  | cons byte rest ih =>
    rw [findDoubleNewline] at h
    rw [List.length_cons]
    split at h
    · cases h
      exact Nat.succ_pos _
    · obtain ⟨pos', hpos', rfl⟩ := Option.map_eq_some_iff.mp h
      exact Nat.succ_lt_succ (ih hpos')

section

variable (fromUtf8Lossy : Bytes → List Char)

def decodeLoop (buffer : Bytes) : List (List Char) × Bytes :=
  match _h : findDoubleNewline buffer with
  | none => ([], buffer)
  | some pos =>
    let data := extractDataLines (fromUtf8Lossy (buffer.take pos))
    let (events, buffer) := decodeLoop (buffer.drop (pos + 2))
    (if data.isEmpty then events else data :: events, buffer)
termination_by buffer.length
decreasing_by
  have := findDoubleNewline_lt _h
  rw [List.length_drop]
  omega

namespace SseEventParser

def decode (parser : SseEventParser) (chunk : Bytes) : List (List Char) × SseEventParser :=
  let (events, buffer) := decodeLoop fromUtf8Lossy (parser.buffer ++ chunk)
  (events, { buffer })

def decodeAll : SseEventParser → List Bytes → List (List Char) × SseEventParser
  | parser, [] => ([], parser)
  | parser, chunk :: chunks =>
    let (events, parser) := parser.decode fromUtf8Lossy chunk
    let (events', parser) := decodeAll parser chunks
    (events ++ events', parser)

end SseEventParser

end

/-! ## Blocks -/

section

variable {B : Type} [DecidableEq B] (newline : B)

def readBlock : List B → Option (List B × List B)
  | [] => none
  | b :: rest =>
    if b = newline ∧ rest.head? = some newline then some ([], rest.tail)
    else (readBlock rest).map fun (block, rest) => (b :: block, rest)

variable {newline}

theorem readBlock_iff {input block rest : List B} (h : readBlock newline input = some (block, rest)) :
    input = block ++ newline :: newline :: rest := by
  induction input generalizing block with
  | nil => cases h
  | cons b input ih =>
    rw [readBlock] at h
    split at h
    next hnewline =>
      cases h
      rw [hnewline.1, List.nil_append, ← List.eq_cons_of_mem_head? hnewline.2]
    · obtain ⟨⟨block', rest'⟩, hread, heq⟩ := Option.map_eq_some_iff.mp h
      cases heq
      rw [ih hread]
      rfl

theorem readBlock_stable {input block rest : List B} (h : readBlock newline input = some (block, rest))
    (more : List B) : readBlock newline (input ++ more) = some (block, rest ++ more) := by
  induction input generalizing block with
  | nil => cases h
  | cons b input ih =>
    rw [readBlock] at h
    rw [List.cons_append, readBlock]
    split at h
    next hnewline =>
      cases h
      cases input with
      | nil => cases hnewline.2
      | cons c input => rw [if_pos ⟨hnewline.1, hnewline.2⟩]; rfl
    next hnewline =>
      obtain ⟨⟨block', rest'⟩, hread, heq⟩ := Option.map_eq_some_iff.mp h
      cases heq
      have hne : input ≠ [] := by
        rintro rfl
        cases hread
      rw [List.head?_append_of_ne_nil input hne, if_neg hnewline, ih hread]
      rfl

variable (newline) in
def blockReader : Reader B (List B) where
  read := readBlock newline
  shorter h := by
    rw [readBlock_iff h, List.length_append, List.length_cons, List.length_cons]
    omega
  stable h more := readBlock_stable h more

end

/-! ## The loop -/

theorem readBlock_findDoubleNewline (buffer : Bytes) : readBlock 10 buffer =
    (findDoubleNewline buffer).map fun pos => (buffer.take pos, buffer.drop (pos + 2)) := by
  induction buffer with
  | nil => rfl
  | cons byte rest ih =>
    rw [readBlock, findDoubleNewline]
    split
    · rw [Option.map_some, List.take_zero, Nat.zero_add, List.drop_succ_cons, List.drop_one]
    · rw [ih, Option.map_map, Option.map_map]
      rfl

def filled (data : List Char) : Option (List Char) :=
  if data.isEmpty then none else some data

section

variable (fromUtf8Lossy : Bytes → List Char)

def blockData (block : Bytes) : Option (List Char) :=
  filled (extractDataLines (fromUtf8Lossy block))

theorem decodeLoop_eq (buffer : Bytes) : decodeLoop fromUtf8Lossy buffer =
    (((blockReader 10).drain buffer).1.filterMap (blockData fromUtf8Lossy), ((blockReader 10).drain buffer).2) := by
  induction hlength : buffer.length using Nat.strongRecOn generalizing buffer with
  | _ n ih =>
    subst hlength
    have hread : (blockReader 10).read buffer =
        (findDoubleNewline buffer).map fun pos => (buffer.take pos, buffer.drop (pos + 2)) :=
      readBlock_findDoubleNewline buffer
    rw [decodeLoop]
    split
    next hnone =>
      rw [hnone] at hread
      rw [Reader.drain_none _ hread]
      rfl
    next pos hpos =>
      rw [hpos, Option.map_some] at hread
      have hrest := ih _ ((blockReader 10).shorter hread) _ rfl
      rw [Reader.drain_some _ hread, hrest]
      dsimp only
      rw [List.filterMap_cons, blockData, filled]
      cases (extractDataLines (fromUtf8Lossy (buffer.take pos))).isEmpty <;> rfl

theorem decodeAll_eq (parser : SseEventParser) (chunks : List Bytes) : parser.decodeAll fromUtf8Lossy chunks =
    (((blockReader 10).feedAll parser.buffer chunks).1.filterMap (blockData fromUtf8Lossy),
      ⟨((blockReader 10).feedAll parser.buffer chunks).2⟩) := by
  induction chunks generalizing parser with
  | nil => rfl
  | cons chunk chunks ih =>
    rw [SseEventParser.decodeAll, SseEventParser.decode, decodeLoop_eq]
    dsimp only
    rw [ih, Reader.feedAll, Reader.feed]
    dsimp only
    rw [List.filterMap_append]

theorem decodeAll_new (chunks : List Bytes) : (SseEventParser.new.decodeAll fromUtf8Lossy chunks).1 =
    ((blockReader 10).drain chunks.flatten).1.filterMap (blockData fromUtf8Lossy) := by
  have hnew : (blockReader (10 : UInt8)).read [] = none := rfl
  rw [decodeAll_eq]
  dsimp only
  rw [SseEventParser.new, Reader.feedAll_eq _ hnew, List.nil_append]

end

/-! ## Characters -/

def toUtf8 (text : List Char) : Bytes :=
  text.flatMap String.utf8EncodeChar

theorem fromUtf8_toUtf8 {read : Bytes → List Char} (utf8 : Utf8 read) (text : List Char) :
    read (toUtf8 text) = text := by
  induction text with
  | nil => exact utf8.nil
  | cons c text ih =>
    have htext : toUtf8 (c :: text) = String.utf8EncodeChar c ++ toUtf8 text := List.flatMap_cons
    rw [htext, utf8.char, ih]

theorem utf8_newline : String.utf8EncodeChar '\n' = [10] := by decide

theorem newline_of_utf8 {c : Char} (h : (10 : UInt8) ∈ String.utf8EncodeChar c) : c = '\n' := by
  obtain ⟨i, hi, hbyte⟩ := List.getElem_of_mem h
  -- only the first byte of a character can be one that starts a character, as an LF is
  have hstarts : (String.utf8EncodeChar c)[i].IsUTF8FirstByte ↔ i = 0 := UInt8.isUTF8FirstByte_getElem_utf8EncodeChar
  obtain rfl : i = 0 := by
    rw [← hstarts, hbyte]
    decide
  obtain ⟨byte, tail, hbytes⟩ := List.exists_cons_of_ne_nil (String.utf8EncodeChar_ne_nil (c := c))
  have hten : byte = 10 := by simpa only [hbytes, List.getElem_cons_zero] using hbyte
  have hread := readUtf8_utf8.char c []
  have hnewline := readUtf8_utf8.char '\n' tail
  rw [utf8_newline, List.singleton_append] at hnewline
  rw [List.append_nil, hbytes, hten, hnewline] at hread
  exact (List.cons.inj hread).1.symm

theorem readBlock_append {bytes : Bytes} (h : (10 : UInt8) ∉ bytes) (rest : Bytes) : readBlock 10 (bytes ++ rest) =
    (readBlock 10 rest).map fun (block, rest) => (bytes ++ block, rest) := by
  induction bytes with
  | nil =>
    rw [List.nil_append]
    cases readBlock 10 rest <;> rfl
  | cons byte bytes ih =>
    obtain ⟨hbyte, hbytes⟩ := not_or.mp (mt List.mem_cons.mpr h)
    rw [List.cons_append, readBlock, if_neg fun hnewline => hbyte hnewline.1.symm, ih hbytes, Option.map_map]
    rfl

theorem toUtf8_cons (c : Char) (text : List Char) : toUtf8 (c :: text) = String.utf8EncodeChar c ++ toUtf8 text :=
  List.flatMap_cons

theorem toUtf8_head (text : List Char) : (toUtf8 text).head? = some 10 ↔ text.head? = some '\n' := by
  cases text with
  | nil => exact iff_of_false nofun nofun
  | cons c text =>
    rw [toUtf8_cons]
    constructor
    · intro h
      obtain ⟨byte, tail, hbytes⟩ := List.exists_cons_of_ne_nil (String.utf8EncodeChar_ne_nil (c := c))
      rw [hbytes] at h
      cases h
      have hc : c = '\n' := newline_of_utf8 (hbytes ▸ List.mem_cons_self)
      rw [hc, List.head?_cons]
    · intro h
      cases h
      rw [utf8_newline]
      rfl

theorem readBlock_toUtf8 (text : List Char) : readBlock 10 (toUtf8 text) =
    (readBlock '\n' text).map fun (block, rest) => (toUtf8 block, toUtf8 rest) := by
  induction text with
  | nil => rfl
  | cons c text ih =>
    rw [toUtf8_cons]
    by_cases hc : c = '\n'
    · rw [hc, utf8_newline, List.singleton_append, readBlock, readBlock]
      by_cases hhead : text.head? = some '\n'
      · rw [if_pos ⟨rfl, (toUtf8_head text).mpr hhead⟩, if_pos ⟨rfl, hhead⟩]
        obtain ⟨text, rfl⟩ : ∃ text', text = '\n' :: text' := ⟨text.tail, List.eq_cons_of_mem_head? hhead⟩
        rw [toUtf8_cons, utf8_newline]
        rfl
      · rw [if_neg fun h => hhead ((toUtf8_head text).mp h.2), if_neg fun h => hhead h.2, ih, Option.map_map,
          Option.map_map]
        congr 1
    · rw [readBlock_append (mt newline_of_utf8 hc), readBlock, if_neg fun h => hc h.1, ih, Option.map_map,
        Option.map_map]
      congr 1

theorem drain_toUtf8 (text : List Char) : (blockReader 10).drain (toUtf8 text) =
    (((blockReader '\n').drain text).1.map toUtf8, toUtf8 ((blockReader '\n').drain text).2) := by
  induction hlength : text.length using Nat.strongRecOn generalizing text with
  | _ n ih =>
    subst hlength
    have hread : (blockReader 10).read (toUtf8 text) = _ := readBlock_toUtf8 text
    cases h : readBlock '\n' text with
    | none =>
      rw [h, Option.map_none] at hread
      rw [Reader.drain_none _ hread, Reader.drain_none _ h]
      rfl
    | some p =>
      obtain ⟨block, rest⟩ := p
      have hshown : (blockReader '\n').read text = some (block, rest) := h
      rw [h, Option.map_some] at hread
      rw [Reader.drain_some _ hread, Reader.drain_some _ hshown, ih _ ((blockReader '\n').shorter h) _ rfl]
      rfl

end Gqlforge.SseClient
