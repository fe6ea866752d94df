import Mathlib.Data.List.Basic

namespace Gqlforge.ChunkedReads

variable {B A : Type}

structure Reader (B A : Type) where
  read : List B → Option (A × List B)
  shorter : ∀ {input item rest}, read input = some (item, rest) → rest.length < input.length
  stable : ∀ {input item rest}, read input = some (item, rest) → ∀ more, read (input ++ more) = some (item, rest ++ more)

namespace Reader

variable (reader : Reader B A)

def drain (input : List B) : List A × List B :=
  match h : reader.read input with
  | some (item, rest) =>
    have := reader.shorter h
    (item :: (drain rest).1, (drain rest).2)
  | none => ([], input)
termination_by input.length

def feed (buffer chunk : List B) : List A × List B :=
  reader.drain (buffer ++ chunk)

def feedAll : List B → List (List B) → List A × List B
  | buffer, [] => ([], buffer)
  | buffer, chunk :: rest =>
    let (items, buffer) := reader.feed buffer chunk
    let (items', buffer) := feedAll buffer rest
    (items ++ items', buffer)

theorem drain_some {input rest : List B} {item : A} (h : reader.read input = some (item, rest)) :
    reader.drain input = (item :: (reader.drain rest).1, (reader.drain rest).2) := by
  rw [drain]
  split
  · next heq =>
    obtain ⟨rfl, rfl⟩ := Prod.mk.inj (Option.some.inj (heq.symm.trans h))
    rfl
  · next heq =>
    rw [h] at heq
    cases heq

theorem drain_none {input : List B} (h : reader.read input = none) : reader.drain input = ([], input) := by
  rw [drain]
  split
  · next heq =>
    rw [h] at heq
    cases heq
  · rfl

theorem drain_append (input more : List B) : reader.drain (input ++ more) =
    ((reader.drain input).1 ++ (reader.drain ((reader.drain input).2 ++ more)).1,
      (reader.drain ((reader.drain input).2 ++ more)).2) := by
  induction hlength : input.length using Nat.strongRecOn generalizing input with
  | _ n ih =>
    subst hlength
    cases h : reader.read input with
    | none =>
      rw [reader.drain_none h]
      rfl
    | some p =>
      obtain ⟨item, rest⟩ := p
      rw [reader.drain_some (reader.stable h more), reader.drain_some h, ih _ (reader.shorter h) rest rfl]
      rfl

theorem drain_rest (input : List B) : reader.read (reader.drain input).2 = none := by
  induction hlength : input.length using Nat.strongRecOn generalizing input with
  | _ n ih =>
    subst hlength
    cases h : reader.read input with
    | none => rw [reader.drain_none h, h]
    | some p =>
      obtain ⟨item, rest⟩ := p
      rw [reader.drain_some h]
      exact ih _ (reader.shorter h) rest rfl

theorem feedAll_eq {buffer : List B} (h : reader.read buffer = none) (chunks : List (List B)) :
    reader.feedAll buffer chunks = reader.drain (buffer ++ chunks.flatten) := by
  induction chunks generalizing buffer with
  | nil =>
    rw [List.flatten_nil, List.append_nil, reader.drain_none h]
    rfl
  | cons chunk rest ih =>
    have hrest := ih (reader.drain_rest (buffer ++ chunk))
    have hwhole := reader.drain_append (buffer ++ chunk) rest.flatten
    rw [List.append_assoc] at hwhole
    rw [List.flatten_cons, hwhole, feedAll, feed]
    dsimp only
    rw [hrest]

section Grammar

variable {Item : A → List B → Prop}

def Reads (reader : Reader B A) (Item : A → List B → Prop) : Prop :=
  ∀ input item rest, reader.read input = some (item, rest) ↔ ∃ piece, Item item piece ∧ input = piece ++ rest

def Front (Item : A → List B → Prop) (input : List B) (items : List A) (rest : List B) : Prop :=
  (∃ pieces, List.Forall₂ Item items pieces ∧ input = pieces.flatten ++ rest) ∧
    ∀ item piece, Item item piece → ¬ piece <+: rest

theorem Reads.none_iff (hreads : reader.Reads Item) {input : List B} :
    reader.read input = none ↔ ∀ item piece, Item item piece → ¬ piece <+: input := by
  constructor
  · rintro hnone item piece hitem ⟨rest, rfl⟩
    have hsome := (hreads (piece ++ rest) item rest).mpr ⟨piece, hitem, rfl⟩
    rw [hnone] at hsome
    cases hsome
  · intro hfree
    cases h : reader.read input with
    | none => rfl
    | some p =>
      obtain ⟨piece, hitem, hinput⟩ := (hreads input p.1 p.2).mp h
      exact absurd ⟨p.2, hinput.symm⟩ (hfree p.1 piece hitem)

theorem Reads.front_drain (hreads : reader.Reads Item) (input : List B) :
    Front Item input (reader.drain input).1 (reader.drain input).2 := by
  refine ⟨?_, hreads.none_iff.mp (reader.drain_rest input)⟩
  induction hlength : input.length using Nat.strongRecOn generalizing input with
  | _ n ih =>
    subst hlength
    cases h : reader.read input with
    | none =>
      rw [reader.drain_none h]
      exact ⟨[], .nil, rfl⟩
    | some p =>
      obtain ⟨item, rest⟩ := p
      obtain ⟨piece, hitem, hinput⟩ := (hreads input item rest).mp h
      obtain ⟨pieces, hitems, hrest⟩ := ih _ (reader.shorter h) rest rfl
      rw [reader.drain_some h]
      refine ⟨piece :: pieces, .cons hitem hitems, ?_⟩
      rw [List.flatten_cons, List.append_assoc, ← hrest, hinput]

end Grammar

end Reader

end Gqlforge.ChunkedReads
