import Gqlforge.DataLoader

namespace Gqlforge.DataLoader

open Runs

section

variable {Storage Key Value Error Caller : Type} [DecidableEq Key] [DecidableEq Caller]

def State.outstanding (state : State Storage Key Value Error Caller) : List (Pending Key Value Caller) :=
  state.batches.flatMap (·.senders) ++ state.requests.pending

variable (cache : CacheStorage Storage Key Value) (maxBatchSize : ℕ) (asked : Caller → List Key) (storage : Storage)

def AskedAt (events : List (Event Key Value Error Caller)) (pending : Pending Key Value Caller) : Prop :=
  ∃ events₁ events₂ state, events = events₁ ++ .ask pending.tx :: events₂ ∧
    Run (Does cache maxBatchSize asked) (State.start storage) events₁ state ∧
    (state.select cache (asked pending.tx)).1 = pending.keys ∧
    (state.select cache (asked pending.tx)).2.1 = pending.useCacheValues

/-- The loader answers at some step of the run to a batch with this request, and was asked for its keys. -/
def LoadedAt (events : List (Event Key Value Error Caller)) (pending : Pending Key Value Caller)
    (result : Except Error (List (Key × Value))) : Prop :=
  ∃ events₁ events₂ state index batch, events = events₁ ++ .load index result :: events₂ ∧
    Run (Does cache maxBatchSize asked) (State.start storage) events₁ state ∧
    state.batches[index]? = some batch ∧ pending ∈ batch.senders ∧ pending.keys ⊆ batch.keys

/-- The answer comes from the cache alone, or from the loader's answer to the batch of the caller. -/
def Answer (events : List (Event Key Value Error Caller)) (caller : Caller)
    (result : Except Error (Key → Option Value)) : Prop :=
  ∃ pending, pending.tx = caller ∧ AskedAt cache maxBatchSize asked storage events pending ∧
    (pending.keys = ∅ ∧ result = .ok pending.useCacheValues ∨
      ∃ loaded, LoadedAt cache maxBatchSize asked storage events pending loaded ∧ result = pending.respond loaded)

/-- What holds of the requests and batches at any time, whether or not a fetch is scheduled. -/
structure Coherent (events : List (Event Key Value Error Caller)) (state : State Storage Key Value Error Caller) :
    Prop where
  union : ∀ key, key ∈ state.requests.keys ↔ ∃ pending ∈ state.requests.pending, key ∈ pending.keys
  nonempty : ∀ pending ∈ state.requests.pending, pending.keys.Nonempty
  loading : ∀ batch ∈ state.batches, ∀ key, key ∈ batch.keys ↔ ∃ pending ∈ batch.senders, key ∈ pending.keys
  once : (state.outstanding.map (·.tx)).Nodup
  unanswered : ∀ pending ∈ state.outstanding, state.task pending.tx = .awaiting ∨ state.task pending.tx = .dropped
  awaiting : ∀ caller, state.task caller = .awaiting → ∃ pending ∈ state.outstanding, pending.tx = caller
  selected : ∀ pending ∈ state.outstanding, AskedAt cache maxBatchSize asked storage events pending
  answered : ∀ caller result, state.task caller = .answered result →
    Answer cache maxBatchSize asked storage events caller result

variable {cache maxBatchSize asked storage}
variable {events : List (Event Key Value Error Caller)} {state state' : State Storage Key Value Error Caller}
variable {caller : Caller}

variable {pending : Pending Key Value Caller}

theorem askedAt_append (event : Event Key Value Error Caller)
    (h : AskedAt cache maxBatchSize asked storage events pending) :
    AskedAt cache maxBatchSize asked storage (events ++ [event]) pending := by
  obtain ⟨events₁, events₂, state, rfl, h⟩ := h
  exact ⟨events₁, events₂ ++ [event], state, by simp, h⟩

variable {result : Except Error (Key → Option Value)}

theorem answer_append (event : Event Key Value Error Caller)
    (h : Answer cache maxBatchSize asked storage events caller result) :
    Answer cache maxBatchSize asked storage (events ++ [event]) caller result := by
  obtain ⟨pending, ht, ha, hc | ⟨loaded, ⟨events₁, events₂, state, index, batch, rfl, hl⟩, hr⟩⟩ := h
  · exact ⟨pending, ht, askedAt_append event ha, .inl hc⟩
  · refine ⟨pending, ht, askedAt_append event ha, .inr ⟨loaded, ?_, hr⟩⟩
    exact ⟨events₁, events₂ ++ [event], state, index, batch, by simp, hl⟩

theorem coherent_append (event : Event Key Value Error Caller)
    (h : Coherent cache maxBatchSize asked storage events state) :
    Coherent cache maxBatchSize asked storage (events ++ [event]) state :=
  { h with
    selected := fun pending hp => askedAt_append event (h.selected pending hp)
    answered := fun caller result ht => answer_append event (h.answered caller result ht) }

theorem pending_eq_nil (h : Coherent cache maxBatchSize asked storage events state) (hk : state.requests.keys = ∅) :
    state.requests.pending = [] := by
  apply List.eq_nil_iff_forall_not_mem.mpr
  intro pending hp
  obtain ⟨key, hkey⟩ := h.nonempty pending hp
  have hmem := (h.union key).mpr ⟨pending, hp, hkey⟩
  simp [hk] at hmem

theorem outstanding_take (h : Coherent cache maxBatchSize asked storage events state) (disableCache : Bool) :
    (state.take disableCache).outstanding = state.outstanding := by
  by_cases hk : state.requests.keys = ∅
  · simp [State.outstanding, State.take, Requests.take, hk, pending_eq_nil h hk]
  · simp [State.outstanding, State.take, Requests.take, hk]

theorem coherent_take (h : Coherent cache maxBatchSize asked storage events state) (disableCache : Bool) :
    Coherent cache maxBatchSize asked storage events (state.take disableCache) := by
  have ho := outstanding_take h disableCache
  refine ⟨by simp [State.take, Requests.take], by simp [State.take, Requests.take], ?_, ?_, ?_, ?_, ?_, h.answered⟩
  · intro batch hb
    by_cases hk : state.requests.keys = ∅
    · simp only [State.take, hk, if_true] at hb
      exact h.loading batch hb
    · simp only [State.take, hk, if_false, List.mem_append, List.mem_singleton] at hb
      rcases hb with hb | rfl
      · exact h.loading batch hb
      · exact h.union
  · rw [ho]
    exact h.once
  · rw [ho]
    exact h.unanswered
  · rw [ho]
    exact h.awaiting
  · rw [ho]
    exact h.selected

theorem coherent_push (h : Coherent cache maxBatchSize asked storage events state) (hw : state.task caller = .waiting)
    {keys : Finset Key} (hk : keys ≠ ∅) {useCacheValues : Key → Option Value} (storage' : Storage)
    (ha : AskedAt cache maxBatchSize asked storage events ⟨keys, useCacheValues, caller⟩) :
    Coherent cache maxBatchSize asked storage events (state.push caller keys useCacheValues storage') := by
  have ho : (state.push caller keys useCacheValues storage').outstanding =
      state.outstanding ++ [⟨keys, useCacheValues, caller⟩] := by
    simp [State.outstanding, State.push]
  have hnew : ∀ pending ∈ state.outstanding, pending.tx ≠ caller := by
    intro pending hp he
    have ht := h.unanswered pending hp
    simp [he, hw] at ht
  have htask : ∀ other, other ≠ caller →
      (state.push caller keys useCacheValues storage').task other = state.task other := by
    intro other hne
    simp [State.push, hne]
  refine ⟨?_, ?_, h.loading, ?_, ?_, ?_, ?_, ?_⟩
  · intro key
    simp [State.push, h.union key, or_and_right, exists_or]
  · intro pending hp
    simp only [State.push, List.mem_append, List.mem_singleton] at hp
    rcases hp with hp | rfl
    · exact h.nonempty pending hp
    · exact Finset.nonempty_iff_ne_empty.mpr hk
  · rw [ho, List.map_append, List.nodup_append]
    refine ⟨h.once, by simp, ?_⟩
    intro tx htx tx' htx'
    obtain ⟨pending, hp, rfl⟩ := List.mem_map.mp htx
    rw [List.map_singleton, List.mem_singleton] at htx'
    rw [htx']
    exact hnew pending hp
  · intro pending hp
    rw [ho, List.mem_append, List.mem_singleton] at hp
    rcases hp with hp | rfl
    · rw [htask pending.tx (hnew pending hp)]
      exact h.unanswered pending hp
    · exact .inl (by simp [State.push])
  · intro other ht
    rw [ho]
    by_cases he : other = caller
    · exact ⟨_, List.mem_append_right _ (List.mem_singleton_self _), he.symm⟩
    · rw [htask other he] at ht
      obtain ⟨pending, hp, htx⟩ := h.awaiting other ht
      exact ⟨pending, List.mem_append_left _ hp, htx⟩
  · intro pending hp
    rw [ho, List.mem_append, List.mem_singleton] at hp
    rcases hp with hp | rfl
    · exact h.selected pending hp
    · exact ha
  · intro other result ht
    by_cases he : other = caller
    · subst he
      simp [State.push] at ht
    · rw [htask other he] at ht
      exact h.answered other result ht

section

variable {index : ℕ} {batch : Batch Key Value Caller} {result : Except Error (List (Key × Value))}

omit [DecidableEq Key] [DecidableEq Caller] in
theorem split_at {batches : List (Batch Key Value Caller)} (h : batches[index]? = some batch) :
    ∃ front rest, batches = front ++ batch :: rest ∧ batches.eraseIdx index = front ++ rest := by
  induction batches generalizing index with
  | nil => simp at h
  | cons first batches ih =>
    cases index with
    | zero =>
      obtain rfl : first = batch := by simpa using h
      exact ⟨[], batches, rfl, rfl⟩
    | succ index =>
      obtain ⟨front, rest, he, hr⟩ := ih (by simpa using h)
      exact ⟨first :: front, rest, by simp [he], by simp [hr]⟩

theorem outstanding_doLoad (cache : CacheStorage Storage Key Value)
    (result : Except Error (List (Key × Value))) (hb : state.batches[index]? = some batch) :
    state.outstanding.Perm (batch.senders ++ (state.doLoad cache index batch result).outstanding) := by
  obtain ⟨front, rest, he, hr⟩ := split_at hb
  simp only [State.outstanding, State.doLoad, he, List.flatMap_append, List.flatMap_cons, List.append_assoc]
  rw [← he, hr]
  simp only [List.flatMap_append, List.append_assoc]
  exact List.perm_append_comm_assoc _ _ _

theorem doLoad_task_of_ne (hne : ∀ pending ∈ batch.senders, pending.tx ≠ caller) :
    (state.doLoad cache index batch result).task caller = state.task caller := by
  have hf : batch.senders.find? (·.tx = caller) = none := by
    simpa using hne
  simp only [State.doLoad, hf]
  cases state.task caller <;> rfl

theorem doLoad_task_of_settled (hs : state.task caller ≠ .awaiting) :
    (state.doLoad cache index batch result).task caller = state.task caller := by
  simp only [State.doLoad]
  cases ht : state.task caller with
  | awaiting => exact absurd ht hs
  | _ => rfl

theorem doLoad_task_of_awaiting (hnodup : (batch.senders.map (·.tx)).Nodup) {pending : Pending Key Value Caller}
    (hp : pending ∈ batch.senders) (ht : state.task pending.tx = .awaiting) :
    (state.doLoad cache index batch result).task pending.tx = .answered (pending.respond result) := by
  cases hf : batch.senders.find? (·.tx = pending.tx) with
  | none =>
    have hnone := List.find?_eq_none.mp hf pending hp
    simp at hnone
  | some found =>
    have hfound := List.mem_of_find?_eq_some hf
    have htx : found.tx = pending.tx := by simpa using List.find?_some hf
    have he : found = pending := List.inj_on_of_nodup_map hnodup hfound hp htx
    simp only [State.doLoad, ht, hf, he]

theorem nodup_doLoad (result : Except Error (List (Key × Value)))
    (h : Coherent cache maxBatchSize asked storage events state) (hb : state.batches[index]? = some batch) :
    (batch.senders.map (·.tx)).Nodup ∧ ((state.doLoad cache index batch result).outstanding.map (·.tx)).Nodup ∧
      ∀ pending ∈ (state.doLoad cache index batch result).outstanding, ∀ other ∈ batch.senders,
        other.tx ≠ pending.tx := by
  have hperm := (outstanding_doLoad cache result hb).map (·.tx)
  have hnodup := hperm.nodup_iff.mp h.once
  rw [List.map_append, List.nodup_append] at hnodup
  refine ⟨hnodup.1, hnodup.2.1, ?_⟩
  intro pending hp other ho
  exact hnodup.2.2 other.tx (List.mem_map_of_mem ho) pending.tx (List.mem_map_of_mem hp)

theorem coherent_load (hrun : Run (Does cache maxBatchSize asked) (State.start storage) events state)
    (h : Coherent cache maxBatchSize asked storage events state) (hb : state.batches[index]? = some batch) :
    Coherent cache maxBatchSize asked storage (events ++ [.load index result])
      (state.doLoad cache index batch result) := by
  obtain ⟨hsenders, hrest, hdisjoint⟩ := nodup_doLoad result h hb
  have hmem : ∀ pending, pending ∈ state.outstanding ↔
      pending ∈ batch.senders ∨ pending ∈ (state.doLoad cache index batch result).outstanding := by
    intro pending
    rw [(outstanding_doLoad cache result hb).mem_iff, List.mem_append]
  refine ⟨h.union, h.nonempty, ?_, hrest, ?_, ?_, ?_, ?_⟩
  · intro other ho
    exact h.loading other (List.mem_of_mem_eraseIdx ho)
  · intro pending hp
    rw [doLoad_task_of_ne (hdisjoint pending hp)]
    exact h.unanswered pending ((hmem pending).mpr (.inr hp))
  · intro caller ht
    by_cases ha : state.task caller = .awaiting
    · obtain ⟨pending, hp, rfl⟩ := h.awaiting caller ha
      rcases (hmem pending).mp hp with hs | ho
      · rw [doLoad_task_of_awaiting hsenders hs ha] at ht
        simp at ht
      · exact ⟨pending, ho, rfl⟩
    · rw [doLoad_task_of_settled ha] at ht
      exact absurd ht ha
  · intro pending hp
    exact askedAt_append _ (h.selected pending ((hmem pending).mpr (.inr hp)))
  · intro caller answer ht
    by_cases ha : state.task caller = .awaiting
    · obtain ⟨pending, hp, rfl⟩ := h.awaiting caller ha
      rcases (hmem pending).mp hp with hs | ho
      · rw [doLoad_task_of_awaiting hsenders hs ha] at ht
        obtain rfl := Task.answered.inj ht
        refine ⟨pending, rfl, askedAt_append _ (h.selected pending hp), .inr ⟨result, ?_, rfl⟩⟩
        refine ⟨events, [], state, index, batch, rfl, hrun, hb, hs, ?_⟩
        intro key hkey
        exact (h.loading batch (List.mem_of_getElem? hb) key).mpr ⟨pending, hs, hkey⟩
      · rw [doLoad_task_of_ne (hdisjoint pending ho), ha] at ht
        simp at ht
    · rw [doLoad_task_of_settled ha] at ht
      exact answer_append _ (h.answered caller answer ht)

end

theorem coherent_settle (h : Coherent cache maxBatchSize asked storage events state) {task : Task Key Value Error}
    (hold : task = .dropped ∨ state.task caller = .waiting) (hnew : task ≠ .awaiting)
    (hanswer : ∀ result, task = .answered result → Answer cache maxBatchSize asked storage events caller result) :
    Coherent cache maxBatchSize asked storage events { state with task := Function.update state.task caller task } := by
  refine ⟨h.union, h.nonempty, h.loading, h.once, ?_, ?_, h.selected, ?_⟩
  · intro pending hp
    have ht := h.unanswered pending hp
    by_cases he : pending.tx = caller
    · rcases hold with rfl | hw
      · exact .inr (by simp [he])
      · simp [he, hw] at ht
    · simpa [he] using ht
  · intro other ht
    by_cases he : other = caller
    · subst he
      exact absurd (by simpa using ht) hnew
    · exact h.awaiting other (by simpa [he] using ht)
  · intro other result ht
    by_cases he : other = caller
    · subst he
      exact hanswer result (by simpa using ht)
    · exact h.answered other result (by simpa [he] using ht)

theorem coherent_withStorage (h : Coherent cache maxBatchSize asked storage events state) (storage' : Storage) :
    Coherent cache maxBatchSize asked storage events (state.withStorage storage') :=
  ⟨h.union, h.nonempty, h.loading, h.once, h.unanswered, h.awaiting, h.selected, h.answered⟩

structure Consistent (cache : CacheStorage Storage Key Value) (maxBatchSize : ℕ) (asked : Caller → List Key)
    (storage : Storage) (events : List (Event Key Value Error Caller))
    (state : State Storage Key Value Error Caller) : Prop where
  coherent : Coherent cache maxBatchSize asked storage events state
  scheduled : state.requests.pending ≠ [] → state.delayed ≠ []

omit [DecidableEq Caller] in
theorem pending_take (disableCache : Bool) : (state.take disableCache).requests.pending = [] := rfl

theorem consistent_ask (hrun : Run (Does cache maxBatchSize asked) (State.start storage) events state)
    (h : Consistent cache maxBatchSize asked storage events state) (hw : state.task caller = .waiting) :
    Consistent cache maxBatchSize asked storage (events ++ [.ask caller])
      (state.loadMany cache maxBatchSize caller (asked caller)) := by
  rcases hs : state.select cache (asked caller) with ⟨keys, useCacheValues, storage'⟩
  have hasked : AskedAt cache maxBatchSize asked storage (events ++ [.ask caller])
      ⟨keys, useCacheValues, caller⟩ :=
    ⟨events, [], state, rfl, hrun, by rw [hs], by rw [hs]⟩
  have hc := coherent_append (.ask caller) h.coherent
  simp only [State.loadMany, hs]
  by_cases hk : keys = ∅
  · rw [if_pos hk]
    refine ⟨?_, h.scheduled⟩
    apply coherent_settle (coherent_withStorage hc storage') (.inr hw) (by simp)
    intro result hr
    obtain rfl := Task.answered.inj hr
    exact ⟨⟨keys, useCacheValues, caller⟩, rfl, hasked, .inl ⟨hk, rfl⟩⟩
  rw [if_neg hk]
  have hp : Coherent cache maxBatchSize asked storage (events ++ [.ask caller])
      (state.push caller keys useCacheValues storage') := coherent_push hc hw hk storage' hasked
  by_cases hm : maxBatchSize ≤ (state.push caller keys useCacheValues storage').requests.keys.card
  · rw [if_pos hm]
    refine ⟨coherent_take hp _, ?_⟩
    intro hn
    exact absurd (pending_take _) hn
  rw [if_neg hm]
  split
  · exact ⟨⟨hp.union, hp.nonempty, hp.loading, hp.once, hp.unanswered, hp.awaiting, hp.selected, hp.answered⟩,
      by simp⟩
  · rename_i hstart
    refine ⟨hp, fun _ => h.scheduled ?_⟩
    -- the requests were not empty before
    intro hnil
    apply hstart
    have hempty : state.requests.keys = ∅ := by
      apply Finset.eq_empty_of_forall_notMem
      intro key hkey
      obtain ⟨pending, hmem, -⟩ := (h.coherent.union key).mp hkey
      simp [hnil] at hmem
    exact ⟨by simpa [State.push, hempty] using hk, by simp [hempty]⟩

theorem consistent_run (h : Run (Does cache maxBatchSize asked) (State.start storage) events state) :
    Consistent cache maxBatchSize asked storage events state := by
  induction h with
  | nil =>
    refine ⟨⟨?_, ?_, ?_, ?_, ?_, ?_, ?_, ?_⟩, ?_⟩ <;> simp [State.start, State.outstanding]
  | snoc hrun hlast ih =>
    cases hlast with
    | ask caller hw => exact consistent_ask hrun ih hw
    | fetch index disableCache _ =>
      have hc := coherent_append (.fetch index) (coherent_take ih.coherent disableCache)
      refine ⟨⟨hc.union, hc.nonempty, hc.loading, hc.once, hc.unanswered, hc.awaiting, hc.selected, hc.answered⟩, ?_⟩
      intro hn
      exact absurd (pending_take disableCache) hn
    | load index batch result hb => exact ⟨coherent_load hrun ih.coherent hb, ih.scheduled⟩
    | drop caller hr =>
      exact ⟨coherent_settle (coherent_append _ ih.coherent) (.inl rfl) (by simp) (by simp), ih.scheduled⟩
    | enableAllCache enable =>
      have hc := coherent_append (.enableAllCache enable) ih.coherent
      exact ⟨⟨hc.union, hc.nonempty, hc.loading, hc.once, hc.unanswered, hc.awaiting, hc.selected, hc.answered⟩,
        ih.scheduled⟩
    | enableCache enable =>
      have hc := coherent_append (.enableCache enable) ih.coherent
      exact ⟨⟨hc.union, hc.nonempty, hc.loading, hc.once, hc.unanswered, hc.awaiting, hc.selected, hc.answered⟩,
        ih.scheduled⟩
    | feed values => exact ⟨coherent_withStorage (coherent_append _ ih.coherent) _, ih.scheduled⟩
    | clear => exact ⟨coherent_withStorage (coherent_append _ ih.coherent) _, ih.scheduled⟩

variable {key : Key}

theorem mem_asked_of_respond (ha : AskedAt cache maxBatchSize asked storage events pending)
    (hk : key ∈ pending.keys ∨ (pending.useCacheValues key).isSome) : key ∈ asked pending.tx := by
  obtain ⟨_, _, at', _, _, hkeys, hvalues⟩ := ha
  rw [← hkeys, ← hvalues] at hk
  exact (mem_select at'.requests _ (asked pending.tx) key).mpr hk

theorem keys_of_answer {values : Key → Option Value} (h : Answer cache maxBatchSize asked storage events caller result)
    (hr : result = .ok values) (hv : (values key).isSome) : key ∈ asked caller := by
  obtain ⟨pending, rfl, ha, ⟨-, he⟩ | ⟨loaded, -, he⟩⟩ := h
  · rw [hr] at he
    obtain rfl := Except.ok.inj he
    exact mem_asked_of_respond ha (.inr hv)
  · rw [hr] at he
    cases loaded with
    | error error => simp [Pending.respond] at he
    | ok found =>
      obtain rfl := Except.ok.inj he
      apply mem_asked_of_respond ha
      by_cases hk : key ∈ pending.keys
      · exact .inl hk
      · exact .inr (by simpa [hk] using hv)

/-- A single key is answered with its value in the cache, or with what the loader gives the batch of the caller. -/
theorem loadOne_answered (h : Run (Does cache maxBatchSize asked) (State.start storage) events state)
    (ht : state.task caller = .answered result) (hk : asked caller = [key]) :
    ∃ pending, pending.tx = caller ∧ AskedAt cache maxBatchSize asked storage events pending ∧
      ((pending.useCacheValues key).isSome ∧ loadOne result key = .ok (pending.useCacheValues key) ∨
        ∃ loaded, LoadedAt cache maxBatchSize asked storage events pending loaded ∧
          loadOne result key = loaded.map (·.lookup key)) := by
  obtain ⟨pending, rfl, ha, hr⟩ := (consistent_run h).coherent.answered caller result ht
  refine ⟨pending, rfl, ha, ?_⟩
  obtain ⟨_, _, at', _, _, hkeys, hvalues⟩ := ha
  have hone : (pending.keys = ∅ ∧ (pending.useCacheValues key).isSome) ∨
      (key ∈ pending.keys ∧ pending.useCacheValues key = none) := by
    rw [← hkeys, ← hvalues, hk]
    simp only [State.select, Requests.select]
    split
    · simp
    · rcases hg : cache.get at'.requests.cacheStorage key with ⟨_ | value, storage'⟩
      · exact .inr (by simp [hg])
      · exact .inl (by simp [hg])
  rcases hr with ⟨hempty, rfl⟩ | ⟨loaded, hl, rfl⟩
  · rcases hone with ⟨-, hs⟩ | ⟨hmem, -⟩
    · exact .inl ⟨hs, rfl⟩
    · simp [hempty] at hmem
  · rcases hone with ⟨hempty, hs⟩ | ⟨hmem, hnone⟩
    · cases loaded with
      | error error => exact .inr ⟨.error error, hl, rfl⟩
      | ok values => exact .inl ⟨hs, by simp [loadOne, Pending.respond, hempty, Except.map]⟩
    · refine .inr ⟨loaded, hl, ?_⟩
      cases loaded <;> simp [loadOne, Pending.respond, Except.map, hmem, hnone]

def noCache : CacheStorage Unit ℕ ℕ := ⟨fun _ _ => (none, ()), fun _ _ _ => (), id⟩

theorem loadOne_answered_seven : ∃ (events : List (Event ℕ ℕ Unit Unit)) (result : Except Unit (ℕ → Option ℕ)),
    ∃ pending, pending.tx = () ∧ AskedAt noCache 1 (fun _ => [7]) () events pending ∧
      ((pending.useCacheValues 7).isSome ∧ loadOne result 7 = .ok (pending.useCacheValues 7) ∨
        ∃ loaded, LoadedAt noCache 1 (fun _ => [7]) () events pending loaded ∧
          loadOne result 7 = loaded.map (·.lookup 7)) := by
  have hrun : Run (Does noCache 1 fun _ => [7]) (State.start () : State Unit ℕ ℕ Unit Unit) _ _ :=
    .snoc (.single (.ask _ () rfl)) (.load _ 0 _ (.ok [(7, 8)]) rfl)
  exact ⟨_, _, loadOne_answered hrun (show State.task _ () = _ from rfl) rfl⟩

/-- A storage has no value but what was put into it. -/
structure Keeps (cache : CacheStorage Storage Key Value) : Prop where
  get : ∀ storage other key, (cache.get (cache.get storage other).2 key).1 = (cache.get storage key).1
  insert : ∀ storage other new key value, (cache.get (cache.insert storage other new) key).1 = some value →
    (cache.get storage key).1 = some value ∨ (key, value) = (other, new)
  clear : ∀ storage key, (cache.get (cache.clear storage) key).1 = none

/-- The values that the loader or a call gives. -/
def Event.values : Event Key Value Error Caller → List (Key × Value)
  | .load _ (.ok values) | .feed values => values
  | _ => []

variable {value : Value}

omit [DecidableEq Caller] in
theorem get_select (hkeeps : Keeps cache) (requests : Requests Storage Key Value Caller) (disabled : Bool)
    (keys : List Key) (key : Key) :
    (cache.get (requests.select cache disabled keys).2.2 key).1 = (cache.get requests.cacheStorage key).1 ∧
      ∀ value, (requests.select cache disabled keys).2.1 key = some value →
        (cache.get requests.cacheStorage key).1 = some value := by
  unfold Requests.select
  split
  · exact ⟨rfl, by simp⟩
  · refine List.foldlRecOn (motive := fun found : Finset Key × (Key → Option Value) × Storage =>
      (cache.get found.2.2 key).1 = (cache.get requests.cacheStorage key).1 ∧
        ∀ value, found.2.1 key = some value → (cache.get requests.cacheStorage key).1 = some value)
      keys _ ⟨rfl, by simp⟩ ?_
    rintro ⟨keysSet, useCacheValues, storage⟩ ⟨ih, ihv⟩ next _
    have hget := hkeeps.get storage next key
    rcases hg : cache.get storage next with ⟨_ | cached, storage'⟩
    · simp_all
    · rw [hg] at hget
      by_cases hnext : key = next
      · subst hnext
        simp [hg, hget, ← ih]
      · simp_all

omit [DecidableEq Key] in
theorem get_inserts (hkeeps : Keeps cache) (values : List (Key × Value))
    (h : (cache.get (values.foldl (fun storage (key, value) => cache.insert storage key value) storage) key).1 =
      some value) :
    (cache.get storage key).1 = some value ∨ (key, value) ∈ values := by
  induction values generalizing storage with
  | nil => exact .inl h
  | cons first rest ih =>
    rcases ih h with h | h
    · exact (hkeeps.insert _ _ _ _ _ h).imp_right fun he => List.mem_cons.mpr (.inl he)
    · exact .inr (List.mem_cons_of_mem _ h)

theorem get_given (hkeeps : Keeps cache) (hempty : ∀ key, (cache.get storage key).1 = none)
    (h : Run (Does cache maxBatchSize asked) (State.start storage) events state) :
    ∀ key value, (cache.get state.requests.cacheStorage key).1 = some value → (key, value) ∈ events.flatMap (·.values) := by
  apply Run.holds (fun events state => ∀ key value, (cache.get state.requests.cacheStorage key).1 = some value →
    (key, value) ∈ events.flatMap (·.values)) _ _ h
  · simp [State.start, hempty]
  · intro events state event state' ih hd key value hs
    rw [List.flatMap_append, List.mem_append]
    cases hd with
    | ask caller =>
      have hstorage : (state.loadMany cache maxBatchSize caller (asked caller)).requests.cacheStorage =
          (state.select cache (asked caller)).2.2 := by
        unfold State.loadMany
        dsimp only
        split_ifs <;> rfl
      rw [hstorage, State.select, (get_select hkeeps _ _ _ _).1] at hs
      exact .inl (ih key value hs)
    | load index batch result =>
      cases result with
      | error error => exact .inl (ih key value hs)
      | ok values =>
        dsimp only [State.doLoad] at hs
        split at hs
        · exact .inl (ih key value hs)
        · exact (get_inserts hkeeps values hs).imp (ih key value) (by simpa [Event.values] using ·)
    | feed values => exact (get_inserts hkeeps values hs).imp (ih key value) (by simpa [Event.values] using ·)
    | clear => simp [State.withStorage, hkeeps.clear] at hs
    | _ => exact .inl (ih key value hs)

/-- Callers get no value under a key but one that was loaded or fed for it, and only for what they asked. -/
theorem answered_given (hkeeps : Keeps cache) (hempty : ∀ key, (cache.get storage key).1 = none)
    (h : Run (Does cache maxBatchSize asked) (State.start storage) events state) {values : Key → Option Value}
    (ht : state.task caller = .answered (.ok values)) (hv : values key = some value) :
    key ∈ asked caller ∧ (key, value) ∈ events.flatMap (·.values) := by
  have ha := (consistent_run h).coherent.answered caller _ ht
  refine ⟨keys_of_answer ha rfl (by simp [hv]), ?_⟩
  obtain ⟨pending, rfl, ⟨before, after, at', rfl, hrun, -, huse⟩, hr⟩ := ha
  have hcached (hk : pending.useCacheValues key = some value) :
      (key, value) ∈ (before ++ .ask pending.tx :: after).flatMap (·.values) := by
    rw [← huse] at hk
    rw [List.flatMap_append]
    exact List.mem_append_left _ (get_given hkeeps hempty hrun key value ((get_select hkeeps _ _ _ _).2 _ hk))
  rcases hr with ⟨-, he⟩ | ⟨_ | found, ⟨_, _, _, index, _, hevents, -⟩, he⟩
  · obtain rfl := Except.ok.inj he
    exact hcached hv
  · cases he
  · obtain rfl := Except.ok.inj he
    rcases Option.or_eq_some_iff.mp hv with hv | ⟨-, hv⟩
    · obtain ⟨_, _, hfound, -⟩ := List.lookup_eq_some_iff.mp (Option.ite_none_right_eq_some.mp hv).2
      simp [hevents, hfound, Event.values]
    · exact hcached hv

theorem answered_given_seven : ∃ events : List (Event ℕ ℕ Unit Unit), 7 ∈ [7] ∧ (7, 8) ∈ events.flatMap (·.values) := by
  have hrun : Run (Does noCache 1 fun _ => [7]) (State.start () : State Unit ℕ ℕ Unit Unit) _ _ :=
    .snoc (.single (.ask _ () rfl)) (.load _ 0 _ (.ok [(7, 8)]) rfl)
  have hkeeps : Keeps noCache := ⟨fun _ _ _ => rfl, fun _ _ _ _ _ h => .inl h, fun _ _ => rfl⟩
  exact ⟨_, answered_given hkeeps (fun _ => rfl) hrun (show State.task _ () = _ from rfl) rfl⟩

structure Served (cache : CacheStorage Storage Key Value) (maxBatchSize : ℕ) (asked : Caller → List Key)
    (storage : Storage) (events : List (Event Key Value Error Caller))
    (state : State Storage Key Value Error Caller) : Prop where
  union : ∀ key, key ∈ state.requests.keys ↔ ∃ pending ∈ state.requests.pending, key ∈ pending.keys
  scheduled : state.requests.pending ≠ [] → state.delayed ≠ []
  awaiting : ∀ caller, state.task caller = .awaiting → (state.outstanding.map (·.tx)).count caller = 1
  answered : ∀ caller result, state.task caller = .answered result → caller ∉ state.outstanding.map (·.tx) ∧
    Answer cache maxBatchSize asked storage events caller result ∧
    ∀ values key, result = .ok values → (values key).isSome → key ∈ asked caller
  loaded : ∀ index batch result, state.batches[index]? = some batch →
    (∀ pending ∈ batch.senders, state.task pending.tx = .awaiting →
      (state.doLoad cache index batch result).task pending.tx = .answered (pending.respond result)) ∧
    ∀ caller, (∀ pending ∈ batch.senders, pending.tx ≠ caller) →
      (state.doLoad cache index batch result).task caller = state.task caller

theorem served_run (h : Run (Does cache maxBatchSize asked) (State.start storage) events state) :
    Served cache maxBatchSize asked storage events state := by
  obtain ⟨hc, hs⟩ := consistent_run h
  refine ⟨hc.union, hs, ?_, ?_, ?_⟩
  · intro caller ht
    obtain ⟨pending, hp, rfl⟩ := hc.awaiting caller ht
    exact List.count_eq_one_of_mem hc.once (List.mem_map_of_mem hp)
  · intro caller result ht
    have ha := hc.answered caller result ht
    refine ⟨?_, ha, fun values key => keys_of_answer ha⟩
    intro hm
    obtain ⟨pending, hp, rfl⟩ := List.mem_map.mp hm
    have hu := hc.unanswered pending hp
    simp [ht] at hu
  · intro index batch result hb
    have hnodup := (nodup_doLoad result hc hb).1
    exact ⟨fun pending hp ht => doLoad_task_of_awaiting hnodup hp ht, fun caller hne => doLoad_task_of_ne hne⟩

/-- The tasks that are scheduled run at some time, and the loader answers every batch. -/
def Fair (run : Forever (Does cache maxBatchSize asked) (State.start storage : State Storage Key Value Error Caller)) :
    Prop :=
  (∀ n, (run.state n).delayed ≠ [] → ∃ m, n ≤ m ∧ ∃ index, run.event m = some (.fetch index)) ∧
  ∀ n batch, batch ∈ (run.state n).batches → ∃ m, n ≤ m ∧ ∃ index result,
    run.event m = some (.load index result) ∧ (run.state m).batches[index]? = some batch

theorem mem_batches_fetch {index : ℕ} (h : Coherent cache maxBatchSize asked storage events state)
    (hp : pending ∈ state.outstanding) (hd : Does cache maxBatchSize asked state (.fetch index) state') :
    ∃ batch ∈ state'.batches, pending ∈ batch.senders := by
  cases hd with
  | fetch _ disableCache _ =>
    have ho : pending ∈ (state.take disableCache).outstanding := by
      rw [outstanding_take h]
      exact hp
    simpa [State.outstanding, State.take, Requests.take] using ho

theorem loadMany_task_of_ne {other : Caller} (h : other ≠ caller) (keys : List Key) :
    (state.loadMany cache maxBatchSize caller keys).task other = state.task other := by
  simp only [State.loadMany]
  split
  · simp [h]
  split
  · simp [State.take, State.push, h]
  split <;> simp [State.push, h]

theorem awaiting_does {event : Event Key Value Error Caller} (ht : state.task caller = .awaiting)
    (hd : Does cache maxBatchSize asked state event state') :
    state'.task caller = .awaiting ∨ state'.task caller = .dropped ∨ ∃ result, state'.task caller = .answered result := by
  cases hd with
  | ask other hw =>
    have hne : caller ≠ other := by
      intro he
      simp [he, hw] at ht
    exact .inl (by rw [loadMany_task_of_ne hne, ht])
  | load index batch result _ =>
    simp only [State.doLoad, ht]
    cases batch.senders.find? (·.tx = caller) with
    | none => exact .inl rfl
    | some pending => exact .inr (.inr ⟨_, rfl⟩)
  | drop other _ =>
    by_cases he : caller = other
    · exact .inr (.inl (by simp [he]))
    · exact .inl (by simpa [he] using ht)
  | _ => exact .inl ht

theorem answered_fairly
    (run : Forever (Does cache maxBatchSize asked) (State.start storage : State Storage Key Value Error Caller))
    (hfair : Fair run) {n : ℕ} (ht : (run.state n).task caller = .awaiting) :
    ∃ m, n ≤ m ∧ ((run.state m).task caller = .dropped ∨ ∃ result, (run.state m).task caller = .answered result) := by
  by_contra hnone
  have hstay : ∀ m, n ≤ m → (run.state m).task caller = .awaiting := by
    intro m hm
    apply run.holds_from (·.task caller = .awaiting) ht _ hm
    intro m event hm hw hd
    rcases awaiting_does hw hd with ha | hx | hx
    · exact ha
    · exact absurd ⟨m + 1, by omega, .inl hx⟩ hnone
    · exact absurd ⟨m + 1, by omega, .inr hx⟩ hnone
  have hcoherent : ∀ m, ∃ events, Consistent cache maxBatchSize asked storage events (run.state m) := by
    intro m
    obtain ⟨events, h⟩ := run.reached m
    exact ⟨events, consistent_run h⟩
  -- a batch of the caller would be loaded
  have hbatch : ∀ m, n ≤ m → ∀ batch ∈ (run.state m).batches, ∀ pending ∈ batch.senders, pending.tx ≠ caller := by
    intro m hm batch hb pending hp he
    obtain ⟨m', hm', index, result, hevent, hb'⟩ := hfair.2 m batch hb
    obtain ⟨events, hc⟩ := hcoherent m'
    have hload := run.does_of_event hevent
    have hnext := hstay (m' + 1) (by omega)
    have hnow := hstay m' (by omega)
    generalize run.state (m' + 1) = next at hload hnext
    cases hload with
    | load _ batch' _ hb'' =>
      obtain rfl : batch = batch' := Option.some.inj (hb'.symm.trans hb'')
      subst he
      rw [doLoad_task_of_awaiting (nodup_doLoad result hc.coherent hb').1 hp hnow] at hnext
      simp at hnext
  have hout : ∀ m, n ≤ m → ∃ pending ∈ (run.state m).requests.pending, pending.tx = caller := by
    intro m hm
    obtain ⟨events, hc⟩ := hcoherent m
    obtain ⟨pending, hp, he⟩ := hc.coherent.awaiting caller (hstay m hm)
    rcases List.mem_append.mp hp with hb | hr
    · obtain ⟨batch, hb, hs⟩ := List.mem_flatMap.mp hb
      exact absurd he (hbatch m hm batch hb pending hs)
    · exact ⟨pending, hr, he⟩
  obtain ⟨events, hc⟩ := hcoherent n
  obtain ⟨first, hfirst, -⟩ := hout n (le_refl n)
  obtain ⟨m, hm, index, hevent⟩ := hfair.1 n (hc.scheduled (List.ne_nil_of_mem hfirst))
  obtain ⟨events', hc'⟩ := hcoherent m
  obtain ⟨pending, hp, he⟩ := hout m hm
  have hmem : pending ∈ (run.state m).outstanding := List.mem_append_right _ hp
  obtain ⟨batch, hb, hs⟩ := mem_batches_fetch hc'.coherent hmem (run.does_of_event hevent)
  exact hbatch (m + 1) (by omega) batch hb pending hs he

end

end Gqlforge.DataLoader
