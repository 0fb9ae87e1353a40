import Busd.Protocol.Types
import Busd.Lib.Run

/-!
# The deduplication cache

`DeduplicationCache` keeps the identifiers it was given in a queue, oldest first, and once more in a set for the
lookup. It answers whether an identifier is new, and drops the oldest one when it is full.

* `record` : the operation; an answer `none` is the panic of its `expect`;
* `accepted` : the identifiers that a history answered as new, in order;
* `Window` : the queue holds the last accepted identifiers, and the set holds what the queue holds;
* `deduplication_window` : an identifier is refused exactly when it is one of the last accepted ones.
-/

namespace Busd.Client

open Machine Busd.Protocol

structure DeduplicationCache where
  capacity : Nat
  order : List MessageId
  entries : OrdSet MessageId
  deriving DecidableEq

namespace DeduplicationCache

def new (capacity : Nat) : DeduplicationCache := ⟨capacity, [], ∅⟩

def push (cache : DeduplicationCache) (messageId : MessageId) : DeduplicationCache :=
  { cache with order := cache.order ++ [messageId], entries := OrdSet.add cache.entries messageId }

/-- Records `messageId` and returns `true` only when it was not retained already. -/
def record (cache : DeduplicationCache) (messageId : MessageId) : DeduplicationCache × Option Bool :=
  if cache.entries.contains messageId then (cache, some false)
  else if cache.capacity = 0 then (cache, some true)
  else if cache.order.length = cache.capacity then
    match cache.order with
    -- `pop_front().expect("cache is non-empty")`
    | [] => (cache, none)
    | expired :: rest =>
      ({ cache with order := rest, entries := cache.entries.erase expired }.push messageId, some true)
  else (cache.push messageId, some true)

def len (cache : DeduplicationCache) : Nat := cache.entries.size

/-! ## The window -/

/-- The identifiers that a history answered as new, oldest first. -/
def accepted (history : List (MessageId × Option Bool)) : List MessageId :=
  (history.filter fun e => e.2 = some true).map Prod.fst

theorem accepted_snoc (history : List (MessageId × Option Bool)) (messageId : MessageId) (answer : Option Bool) :
    accepted (history ++ [(messageId, answer)]) =
      if answer = some true then accepted history ++ [messageId] else accepted history := by
  unfold accepted
  rw [List.filter_append, List.map_append, List.filter_singleton]
  split_ifs with h
  · simp [h]
  · simp [h]

/-- The cache after a history: its queue is the window of the last accepted identifiers. -/
structure Window (capacity : Nat) (history : List (MessageId × Option Bool)) (cache : DeduplicationCache) :
    Prop where
  places : cache.capacity = capacity
  order : cache.order = (accepted history).rtake capacity
  nodup : cache.order.Nodup
  entries : ∀ messageId, cache.entries.contains messageId = true ↔ messageId ∈ cache.order

variable {capacity : Nat} {history : List (MessageId × Option Bool)} {cache : DeduplicationCache}

theorem window_new (capacity : Nat) : Window capacity [] (new capacity) where
  places := rfl
  order := (List.rtake_nil capacity).symm
  nodup := List.nodup_nil
  entries := fun messageId => by simp [new, OrdMap.contains]

theorem Window.length_le (h : Window capacity history cache) : cache.order.length ≤ capacity := by
  rw [h.order, List.length_rtake]
  exact Nat.min_le_left _ _

theorem Window.len_eq (h : Window capacity history cache) : cache.len = cache.order.length := by
  have hset : cache.entries.toFinset = cache.order.toFinset := by
    ext messageId
    rw [OrdSet.mem_toFinset, List.mem_toFinset, h.entries]
  rw [len, ← OrdSet.card_toFinset, hset, List.toFinset_card_of_nodup h.nodup]

theorem record_of_mem {messageId : MessageId} (h : cache.entries.contains messageId = true) :
    cache.record messageId = (cache, some false) := by
  rw [record, if_pos h]

/-- What a cache with room for something does with an identifier that it does not retain. -/
theorem Window.record_of_notMem (h : Window capacity history cache) (hcapacity : capacity ≠ 0)
    {messageId : MessageId} (hnew : cache.entries.contains messageId = false) :
    ∃ kept : DeduplicationCache, cache.record messageId = (kept.push messageId, some true) ∧
      kept.capacity = capacity ∧
      kept.order = (if cache.order.length = capacity then cache.order.tail else cache.order) ∧
      ∀ id, kept.entries.contains id = true ↔ id ∈ kept.order := by
  rw [record, if_neg (by simp [hnew]), if_neg (by rwa [h.places])]
  by_cases hfull : cache.order.length = capacity
  · rw [if_pos (hfull.trans h.places.symm), if_pos hfull]
    cases horder : cache.order with
    | nil =>
      rw [horder] at hfull
      exact absurd hfull.symm hcapacity
    | cons expired rest =>
      refine ⟨_, rfl, h.places, rfl, fun id => ?_⟩
      have hnodup := h.nodup
      rw [horder] at hnodup
      obtain ⟨hexpired, -⟩ := List.nodup_cons.mp hnodup
      change (cache.entries.erase expired).contains id = true ↔ id ∈ rest
      rw [OrdMap.contains_erase, h.entries, horder, List.mem_cons]
      refine ⟨fun hmem => hmem.2.resolve_left hmem.1, fun hmem => ⟨?_, .inr hmem⟩⟩
      rintro rfl
      exact hexpired hmem
  · rw [if_neg (by rwa [h.places]), if_neg hfull]
    exact ⟨cache, rfl, h.places, rfl, h.entries⟩

theorem Window.record (h : Window capacity history cache) (messageId : MessageId) :
    Window capacity (history ++ [(messageId, (cache.record messageId).2)]) (cache.record messageId).1 := by
  cases hnew : cache.entries.contains messageId with
  | true =>
    rw [record_of_mem hnew]
    refine { h with order := ?_ }
    rw [accepted_snoc, if_neg (by simp)]
    exact h.order
  | false =>
    have hfresh : messageId ∉ cache.order := by
      intro hmem
      rw [(h.entries messageId).mpr hmem] at hnew
      cases hnew
    by_cases hcapacity : capacity = 0
    · subst hcapacity
      rw [DeduplicationCache.record, if_neg (by simp [hnew]), if_pos h.places]
      refine { h with order := ?_ }
      rw [accepted_snoc, if_pos rfl, h.order, List.rtake_zero, List.rtake_zero]
    · obtain ⟨kept, hrecord, hkept, horder, hentries⟩ := h.record_of_notMem hcapacity hnew
      have hsub : kept.order.Sublist cache.order := by
        rw [horder]
        split_ifs
        · exact List.tail_sublist _
        · exact List.Sublist.refl _
      rw [hrecord]
      refine ⟨hkept, ?_, ?_, fun id => ?_⟩
      · rw [accepted_snoc, if_pos rfl, List.rtake_concat hcapacity, ← h.order, push, horder]
      · exact (h.nodup.sublist hsub).append (List.nodup_singleton _)
          (List.disjoint_singleton.mpr fun hmem => hfresh (hsub.subset hmem))
      · change OrdMap.contains (OrdSet.add kept.entries messageId) id = true ↔ id ∈ kept.order ++ [messageId]
        rw [OrdSet.contains_add, hentries, List.mem_append, List.mem_singleton, or_comm]

theorem run_window {history : List (MessageId × Option Bool)} {cache : DeduplicationCache}
    (hrun : Run DeduplicationCache.record (new capacity) history cache) : Window capacity history cache := by
  generalize hstart : new capacity = start at hrun
  induction hrun with
  | nil =>
    subst hstart
    exact window_new capacity
  | @snoc cache' cache'' history messageId answer _ hstep ih =>
    have hwindow := ih.record messageId
    rwa [hstep] at hwindow

theorem Window.answer (h : Window capacity history cache) (messageId : MessageId) :
    (cache.record messageId).2 = some (decide (messageId ∉ (accepted history).rtake capacity)) := by
  rw [← h.order]
  cases hnew : cache.entries.contains messageId with
  | true =>
    have hmem := (h.entries messageId).mp hnew
    rw [record_of_mem hnew]
    simp [hmem]
  | false =>
    have hfresh : messageId ∉ cache.order := by
      intro hmem
      rw [(h.entries messageId).mpr hmem] at hnew
      cases hnew
    by_cases hcapacity : capacity = 0
    · rw [DeduplicationCache.record, if_neg (by simp [hnew]), if_pos (by rw [h.places, hcapacity])]
      simp [hfresh]
    · obtain ⟨kept, hrecord, -⟩ := h.record_of_notMem hcapacity hnew
      rw [hrecord]
      simp [hfresh]

/-- After any sequence of calls on a new cache, the next call does not panic, and answers `false` exactly for the
last `capacity` identifiers that were answered `true`; the queue and the set hold the same identifiers, each once,
and at most `capacity` of them. -/
theorem deduplication_window (capacity : Nat) (messageIds : List MessageId) (messageId : MessageId) :
    let history := (run DeduplicationCache.record (new capacity) messageIds).1
    let cache := (run DeduplicationCache.record (new capacity) messageIds).2
    ((cache.record messageId).2 = some false ↔ messageId ∈ (accepted history).rtake capacity) ∧
      (cache.record messageId).2 ≠ none ∧ (capacity = 0 → (cache.record messageId).2 = some true) ∧
      cache.order.Nodup ∧ (∀ id, cache.entries.contains id = true ↔ id ∈ cache.order) ∧ cache.len ≤ capacity := by
  intro history cache
  have hwindow : Window capacity history cache := run_window (run_spec _ messageIds)
  rw [hwindow.answer messageId]
  refine ⟨by simp, by simp, fun hzero => ?_, hwindow.nodup, hwindow.entries, ?_⟩
  · rw [hzero, List.rtake_zero]
    simp
  · rw [hwindow.len_eq]
    exact hwindow.length_le

end DeduplicationCache

end Busd.Client
