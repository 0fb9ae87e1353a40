import Mathlib.Order.Basic
import Mathlib.Data.List.Basic
import Mathlib.Data.List.Perm.Basic
import Mathlib.Data.List.Pairwise
import Mathlib.Data.List.Sort
import Mathlib.Data.List.DropRight
import Mathlib.Data.Finset.Card
import Mathlib.Algebra.Order.BigOperators.Group.Finset
import Mathlib.Algebra.BigOperators.Group.Finset.Piecewise
import Mathlib.Algebra.GroupWithZero.Nat

/-!
# Ordered maps: finite maps iterated in key order

`OrdMap κ α` is a finite map kept as its list of entries, strictly sorted by key; the order is a
field, so iterating a map is reading the list. Two maps with the same lookups are equal.

* `get?`, `insert`, `erase`, `filter`, `filterMap` and what a lookup sees after each of them;
* `mem_entries_iff` : membership in the entry list is the lookup;
* `insert_entries_perm`, `insert_new_entries_perm` : the entries around one key, for sums and counts
  over a map;
* `weight` : a sum over the values, compared key by key (`weight_le`, `weight_le_add`);
* `insert_entries_of_lt` : a key above all others is appended at the end;
* `OrdSet κ` : the map to `Unit`, with its elements in order; `OrdSet.toFinset` forgets the order;
* `List.pairwise_insertionSort_stable` : sorting the entries by something else keeps the order of equals;
* `List.rtake_concat` : a bounded queue that drops its oldest element holds the last elements of what it was given.
-/

universe u v w

/-- A finite map as the list of its entries, strictly increasing in the key. -/
structure OrdMap (κ : Type u) (α : Type v) [LinearOrder κ] where
  entries : List (κ × α)
  sorted : entries.Pairwise fun a b => a.1 < b.1

namespace OrdMap

variable {κ : Type u} {α : Type v} {β : Type w} [LinearOrder κ]

theorem ext_entries {m n : OrdMap κ α} (h : m.entries = n.entries) : m = n := by
  cases m; cases n; cases h; rfl

instance [DecidableEq α] : DecidableEq (OrdMap κ α) := fun m n =>
  decidable_of_iff (m.entries = n.entries) ⟨ext_entries, fun h => h ▸ rfl⟩

/-! ## Operations -/

def empty : OrdMap κ α := ⟨[], .nil⟩

instance : EmptyCollection (OrdMap κ α) := ⟨empty⟩

instance : Inhabited (OrdMap κ α) := ⟨empty⟩

def get? (m : OrdMap κ α) (k : κ) : Option α := m.entries.lookup k

def contains (m : OrdMap κ α) (k : κ) : Bool := (m.get? k).isSome

def size (m : OrdMap κ α) : Nat := m.entries.length

def isEmpty (m : OrdMap κ α) : Bool := m.entries.isEmpty

def keys (m : OrdMap κ α) : List κ := m.entries.map Prod.fst

def values (m : OrdMap κ α) : List α := m.entries.map Prod.snd

/-- Insert into a sorted entry list, replacing an entry of the same key. -/
def insertEntry (k : κ) (v : α) : List (κ × α) → List (κ × α)
  | [] => [(k, v)]
  | e :: es =>
    if k < e.1 then (k, v) :: e :: es
    else if e.1 < k then e :: insertEntry k v es
    else (k, v) :: es

theorem mem_insertEntry {k : κ} {v : α} {e : κ × α} :
    ∀ {es : List (κ × α)}, e ∈ insertEntry k v es → e = (k, v) ∨ e ∈ es
  | [], h => by simpa [insertEntry] using h
  | e' :: es, h => by
    unfold insertEntry at h
    split_ifs at h with h1 h2
    · simpa using h
    · rcases List.mem_cons.mp h with h | h
      · exact Or.inr (h ▸ List.mem_cons_self)
      · exact (mem_insertEntry h).imp_right (List.mem_cons_of_mem _)
    · exact (List.mem_cons.mp h).imp_right (List.mem_cons_of_mem _)

theorem sorted_insertEntry (k : κ) (v : α) :
    ∀ {es : List (κ × α)}, es.Pairwise (fun a b => a.1 < b.1) →
      (insertEntry k v es).Pairwise fun a b => a.1 < b.1
  | [], _ => by simp [insertEntry]
  | e :: es, h => by
    obtain ⟨hhead, htail⟩ := List.pairwise_cons.mp h
    unfold insertEntry
    split_ifs with h1 h2
    · refine List.pairwise_cons.mpr ⟨fun e' he' => ?_, h⟩
      rcases List.mem_cons.mp he' with rfl | he'
      · exact h1
      · exact h1.trans (hhead e' he')
    · refine List.pairwise_cons.mpr ⟨fun e' he' => ?_, sorted_insertEntry k v htail⟩
      rcases mem_insertEntry he' with rfl | he'
      · exact h2
      · exact hhead e' he'
    · have hk : k = e.1 := le_antisymm (not_lt.mp h2) (not_lt.mp h1)
      exact List.pairwise_cons.mpr ⟨fun e' he' => hk ▸ hhead e' he', htail⟩

def insert (m : OrdMap κ α) (k : κ) (v : α) : OrdMap κ α :=
  ⟨insertEntry k v m.entries, sorted_insertEntry k v m.sorted⟩

def filter (m : OrdMap κ α) (p : κ → α → Bool) : OrdMap κ α :=
  ⟨m.entries.filter fun e => p e.1 e.2, m.sorted.filter _⟩

def erase (m : OrdMap κ α) (k : κ) : OrdMap κ α := m.filter fun k' _ => k' ≠ k

def filterMap (m : OrdMap κ α) (f : κ → α → Option β) : OrdMap κ β :=
  ⟨m.entries.filterMap fun e => (f e.1 e.2).map (Prod.mk e.1), by
    refine m.sorted.filterMap _ fun e e' h b hb b' hb' => ?_
    simp only [Option.map_eq_some_iff] at hb hb'
    obtain ⟨_, _, rfl⟩ := hb
    obtain ⟨_, _, rfl⟩ := hb'
    exact h⟩

/-- The map of a list of pairs; a later pair replaces an earlier one of the same key. -/
def ofList (l : List (κ × α)) : OrdMap κ α := l.foldl (fun m e => m.insert e.1 e.2) empty

/-! ## Lookups -/

theorem lookup_eq_some_of_mem {k : κ} {v : α} :
    ∀ {es : List (κ × α)}, es.Pairwise (fun a b => a.1 < b.1) → (k, v) ∈ es → es.lookup k = some v
  | (k', v') :: es, hs, h => by
    obtain ⟨hhead, htail⟩ := List.pairwise_cons.mp hs
    rcases List.mem_cons.mp h with h | h
    · cases h
      simp
    · have hne : (k == k') = false := beq_eq_false_iff_ne.mpr (hhead _ h).ne'
      rw [List.lookup_cons, hne]
      exact lookup_eq_some_of_mem htail h

theorem mem_of_lookup_eq_some {k : κ} {v : α} :
    ∀ {es : List (κ × α)}, es.lookup k = some v → (k, v) ∈ es
  | [], h => by simp at h
  | (k', v') :: es, h => by
    by_cases hk : k = k'
    · subst hk
      have : v' = v := by simpa using h
      exact this ▸ List.mem_cons_self
    · rw [List.lookup_cons, beq_eq_false_iff_ne.mpr hk] at h
      exact List.mem_cons_of_mem _ (mem_of_lookup_eq_some h)

theorem mem_entries_iff {m : OrdMap κ α} {k : κ} {v : α} :
    (k, v) ∈ m.entries ↔ m.get? k = some v :=
  ⟨lookup_eq_some_of_mem m.sorted, mem_of_lookup_eq_some⟩

theorem nodup_entries (m : OrdMap κ α) : m.entries.Nodup :=
  m.sorted.imp fun {_ _} hlt heq => absurd (heq ▸ hlt) (lt_irrefl _)

theorem ext_get? {m n : OrdMap κ α} (h : ∀ k, m.get? k = n.get? k) : m = n := by
  have hperm : m.entries.Perm n.entries := by
    refine (List.perm_ext_iff_of_nodup m.nodup_entries n.nodup_entries).mpr fun ⟨k, v⟩ => ?_
    rw [mem_entries_iff, mem_entries_iff, h k]
  refine ext_entries (List.Perm.eq_of_pairwise ?_ m.sorted n.sorted hperm)
  intro a b _ _ hab hba
  exact absurd (hab.trans hba) (lt_irrefl _)

@[simp] theorem get?_empty (k : κ) : (∅ : OrdMap κ α).get? k = none := rfl

@[simp] theorem entries_empty : (∅ : OrdMap κ α).entries = [] := rfl

theorem mem_insertEntry_iff {k : κ} {v : α} {e : κ × α} :
    ∀ {es : List (κ × α)}, es.Pairwise (fun a b => a.1 < b.1) →
      (e ∈ insertEntry k v es ↔ e = (k, v) ∨ e ∈ es ∧ e.1 ≠ k)
  | [], _ => by simp [insertEntry]
  | e' :: es, hs => by
    obtain ⟨hhead, htail⟩ := List.pairwise_cons.mp hs
    unfold insertEntry
    split_ifs with h1 h2
    · have habove : ∀ x ∈ e' :: es, x.1 ≠ k := by
        intro x hx
        rcases List.mem_cons.mp hx with rfl | hx
        · exact h1.ne'
        · exact (h1.trans (hhead x hx)).ne'
      rw [List.mem_cons]
      exact or_congr_right ⟨fun h => ⟨h, habove e h⟩, fun h => h.1⟩
    · have hne : e'.1 ≠ k := h2.ne
      rw [List.mem_cons, mem_insertEntry_iff htail, List.mem_cons]
      constructor
      · rintro (rfl | rfl | ⟨h, h'⟩)
        · exact Or.inr ⟨Or.inl rfl, hne⟩
        · exact Or.inl rfl
        · exact Or.inr ⟨Or.inr h, h'⟩
      · rintro (rfl | ⟨rfl | h, h'⟩)
        · exact Or.inr (Or.inl rfl)
        · exact Or.inl rfl
        · exact Or.inr (Or.inr ⟨h, h'⟩)
    · have hk : k = e'.1 := le_antisymm (not_lt.mp h2) (not_lt.mp h1)
      rw [List.mem_cons, List.mem_cons]
      constructor
      · rintro (rfl | h)
        · exact Or.inl rfl
        · exact Or.inr ⟨Or.inr h, hk ▸ (hhead e h).ne'⟩
      · rintro (rfl | ⟨rfl | h, h'⟩)
        · exact Or.inl rfl
        · exact absurd hk.symm h'
        · exact Or.inr h

theorem option_ext_some {x y : Option α} (h : ∀ v, x = some v ↔ y = some v) : x = y := by
  cases y with
  | some v => exact (h v).mpr rfl
  | none =>
    cases x with
    | none => rfl
    | some v => exact absurd ((h v).mp rfl) (by simp)

@[simp] theorem get?_insert (m : OrdMap κ α) (k k' : κ) (v : α) :
    (m.insert k v).get? k' = if k' = k then some v else m.get? k' := by
  apply option_ext_some
  intro w
  rw [← mem_entries_iff, insert, mem_insertEntry_iff m.sorted, mem_entries_iff]
  split_ifs with h
  · simp [h, eq_comm]
  · simp [h]

@[simp] theorem get?_filter (m : OrdMap κ α) (p : κ → α → Bool) (k : κ) :
    (m.filter p).get? k = (m.get? k).filter (p k) := by
  apply option_ext_some
  intro w
  rw [← mem_entries_iff, filter, List.mem_filter, mem_entries_iff, Option.filter_eq_some_iff]

@[simp] theorem get?_erase (m : OrdMap κ α) (k k' : κ) :
    (m.erase k).get? k' = if k' = k then none else m.get? k' := by
  rw [erase, get?_filter]
  split_ifs with h
  · subst h; cases m.get? k' <;> simp [Option.filter]
  · cases m.get? k' <;> simp [Option.filter, h]

theorem erase_insert (m : OrdMap κ α) (k : κ) (v : α) : (m.insert k v).erase k = m.erase k := by
  refine ext_get? fun k' => ?_
  rw [get?_erase, get?_erase, get?_insert]
  split_ifs
  · rfl
  · rfl

theorem get?_foldl_erase (f : β → κ) (l : List β) (m : OrdMap κ α) (k : κ) :
    (l.foldl (fun m b => m.erase (f b)) m).get? k = if k ∈ l.map f then none else m.get? k := by
  induction l generalizing m with
  | nil => simp
  | cons b l ih =>
    rw [List.foldl_cons, ih, get?_erase, List.map_cons]
    by_cases hl : k ∈ l.map f
    · rw [if_pos hl, if_pos (List.mem_cons_of_mem _ hl)]
    · by_cases hb : k = f b
      · simp [hb]
      · simp [hl, hb]

@[simp] theorem get?_filterMap (m : OrdMap κ α) (f : κ → α → Option β) (k : κ) :
    (m.filterMap f).get? k = (m.get? k).bind (f k) := by
  apply option_ext_some
  intro w
  rw [← mem_entries_iff, filterMap, List.mem_filterMap, Option.bind_eq_some_iff]
  constructor
  · rintro ⟨⟨k', v⟩, hmem, he⟩
    simp only [Option.map_eq_some_iff, Prod.mk.injEq] at he
    obtain ⟨_, hf, rfl, rfl⟩ := he
    exact ⟨v, mem_entries_iff.mp hmem, hf⟩
  · rintro ⟨v, hget, hf⟩
    exact ⟨(k, v), mem_entries_iff.mpr hget, by simp [hf]⟩

theorem contains_iff {m : OrdMap κ α} {k : κ} : m.contains k = true ↔ ∃ v, m.get? k = some v :=
  Option.isSome_iff_exists

theorem contains_eq_false_iff {m : OrdMap κ α} {k : κ} : m.contains k = false ↔ m.get? k = none := by
  simp [contains]

theorem contains_insert {m : OrdMap κ α} {k k' : κ} {v : α} :
    (m.insert k v).contains k' = true ↔ k' = k ∨ m.contains k' = true := by
  unfold contains
  rw [get?_insert]
  split_ifs with h
  · simp [h]
  · simp [h]

theorem contains_erase {m : OrdMap κ α} {k k' : κ} :
    (m.erase k).contains k' = true ↔ k' ≠ k ∧ m.contains k' = true := by
  unfold contains
  rw [get?_erase]
  split_ifs with h
  · simp [h]
  · simp [h]

theorem mem_keys_iff {m : OrdMap κ α} {k : κ} : k ∈ m.keys ↔ m.contains k = true := by
  rw [contains_iff, keys, List.mem_map]
  constructor
  · rintro ⟨⟨k, v⟩, h, rfl⟩
    exact ⟨v, mem_entries_iff.mp h⟩
  · rintro ⟨v, h⟩
    exact ⟨(k, v), mem_entries_iff.mpr h, rfl⟩

theorem mem_values_iff {m : OrdMap κ α} {v : α} : v ∈ m.values ↔ ∃ k, m.get? k = some v := by
  rw [values, List.mem_map]
  constructor
  · rintro ⟨⟨k, v⟩, h, rfl⟩
    exact ⟨k, mem_entries_iff.mp h⟩
  · rintro ⟨k, h⟩
    exact ⟨(k, v), mem_entries_iff.mpr h, rfl⟩

theorem sorted_keys (m : OrdMap κ α) : m.keys.Pairwise (· < ·) :=
  List.pairwise_map.mpr m.sorted

theorem nodup_keys (m : OrdMap κ α) : m.keys.Nodup := m.sorted_keys.imp ne_of_lt

theorem isEmpty_iff {m : OrdMap κ α} : m.isEmpty = true ↔ ∀ k, m.get? k = none := by
  rw [isEmpty, List.isEmpty_iff]
  constructor
  · intro h k
    simp [get?, h]
  · intro h
    have : m = ∅ := ext_get? fun k => by rw [h k, get?_empty]
    rw [this, entries_empty]

theorem isEmpty_eq_false_iff {m : OrdMap κ α} : m.isEmpty = false ↔ 0 < m.size := by
  unfold isEmpty size
  cases m.entries <;> simp

theorem length_keys (m : OrdMap κ α) : m.keys.length = m.size := List.length_map _

section Subset

variable {m : OrdMap κ α} {m' : OrdMap κ β} (h : ∀ k, m.contains k = true → m'.contains k = true)

include h

theorem subperm_keys : m.keys.Subperm m'.keys :=
  List.subperm_of_subset m.nodup_keys fun k hk => mem_keys_iff.mpr (h k (mem_keys_iff.mp hk))

theorem size_le_of_subset : m.size ≤ m'.size := by
  rw [← length_keys, ← length_keys]
  exact (subperm_keys h).length_le

/-- A part of a map is as large as the map only if it has every key of it. -/
theorem size_eq_iff_of_subset : m.size = m'.size ↔ ∀ k, m'.contains k = true → m.contains k = true := by
  refine ⟨fun heq k hk => ?_, fun hcovers => le_antisymm (size_le_of_subset h) (size_le_of_subset hcovers)⟩
  rw [← length_keys, ← length_keys] at heq
  exact mem_keys_iff.mp (((subperm_keys h).perm_of_length_le heq.ge).mem_iff.mpr (mem_keys_iff.mpr hk))

end Subset

/-! ## Entries around one key -/

theorem insert_entries_perm (m : OrdMap κ α) (k : κ) (v : α) :
    (m.insert k v).entries.Perm ((k, v) :: (m.erase k).entries) := by
  refine (List.perm_ext_iff_of_nodup (nodup_entries _)
    (List.nodup_cons.mpr ⟨?_, nodup_entries _⟩)).mpr ?_
  · rw [mem_entries_iff, get?_erase]
    simp
  · rintro ⟨k', w⟩
    rw [List.mem_cons, mem_entries_iff, mem_entries_iff, get?_insert, get?_erase]
    split_ifs with h
    · simp [h, eq_comm]
    · simp [h]

theorem erase_eq_self {m : OrdMap κ α} {k : κ} (h : m.get? k = none) : m.erase k = m :=
  ext_get? fun k' => by
    rw [get?_erase]
    split_ifs with hk
    · rw [hk, h]
    · rfl

theorem flatMap_keys (m : OrdMap κ α) (f : κ → α → List β) :
    (m.keys.flatMap fun k => (m.get? k).elim [] (f k)) = m.entries.flatMap fun e => f e.1 e.2 := by
  rw [keys, List.flatMap_map]
  refine List.flatMap_congr fun e he => ?_
  rw [mem_entries_iff.mp he]
  rfl

/-- Of a list made entry by entry, what belongs to one key comes from that key's entry. -/
theorem flatMap_filter_key (m : OrdMap κ α) (f : κ → α → List β) (k : κ) (p : β → Bool)
    (hp : ∀ k' v, m.get? k' = some v → ∀ x ∈ f k' v, p x = true ↔ k' = k) :
    (m.entries.flatMap fun e => f e.1 e.2).filter p = (m.get? k).elim [] (f k) := by
  have hall : ∀ es : List (κ × α), es.Pairwise (fun a b => a.1 < b.1) →
      (∀ e ∈ es, ∀ x ∈ f e.1 e.2, p x = true ↔ e.1 = k) →
      (es.flatMap fun e => f e.1 e.2).filter p = (es.lookup k).elim [] (f k) := by
    intro es
    induction es with
    | nil => intro _ _; rfl
    | cons e es ih =>
      intro hes he
      obtain ⟨k', v⟩ := e
      obtain ⟨hlt, hes⟩ := List.pairwise_cons.mp hes
      have hrest := ih hes fun e' h' => he e' (List.mem_cons_of_mem _ h')
      have hhead := he (k', v) List.mem_cons_self
      rw [List.flatMap_cons, List.filter_append, hrest]
      by_cases hk : k' = k
      · subst hk
        have hnone : es.lookup k' = none := by
          cases hl : es.lookup k' with
          | none => rfl
          | some w => exact absurd (hlt _ (mem_of_lookup_eq_some hl)) (lt_irrefl _)
        rw [hnone, List.filter_eq_self.mpr fun x hx => (hhead x hx).mpr rfl]
        simp
      · rw [List.filter_eq_nil_iff.mpr fun x hx h => hk ((hhead x hx).mp h), List.lookup_cons,
          beq_false_of_ne (Ne.symm hk)]
        rfl
  exact hall m.entries m.sorted fun e he => hp e.1 e.2 (mem_entries_iff.mp he)

theorem insert_entries_of_lt {m : OrdMap κ α} {k : κ} (v : α) (h : ∀ e ∈ m.entries, e.1 < k) :
    (m.insert k v).entries = m.entries ++ [(k, v)] := by
  have : ∀ es : List (κ × α), (∀ e ∈ es, e.1 < k) → insertEntry k v es = es ++ [(k, v)] := by
    intro es
    induction es with
    | nil => intro _; rfl
    | cons e es ih =>
      intro hes
      have he := hes e List.mem_cons_self
      rw [insertEntry, if_neg he.not_gt, if_pos he, List.cons_append,
        ih fun e' h' => hes e' (List.mem_cons_of_mem _ h')]
  exact this m.entries h

/-- Entries inserted in key order come out as they went in. -/
theorem foldl_insert_entries {m : OrdMap κ α} {es : List (κ × α)}
    (hlt : ∀ e ∈ m.entries, ∀ e' ∈ es, e.1 < e'.1) (hes : es.Pairwise fun a b => a.1 < b.1) :
    (es.foldl (fun m e => m.insert e.1 e.2) m).entries = m.entries ++ es := by
  induction es generalizing m with
  | nil => exact (List.append_nil _).symm
  | cons e es ih =>
    obtain ⟨he, hes⟩ := List.pairwise_cons.mp hes
    have hins : (m.insert e.1 e.2).entries = m.entries ++ [e] :=
      insert_entries_of_lt e.2 fun e' h' => hlt e' h' e List.mem_cons_self
    rw [List.foldl_cons, ih ?_ hes, hins, List.append_assoc, List.singleton_append]
    intro a ha b hb
    rw [hins, List.mem_append, List.mem_singleton] at ha
    rcases ha with ha | rfl
    · exact hlt a ha b (List.mem_cons_of_mem _ hb)
    · exact he b hb

theorem head?_insert_entries (m : OrdMap κ α) (k : κ) (v : α) :
    (m.insert k v).entries.head? =
      match m.entries.head? with
      | none => some (k, v)
      | some e => if e.1 < k then some e else some (k, v) := by
  change (insertEntry k v m.entries).head? = _
  cases m.entries with
  | nil => rfl
  | cons e es =>
    unfold insertEntry
    simp only [List.head?_cons]
    by_cases hlt : k < e.1
    · rw [if_pos hlt, if_neg (not_lt_of_gt hlt)]
      rfl
    · rw [if_neg hlt]
      split_ifs <;> rfl

theorem head?_values (m : OrdMap κ α) : m.values.head? = m.entries.head?.map Prod.snd := by
  unfold values
  exact List.head?_map

theorem insert_new_entries_perm {m : OrdMap κ α} {k : κ} (h : m.get? k = none) (v : α) :
    (m.insert k v).entries.Perm ((k, v) :: m.entries) := by
  have hperm := m.insert_entries_perm k v
  rwa [erase_eq_self h] at hperm

theorem size_insert_new {m : OrdMap κ α} {k : κ} (h : m.get? k = none) (v : α) :
    (m.insert k v).size = m.size + 1 := (insert_new_entries_perm h v).length_eq

/-! ### Weights -/

def weight (m : OrdMap κ α) (w : α → Nat) : Nat := (m.values.map w).sum

/-- The weight as a sum over the keys. -/
theorem weight_eq_sum (m : OrdMap κ α) (w : α → Nat) :
    m.weight w = ∑ k ∈ m.keys.toFinset, (m.get? k).elim 0 w := by
  rw [List.sum_toFinset _ m.nodup_keys]
  unfold weight values keys
  rw [List.map_map, List.map_map]
  congr 1
  refine List.map_congr_left fun e hmem => ?_
  have hget : m.get? e.1 = some e.2 := mem_entries_iff.mp hmem
  simp [hget]

/-- A value that weighs something is outweighed, so the optional value is. -/
theorem elim_le_of {o o' : Option α} {w : α → Nat}
    (h : ∀ v', o' = some v' → w v' ≠ 0 → ∃ v, o = some v ∧ w v' ≤ w v) : o'.elim 0 w ≤ o.elim 0 w := by
  cases ho : o' with
  | none => exact Nat.zero_le _
  | some v' =>
    by_cases hzero : w v' = 0
    · exact hzero.le.trans (Nat.zero_le _)
    · obtain ⟨v, rfl, hle⟩ := h v' ho hzero
      exact hle

/-- Where a map may have more under a key, it weighs more by at most that much. -/
theorem weight_le_sum {m m' : OrdMap κ α} {w : α → Nat} (extra : κ → Nat)
    (h : ∀ k, (m'.get? k).elim 0 w ≤ (m.get? k).elim 0 w + extra k) :
    m'.weight w ≤ m.weight w + ∑ k ∈ m'.keys.toFinset, extra k := by
  have hkeys : ∀ k ∈ m'.keys.toFinset, (m.get? k).elim 0 w ≠ 0 → k ∈ m.keys.toFinset := by
    intro k _ hne
    rw [List.mem_toFinset, mem_keys_iff, contains_iff]
    cases hget : m.get? k with
    | none => exact absurd (by rw [hget]; rfl) hne
    | some v => exact ⟨v, rfl⟩
  calc m'.weight w = ∑ k ∈ m'.keys.toFinset, (m'.get? k).elim 0 w := weight_eq_sum m' w
    _ ≤ ∑ k ∈ m'.keys.toFinset, ((m.get? k).elim 0 w + extra k) := Finset.sum_le_sum fun k _ => h k
    _ = ∑ k ∈ m'.keys.toFinset, (m.get? k).elim 0 w + ∑ k ∈ m'.keys.toFinset, extra k := Finset.sum_add_distrib
    _ ≤ ∑ k ∈ m.keys.toFinset, (m.get? k).elim 0 w + ∑ k ∈ m'.keys.toFinset, extra k :=
      Nat.add_le_add_right (Finset.sum_le_sum_of_ne_zero hkeys) _
    _ = m.weight w + ∑ k ∈ m'.keys.toFinset, extra k := by rw [← weight_eq_sum]

/-- A map that has no more under any key weighs no more. -/
theorem weight_le {m m' : OrdMap κ α} {w : α → Nat}
    (h : ∀ k v', m'.get? k = some v' → w v' ≠ 0 → ∃ v, m.get? k = some v ∧ w v' ≤ w v) :
    m'.weight w ≤ m.weight w := by
  have hsum := weight_le_sum (fun _ => 0) (fun k => elim_le_of (h k))
  rwa [Finset.sum_const_zero, Nat.add_zero] at hsum

/-- A map that has no more under all keys but one weighs more by at most what it has under that one. -/
theorem weight_le_add {m m' : OrdMap κ α} {w : α → Nat} {k₀ : κ} {c : Nat}
    (hnew : ∀ v', m'.get? k₀ = some v' → w v' ≤ c)
    (h : ∀ k v', k ≠ k₀ → m'.get? k = some v' → w v' ≠ 0 → ∃ v, m.get? k = some v ∧ w v' ≤ w v) :
    m'.weight w ≤ m.weight w + c := by
  have hextra : ∀ k, (m'.get? k).elim 0 w ≤ (m.get? k).elim 0 w + if k = k₀ then c else 0 := by
    intro k
    split_ifs with hk
    · subst hk
      cases hget : m'.get? k with
      | none => exact Nat.zero_le _
      | some v' => exact (hnew v' hget).trans (Nat.le_add_left _ _)
    · exact elim_le_of (fun v' => h k v' hk)
  refine (weight_le_sum _ hextra).trans (Nat.add_le_add_left ?_ _)
  rw [Finset.sum_ite_eq']
  split_ifs
  · exact le_refl c
  · exact Nat.zero_le c

theorem weight_insert (m : OrdMap κ α) (w : α → Nat) (k : κ) (v : α) :
    (m.insert k v).weight w + (m.get? k).elim 0 w = m.weight w + w v := by
  have hnew : (m.insert k v).weight w = w v + (m.erase k).weight w :=
    ((insert_entries_perm m k v).map Prod.snd |>.map w).sum_eq
  cases hget : m.get? k with
  | none =>
    rw [hnew, erase_eq_self hget]
    show w v + m.weight w + 0 = m.weight w + w v
    omega
  | some v₀ =>
    -- the map itself is the erased one with the old value put back
    have hself : m.insert k v₀ = m := by
      refine ext_get? fun k' => ?_
      rw [get?_insert]
      split_ifs with hk
      · rw [hk, hget]
      · rfl
    have hold : m.weight w = w v₀ + (m.erase k).weight w := by
      have hperm := ((insert_entries_perm m k v₀).map Prod.snd |>.map w).sum_eq
      rwa [hself] at hperm
    rw [hnew, hold]
    show w v + (m.erase k).weight w + w v₀ = w v₀ + (m.erase k).weight w + w v
    omega

/-- Counting some values, and summing over them, are weights. -/
theorem sum_filter_values (m : OrdMap κ α) (p : α → Bool) (f : α → Nat) :
    ((m.values.filter p).map f).sum = m.weight fun v => if p v then f v else 0 := by
  unfold weight
  induction m.values with
  | nil => rfl
  | cons v l ih =>
    cases hp : p v with
    | true => simp [hp, ih]
    | false => simp [hp, ih]

theorem length_filter_values (m : OrdMap κ α) (p : α → Bool) :
    (m.values.filter p).length = m.weight fun v => if p v then 1 else 0 := by
  rw [← sum_filter_values]
  simp

/-- Counting some values is counting the keys that have them. -/
theorem length_filter_values_eq_card {m : OrdMap κ α} {p : α → Bool} {s : Finset κ}
    (h : ∀ k, k ∈ s ↔ ∃ v, m.get? k = some v ∧ p v = true) : (m.values.filter p).length = s.card := by
  have hnodup : ((m.entries.filter fun e => p e.2).map Prod.fst).Nodup :=
    m.nodup_keys.sublist (List.filter_sublist.map _)
  have hs : s = ((m.entries.filter fun e => p e.2).map Prod.fst).toFinset := by
    ext k
    simp [h, mem_entries_iff]
  rw [hs, List.toFinset_card_of_nodup hnodup, List.length_map, values, List.filter_map, List.length_map]
  rfl

end OrdMap

/-! ## Ordered sets -/

/-- An ordered set, as the map to `Unit`. -/
abbrev OrdSet (κ : Type u) [LinearOrder κ] := OrdMap κ Unit

namespace OrdSet

variable {κ : Type u} [LinearOrder κ]

def add (s : OrdSet κ) (k : κ) : OrdSet κ := s.insert k ()

def ofList (l : List κ) : OrdSet κ := l.foldl add ∅

def difference (s t : OrdSet κ) : OrdSet κ := s.filter fun k _ => !t.contains k

def intersection (s t : OrdSet κ) : OrdSet κ := s.filter fun k _ => t.contains k

theorem contains_add {s : OrdSet κ} {k k' : κ} :
    OrdMap.contains (add s k) k' = true ↔ k' = k ∨ OrdMap.contains s k' = true := OrdMap.contains_insert

theorem add_right_comm (s : OrdSet κ) (k k' : κ) :
    add (add s k) k' = add (add s k') k := by
  refine OrdMap.ext_get? fun x => ?_
  simp only [add, OrdMap.get?_insert]
  split_ifs <;> rfl

theorem contains_ofList {l : List κ} {k : κ} : OrdMap.contains (ofList l) k = true ↔ k ∈ l := by
  have hfold : ∀ (l : List κ) (s : OrdSet κ),
      OrdMap.contains (l.foldl add s) k = true ↔ OrdMap.contains s k = true ∨ k ∈ l := by
    intro l
    induction l with
    | nil => intro s; simp
    | cons a l ih =>
      intro s
      rw [List.foldl_cons, ih, contains_add, List.mem_cons]
      tauto
  rw [ofList, hfold]
  simp [OrdMap.contains]

theorem contains_difference {s t : OrdSet κ} {k : κ} :
    OrdMap.contains (difference s t) k = true ↔ OrdMap.contains s k = true ∧ OrdMap.contains t k = false := by
  unfold difference
  rw [OrdMap.contains_iff, OrdMap.contains_iff]
  simp [OrdMap.get?_filter, Option.filter_eq_some_iff]

def toFinset (s : OrdSet κ) : Finset κ := s.keys.toFinset

@[simp] theorem mem_toFinset {s : OrdSet κ} {k : κ} : k ∈ toFinset s ↔ OrdMap.contains s k = true := by
  rw [toFinset, List.mem_toFinset, OrdMap.mem_keys_iff]

theorem card_toFinset (s : OrdSet κ) : (toFinset s).card = s.size := by
  rw [toFinset, List.toFinset_card_of_nodup s.nodup_keys, OrdMap.length_keys]

end OrdSet

/-! ### Entries in another order -/

namespace List

variable {α : Type u} {le before : α → α → Prop} [DecidableRel le] [Std.Total le] [IsTrans α le]

theorem pairwise_orderedInsert_stable {a : α} {l : List α} (ha : ∀ b ∈ l, before a b)
    (h : l.Pairwise fun b c => le b c ∧ (le c b → before b c)) :
    (l.orderedInsert le a).Pairwise fun b c => le b c ∧ (le c b → before b c) := by
  induction l with
  | nil => exact List.pairwise_singleton _ a
  | cons b l ih =>
    obtain ⟨hb, hl⟩ := List.pairwise_cons.mp h
    rw [List.orderedInsert_cons]
    split_ifs with hle
    · refine List.pairwise_cons.mpr ⟨fun c hc => ⟨?_, fun _ => ha c hc⟩, h⟩
      rcases List.mem_cons.mp hc with rfl | hc
      · exact hle
      · exact IsTrans.trans _ _ _ hle (hb c hc).1
    · refine List.pairwise_cons.mpr ⟨fun c hc => ?_, ih (fun c hc => ha c (List.mem_cons_of_mem _ hc)) hl⟩
      rcases (List.mem_orderedInsert le).mp hc with rfl | hc
      · exact ⟨(Std.Total.total c b).resolve_left hle, fun hcb => absurd hcb hle⟩
      · exact hb c hc

/-- Insertion sort is stable: equals stay in the order in which they were. -/
theorem pairwise_insertionSort_stable {l : List α} (h : l.Pairwise before) :
    (l.insertionSort le).Pairwise fun a b => le a b ∧ (le b a → before a b) := by
  induction l with
  | nil => exact List.Pairwise.nil
  | cons a l ih =>
    obtain ⟨ha, hl⟩ := List.pairwise_cons.mp h
    exact pairwise_orderedInsert_stable (fun b hb => ha b ((List.mem_insertionSort le).mp hb)) (ih hl)

/-- Distinct elements with distinct keys have exactly one order in which the keys increase. -/
theorem existsUnique_perm_increasing {κ : Type v} [LinearOrder κ] {key : α → κ} {l : List α} (hnodup : l.Nodup)
    (hkey : ∀ a ∈ l, ∀ b ∈ l, key a = key b → a = b) :
    ∃! l' : List α, l'.Perm l ∧ l'.Pairwise fun a b => key a < key b := by
  have hperm := List.perm_insertionSort (fun a b => key a ≤ key b) l
  refine ⟨l.insertionSort fun a b => key a ≤ key b, ⟨hperm, ?_⟩, fun l' hl' => ?_⟩
  · have hle := List.pairwise_insertionSort (fun a b => key a ≤ key b) l
    refine (hle.and (hperm.nodup_iff.mpr hnodup)).imp_of_mem fun {a b} ha hb hab => ?_
    refine hab.1.lt_of_ne fun heq => hab.2 ?_
    exact hkey a (hperm.mem_iff.mp ha) b (hperm.mem_iff.mp hb) heq
  · obtain ⟨hperm', hlt⟩ := hl'
    refine List.Perm.eq_of_pairwise (fun a b ha hb hab hba => ?_) (hlt.imp le_of_lt)
      (List.pairwise_insertionSort (fun a b => key a ≤ key b) l) (hperm'.trans hperm.symm)
    exact hkey a (hperm'.mem_iff.mp ha) b (hperm.mem_iff.mp hb) (le_antisymm hab hba)

/-- Of the elements that `p` holds of, `f` gives one each, and of the others none. -/
theorem flatMap_eq_map_filter {β : Type v} {f : α → List β} {p : α → Bool} {g : α → β}
    (hpos : ∀ a, p a = true → f a = [g a]) (hneg : ∀ a, p a = false → f a = []) (l : List α) :
    l.flatMap f = (l.filter p).map g := by
  induction l with
  | nil => rfl
  | cons a l ih =>
    cases hp : p a with
    | true => rw [List.filter_cons_of_pos hp, List.flatMap_cons, List.map_cons, hpos a hp, ih, List.singleton_append]
    | false => rw [List.filter_cons_of_neg (by simp [hp]), List.flatMap_cons, hneg a hp, ih, List.nil_append]

/-- The first element of an increasing list is its least one. -/
theorem mem_take_one_iff {κ : Type v} [LinearOrder κ] {l : List κ} (h : l.Pairwise (· < ·)) {a : κ} :
    a ∈ l.take 1 ↔ IsLeast {b | b ∈ l} a := by
  cases l with
  | nil => simp [IsLeast]
  | cons b l =>
    obtain ⟨hb, -⟩ := List.pairwise_cons.mp h
    have hleast : IsLeast {c | c ∈ b :: l} b := by
      refine ⟨List.mem_cons_self, fun c hc => ?_⟩
      rcases List.mem_cons.mp hc with rfl | hc
      · exact le_refl _
      · exact (hb c hc).le
    rw [List.take_succ_cons, List.take_zero, List.mem_singleton]
    exact ⟨fun h => h ▸ hleast, fun h => h.unique hleast⟩

theorem length_rtake (l : List α) (n : Nat) : (l.rtake n).length = min n l.length := by
  rw [List.rtake, List.length_drop]
  omega

theorem rtake_min_length (l : List α) (n : Nat) : l.rtake (min l.length n) = l.rtake n := by
  rw [List.rtake, List.rtake]
  congr 1
  omega

theorem map_rtake {β : Type*} (f : α → β) (l : List α) (n : Nat) : (l.rtake n).map f = (l.map f).rtake n := by
  rw [List.rtake, List.rtake, List.map_drop, List.length_map]

theorem rtake_range' (start k n : Nat) :
    (List.range' start k).rtake n = List.range' (start + k - min k n) (min k n) := by
  rw [List.rtake, List.length_range', List.drop_range']
  congr 1
  · omega
  · omega

/-- A queue of `n` places that drops its oldest element when it is full holds the last `n` elements. -/
theorem rtake_concat {n : Nat} (hn : n ≠ 0) (l : List α) (x : α) :
    (l ++ [x]).rtake n = (if (l.rtake n).length = n then (l.rtake n).tail else l.rtake n) ++ [x] := by
  obtain ⟨k, rfl⟩ := Nat.exists_eq_succ_of_ne_zero hn
  rw [List.rtake_concat_succ, length_rtake]
  congr 1
  split_ifs with hfull
  · rw [List.rtake, List.rtake, List.tail_drop]
    congr 1
    omega
  · rw [List.rtake, List.rtake]
    congr 1
    omega

end List
