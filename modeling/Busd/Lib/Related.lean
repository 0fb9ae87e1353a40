import Busd.Lib.OrdMap
import Busd.Lib.Run
import Mathlib.Data.List.Forall2
import Mathlib.Data.List.Sort

/-!
# Two computations side by side

A relation between values, carried to the containers of the values and to whole runs: what is related before
an operation that looks at nothing but related data is related after it.

* `OrdMap.Related r` : two maps with the same keys and related values, under every operation of `OrdMap`;
* `List.forall₂_insertionSort` : sorting by something on which related values agree;
* `Machine.run_related` : two machines fed with related inputs;
* `Machine.Run.simulates` : a machine that does what another one does, some of whose steps it can do without.
-/

universe u v w

namespace OrdMap

variable {κ : Type u} {α : Type v} {β : Type w} [LinearOrder κ] {r : α → β → Prop} {m : OrdMap κ α} {m' : OrdMap κ β}

/-- The same keys, with related values. -/
def Related (r : α → β → Prop) (m : OrdMap κ α) (m' : OrdMap κ β) : Prop :=
  List.Forall₂ (fun e e' => e.1 = e'.1 ∧ r e.2 e'.2) m.entries m'.entries

theorem related_empty : Related r (∅ : OrdMap κ α) (∅ : OrdMap κ β) := List.Forall₂.nil

theorem related_self {r : α → α → Prop} {m : OrdMap κ α} (h : ∀ k v, m.get? k = some v → r v v) : Related r m m :=
  List.forall₂_same.mpr fun e hmem => ⟨rfl, h e.1 e.2 (mem_entries_iff.mp hmem)⟩

theorem Related.get? (h : Related r m m') (k : κ) : Option.Rel r (m.get? k) (m'.get? k) := by
  unfold OrdMap.get?
  unfold Related at h
  generalize m.entries = l, m'.entries = l' at h
  induction h with
  | nil => exact .none
  | @cons e e' l l' hhead _ ih =>
    rw [List.lookup_cons, List.lookup_cons, ← hhead.1]
    cases k == e.1 with
    | true => exact .some hhead.2
    | false => exact ih

theorem Related.contains (h : Related r m m') (k : κ) : m'.contains k = m.contains k := by
  unfold OrdMap.contains
  generalize hget : m.get? k = o, hget' : m'.get? k = o'
  have hrel := h.get? k
  rw [hget, hget'] at hrel
  cases hrel with
  | none => rfl
  | some _ => rfl

theorem Related.keys (h : Related r m m') : m'.keys = m.keys := by
  unfold OrdMap.keys
  unfold Related at h
  generalize m.entries = l, m'.entries = l' at h
  induction h with
  | nil => rfl
  | cons hhead _ ih => rw [List.map_cons, List.map_cons, ih, hhead.1]

theorem Related.values (h : Related r m m') : List.Forall₂ r m.values m'.values := by
  unfold OrdMap.values
  exact List.rel_map (fun _ _ he => he.2) h

theorem Related.size (h : Related r m m') : m'.size = m.size := (List.Forall₂.length_eq h).symm

theorem Related.insert (h : Related r m m') (k : κ) {v : α} {v' : β} (hv : r v v') :
    Related r (m.insert k v) (m'.insert k v') := by
  unfold Related at h
  change List.Forall₂ _ (insertEntry k v m.entries) (insertEntry k v' m'.entries)
  generalize m.entries = l, m'.entries = l' at h
  induction h with
  | nil => exact .cons ⟨rfl, hv⟩ .nil
  | @cons e e' l l' hhead htail ih =>
    unfold insertEntry
    rw [← hhead.1]
    split_ifs
    · exact .cons ⟨rfl, hv⟩ (.cons hhead htail)
    · exact .cons hhead ih
    · exact .cons ⟨rfl, hv⟩ htail

theorem Related.filter (h : Related r m m') {p : κ → α → Bool} {p' : κ → β → Bool}
    (hp : ∀ k v v', r v v' → p k v = p' k v') : Related r (m.filter p) (m'.filter p') := by
  refine List.rel_filter (fun e e' he => ?_) h
  show p e.1 e.2 = true ↔ p' e'.1 e'.2 = true
  rw [hp e.1 e.2 e'.2 he.2, he.1]

theorem Related.erase (h : Related r m m') (k : κ) : Related r (m.erase k) (m'.erase k) :=
  h.filter fun _ _ _ _ => rfl

end OrdMap

/-! ## Sorted lists -/

namespace List

variable {α : Type u} {β : Type v} {r : α → β → Prop} {le : α → α → Prop} {le' : β → β → Prop} [DecidableRel le]
  [DecidableRel le']

theorem forall₂_orderedInsert (hle : ∀ a b a' b', r a a' → r b b' → (le a b ↔ le' a' b')) {a : α} {a' : β}
    (ha : r a a') {l : List α} {l' : List β} (h : List.Forall₂ r l l') :
    List.Forall₂ r (l.orderedInsert le a) (l'.orderedInsert le' a') := by
  induction h with
  | nil => exact .cons ha .nil
  | @cons b b' l l' hb htail ih =>
    rw [List.orderedInsert_cons, List.orderedInsert_cons]
    by_cases hfirst : le a b
    · rw [if_pos hfirst, if_pos ((hle a b a' b' ha hb).mp hfirst)]
      exact .cons ha (.cons hb htail)
    · rw [if_neg hfirst, if_neg (mt (hle a b a' b' ha hb).mpr hfirst)]
      exact .cons hb ih

theorem forall₂_insertionSort (hle : ∀ a b a' b', r a a' → r b b' → (le a b ↔ le' a' b')) {l : List α} {l' : List β}
    (h : List.Forall₂ r l l') : List.Forall₂ r (l.insertionSort le) (l'.insertionSort le') := by
  induction h with
  | nil => exact .nil
  | cons ha _ ih => exact forall₂_orderedInsert hle ha ih

end List

/-! ## Runs -/

namespace Machine

variable {σ σ' ι ι' ω ω' : Type} {step : σ → ι → σ × ω} {step' : σ' → ι' → σ' × ω'} {S : σ → σ' → Prop}
  {I : ι → ι' → Prop} {O : ω → ω' → Prop}

/-- Machines whose steps keep a relation answer related inputs with related outputs, all along. -/
theorem run_related
    (hstep : ∀ s s' i i', S s s' → I i i' → S (step s i).1 (step' s' i').1 ∧ O (step s i).2 (step' s' i').2)
    {s : σ} {s' : σ'} (hs : S s s') {is : List ι} {is' : List ι'} (h : List.Forall₂ I is is') :
    S (run step s is).2 (run step' s' is').2 ∧
      List.Forall₂ (fun e e' => I e.1 e'.1 ∧ O e.2 e'.2) (run step s is).1 (run step' s' is').1 := by
  induction h generalizing s s' with
  | nil => exact ⟨hs, .nil⟩
  | @cons i i' is is' hi _ ih =>
    obtain ⟨hnext, hout⟩ := hstep s s' i i' hs hi
    obtain ⟨hlast, hrest⟩ := ih hnext
    exact ⟨hlast, .cons ⟨hi, hout⟩ hrest⟩

/-- The second machine takes the steps to keep with the same output, and none where the first one takes another: it has
the history without these. -/
theorem Run.simulates {step : σ → ι → σ × ω} {step' : σ' → ι → σ' × ω} {keep : ι × ω → Bool}
    (hstep : ∀ s s' i, S s s' →
      (keep (i, (step s i).2) = true → S (step s i).1 (step' s' i).1 ∧ (step' s' i).2 = (step s i).2) ∧
        (keep (i, (step s i).2) = false → S (step s i).1 s'))
    {s t : σ} {s' : σ'} {h : List (ι × ω)} (hrun : Run step s h t) (hs : S s s') :
    ∃ t', Run step' s' (h.filter keep) t' ∧ S t t' := by
  induction hrun with
  | nil => exact ⟨s', .nil s', hs⟩
  | @snoc t t₁ h i o hrun heq ih =>
    obtain ⟨t', hrun', ht⟩ := ih
    have hnext := hstep t t' i ht
    rw [heq] at hnext
    rw [List.filter_append]
    cases hkeep : keep (i, o) with
    | true =>
      obtain ⟨hstate, hout⟩ := hnext.1 hkeep
      rw [List.filter_cons_of_pos hkeep]
      exact ⟨_, hrun'.snoc (Prod.ext rfl hout), hstate⟩
    | false =>
      rw [List.filter_cons_of_neg (by rw [hkeep]; exact Bool.false_ne_true), List.filter_nil, List.append_nil]
      exact ⟨t', hrun', hnext.2 hkeep⟩

end Machine
