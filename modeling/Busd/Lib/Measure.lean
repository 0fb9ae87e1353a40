import Busd.Lib.Codec
import Mathlib.Algebra.GroupWithZero.Nat

/-!
# When a writer succeeds, how much it writes, and with which errors a reader fails

`Measures w p n` says of a writer that it succeeds exactly if `p` holds, and then emits `n` bytes; `Raises d p` says of
a reader that all its errors satisfy `p`. The rules follow the way a writer or a reader is put together, so that the
facts about a whole format are read off its fields.

* `Measures.bind`, `Measures.check`, `Measures.lift`, `Measures.forM` : the steps of a writer;
* `Measures.congr` : the condition and the size in other words;
* `Raises.bind`, `raises_lift`, `raises_ensure`, `raises_throw`, `raises_loop` : the steps of a reader.
-/

namespace Codec

variable {ε α τ : Type} {w : Encode ε Unit} {p q : Prop} {n k : Nat}

/-- The writer succeeds exactly if `p` holds, and then emits `n` bytes. -/
structure Measures (w : Encode ε Unit) (p : Prop) (n : Nat) : Prop where
  succeeds : (∃ c, Emits w c) ↔ p
  length : ∀ c, Emits w c → c.length = n

theorem measures_tell (c : List UInt8) : Measures (tell c : Encode ε Unit) True c.length where
  succeeds := iff_of_true ⟨c, emits_tell.mpr rfl⟩ trivial
  length d h := by rw [emits_tell.mp h]

theorem measures_pure : Measures (pure () : Encode ε Unit) True 0 where
  succeeds := iff_of_true ⟨[], emits_pure.mpr rfl⟩ trivial
  length c h := by rw [emits_pure.mp h, List.length_nil]

theorem Measures.congr (h : Measures w p n) (hp : p ↔ q) (hn : n = k) : Measures w q k := by
  subst hn
  exact ⟨h.succeeds.trans hp, h.length⟩

theorem Measures.of_emits {w' : Encode ε Unit} (h : Measures w p n) (heq : ∀ c, Emits w' c ↔ Emits w c) :
    Measures w' p n :=
  ⟨(exists_congr heq).trans h.succeeds, fun c hc => h.length c ((heq c).mp hc)⟩

theorem Measures.bind {w' : Encode ε Unit} (h : Measures w p n) (h' : Measures w' q k) :
    Measures (w >>= fun _ => w') (p ∧ q) (n + k) where
  succeeds := by
    rw [← h.succeeds, ← h'.succeeds]
    constructor
    · rintro ⟨c, hc⟩
      obtain ⟨c₁, c₂, h₁, h₂, -⟩ := emits_bind.mp hc
      exact ⟨⟨c₁, h₁⟩, ⟨c₂, h₂⟩⟩
    · rintro ⟨⟨c₁, h₁⟩, ⟨c₂, h₂⟩⟩
      exact ⟨c₁ ++ c₂, emits_bind.mpr ⟨c₁, c₂, h₁, h₂, rfl⟩⟩
  length c hc := by
    obtain ⟨c₁, c₂, h₁, h₂, rfl⟩ := emits_bind.mp hc
    rw [List.length_append, h.length c₁ h₁, h'.length c₂ h₂]

/-- A value that is computed first, where the rest does not depend on it. -/
theorem Measures.lift {e : Except ε τ} {v : τ → Encode ε Unit} (h : ∀ t, e = .ok t → Measures (v t) p n) :
    Measures (liftM e >>= v) ((∃ t, e = .ok t) ∧ p) n where
  succeeds := by
    constructor
    · rintro ⟨c, hc⟩
      obtain ⟨t, ht, hv⟩ := emits_lift_bind.mp hc
      exact ⟨⟨t, ht⟩, (h t ht).succeeds.mp ⟨c, hv⟩⟩
    · rintro ⟨⟨t, ht⟩, hp⟩
      obtain ⟨c, hc⟩ := (h t ht).succeeds.mpr hp
      exact ⟨c, emits_lift_bind.mpr ⟨t, ht, hc⟩⟩
  length c hc := by
    obtain ⟨t, ht, hv⟩ := emits_lift_bind.mp hc
    exact (h t ht).length c hv

theorem Measures.check {e : Except ε Unit} (h : Measures w p n) :
    Measures (liftM e >>= fun _ => w) (e = .ok () ∧ p) n := by
  refine Measures.congr (Measures.lift fun _ _ => h) (and_congr_left fun _ => ?_) rfl
  exact ⟨fun ⟨_, ht⟩ => ht, fun he => ⟨(), he⟩⟩

theorem Measures.ensure {r : Prop} [Decidable r] {e : ε} (h : Measures w p n) :
    Measures (liftM (Codec.ensure r e) >>= fun _ => w) (r ∧ p) n :=
  h.check.congr (and_congr_left fun _ => ensure_eq_ok) rfl

theorem Measures.forM {push : α → Encode ε Unit} {P : α → Prop} {size : α → Nat} (l : List α)
    (h : ∀ a ∈ l, Measures (push a) (P a) (size a)) :
    Measures (l.forM push) (∀ a ∈ l, P a) (l.map size).sum := by
  induction l with
  | nil => exact measures_pure.congr (iff_of_true trivial fun a ha => by cases ha) rfl
  | cons a l ih =>
    have hrest := ih fun b hb => h b (List.mem_cons_of_mem _ hb)
    exact ((h a List.mem_cons_self).bind hrest).congr List.forall_mem_cons.symm rfl

/-! ## Readers -/

section Raises

variable {σ β : Type} {P : ε → Prop}

/-- Every error of the reader satisfies `P`. -/
def Raises (d : Decode ε α) (P : ε → Prop) : Prop := ∀ r e, d.run r = .error e → P e

theorem error_of_bind {x : Except ε α} {f : α → Except ε β} {e : ε} (h : x >>= f = .error e) :
    x = .error e ∨ ∃ a, x = .ok a ∧ f a = .error e := by
  cases x with
  | error e' =>
    cases h
    exact .inl rfl
  | ok a => exact .inr ⟨a, rfl, h⟩

theorem error_of_ensure_bind {q : Prop} [Decidable q] {e e' : ε} {x : Except ε β}
    (h : (Codec.ensure q e >>= fun _ => x) = .error e') : e' = e ∨ x = .error e' := by
  unfold Codec.ensure at h
  split_ifs at h with hq
  · exact .inr h
  · cases h
    exact .inl rfl

theorem raises_pure (a : α) : Raises (pure a : Decode ε α) P := fun _ _ h => by cases h

theorem raises_get : Raises (get : Decode ε Reader) P := fun _ _ h => by cases h

theorem raises_throw {e : ε} (h : P e) : Raises (throw e : Decode ε α) P := fun _ _ he => by
  cases he
  exact h

theorem raises_lift {x : Except ε α} (h : ∀ e, x = .error e → P e) : Raises (liftM x : Decode ε α) P := by
  intro r e he
  cases x with
  | ok a => cases he
  | error e' =>
    cases he
    exact h e rfl

theorem raises_ensure {q : Prop} [Decidable q] {e : ε} (h : P e) :
    Raises (liftM (Codec.ensure q e) : Decode ε Unit) P := by
  refine raises_lift fun e' he => ?_
  unfold Codec.ensure at he
  split_ifs at he with hq
  cases he
  exact h

theorem Raises.bind {d : Decode ε α} {f : α → Decode ε β} (h : Raises d P) (h' : ∀ a, Raises (f a) P) :
    Raises (d >>= f) P := by
  intro r e he
  rw [StateT.run_bind] at he
  cases hd : d.run r with
  | error e' =>
    rw [hd] at he
    cases he
    exact h r e hd
  | ok result =>
    rw [hd] at he
    exact h' result.1 result.2 e he

theorem raises_loop {step : σ → Decode ε σ} (h : ∀ s, Raises (step s) P) (count : Nat) (s : σ) :
    Raises (loop step count s) P := by
  induction count generalizing s with
  | zero => exact raises_pure s
  | succ count ih => exact (h s).bind ih

end Raises

end Codec
