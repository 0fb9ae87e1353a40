import Busd.Lib.Run
import Mathlib.Order.Filter.AtTopBot.Basic

/-!
# Endless runs

A machine that is fed with inputs for ever. That something happens infinitely often is `∃ᶠ n in atTop`, that it
holds from some time on is `∀ᶠ n in atTop`.

* `stateAt step s inputs n` : the state after `n` inputs, `historyFrom` the calls from one time on;
* `forall_ge_of_kept` : what is kept from one time to the next;
* `exists_and_of_frequently` : what holds until the next occurrence of something that occurs again and again;
* `exists_of_rank` : a rank that never grows and shrinks again and again leads to the goal.
-/

namespace Machine

open Filter

universe u v w

variable {σ : Type u} {ι : Type v} {ω : Type w} {step : σ → ι → σ × ω} {s : σ} {inputs : ℕ → ι}

/-! ## States and histories -/

/-- The state after the first `n` inputs. -/
def stateAt (step : σ → ι → σ × ω) (s : σ) (inputs : ℕ → ι) : ℕ → σ
  | 0 => s
  | n + 1 => (step (stateAt step s inputs n) (inputs n)).1

/-- The `k` calls that follow the first `n`. -/
def historyFrom (step : σ → ι → σ × ω) (s : σ) (inputs : ℕ → ι) (n : ℕ) : ℕ → List (ι × ω)
  | 0 => []
  | k + 1 =>
    historyFrom step s inputs n k ++
      [(inputs (n + k), (step (stateAt step s inputs (n + k)) (inputs (n + k))).2)]

theorem run_historyFrom (n k : ℕ) :
    Run step (stateAt step s inputs n) (historyFrom step s inputs n k) (stateAt step s inputs (n + k)) := by
  induction k with
  | zero => exact .nil _
  | succ k ih => exact ih.snoc rfl

theorem run_stateAt (n : ℕ) : Run step s (historyFrom step s inputs 0 n) (stateAt step s inputs n) := by
  have h : Run step s (historyFrom step s inputs 0 n) (stateAt step s inputs (0 + n)) := run_historyFrom 0 n
  rwa [Nat.zero_add] at h

/-- What every step preserves holds for ever. -/
theorem stateAt_invariant {I : σ → Prop} (hs : I s) (hstep : ∀ n, I (stateAt step s inputs n) →
    I (stateAt step s inputs (n + 1))) (n : ℕ) : I (stateAt step s inputs n) := by
  induction n with
  | zero => exact hs
  | succ n ih => exact hstep n ih

/-! ## Progress -/

variable {p q goal helpful : ℕ → Prop} {n : ℕ}

/-- What is kept from one time to the next holds from then on. -/
theorem forall_ge_of_kept (hkeep : ∀ m ≥ n, p m → p (m + 1)) (hp : p n) : ∀ m ≥ n, p m := by
  intro m hm
  induction m, hm using Nat.le_induction with
  | base => exact hp
  | succ m hm ih => exact hkeep m hm ih

/-- What is kept until something occurs that occurs again and again, holds when it occurs next. -/
theorem exists_and_of_frequently (hkeep : ∀ m ≥ n, p m → ¬ q m → p (m + 1)) (hp : p n)
    (hq : ∃ᶠ m in atTop, q m) : ∃ m ≥ n, p m ∧ q m := by
  by_contra hnever
  push Not at hnever
  have hall := forall_ge_of_kept (fun m hm hpm => hkeep m hm hpm (hnever m hm hpm)) hp
  obtain ⟨m, hm, hqm⟩ := frequently_atTop.mp hq n
  exact hnever m hm (hall m hm) hqm

variable {α : Type*} [Preorder α] [WellFoundedLT α] (rank : ℕ → α)

/-- As long as the goal is not reached the rank does not grow, and a helpful step makes it smaller. -/
theorem exists_of_rank (hkeep : ∀ m ≥ n, ¬ goal m → goal (m + 1) ∨ rank (m + 1) ≤ rank m)
    (hless : ∀ m ≥ n, ¬ goal m → helpful m → goal (m + 1) ∨ rank (m + 1) < rank m)
    (hfair : ∃ᶠ m in atTop, helpful m) : ∃ m ≥ n, goal m := by
  -- by induction on the rank at the time from which we look
  induction hrank : rank n using WellFoundedLT.induction generalizing n with
  | ind r ih =>
    by_contra hnever
    push Not at hnever
    have hbelow : ∀ m ≥ n, rank m ≤ rank n :=
      forall_ge_of_kept
        (fun m hm hle => ((hkeep m hm (hnever m hm)).resolve_left (hnever _ (Nat.le_succ_of_le hm))).trans hle) le_rfl
    obtain ⟨m, hm, hhelps⟩ := frequently_atTop.mp hfair n
    have hlater : ∀ k ≥ m + 1, k ≥ n := fun k hk => hm.trans ((Nat.le_succ m).trans hk)
    have hsmaller := (hless m hm (hnever m hm) hhelps).resolve_left (hnever _ (hlater _ le_rfl))
    obtain ⟨k, hk, hgoal⟩ := ih (rank (m + 1)) (hrank ▸ hsmaller.trans_le (hbelow m hm))
      (fun k hk => hkeep k (hlater k hk)) (fun k hk => hless k (hlater k hk)) rfl
    exact hnever k (hlater k hk) hgoal

end Machine
