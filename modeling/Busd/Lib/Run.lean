import Mathlib.Data.List.Induction

/-!
# Runs of a deterministic machine

A machine takes one input at a time, answers it and moves on. A run is recorded with every input and
answer, so that a property may speak about the whole history.

* `Run step s h s'` : the inputs and answers `h` lead from `s` to `s'`;
* `Run.invariant`, `Run.invariant_on` : what one step preserves, a whole run preserves;
* `Run.split` : a history cut in two passes through one state;
* `RunIn step Q s h s'` : a run all of whose states satisfy `Q`;
* `Run.stays_or_leaves` : a run that starts in `Q` stays there or has a first step out of it;
* `Every step s Q h` : each call of the history was made in a state in which `Q` holds of it;
* `Run.every_iff` : two conditions on calls that agree as long as they hold, agree over runs;
* `written step f s h` : what the calls of the history write, if `f` tells what one call writes;
* `Run.written_foldl` : a part of the state that each call extends by what it writes is a fold over all of it;
* `run`, `run_spec` : the run on a given list of inputs, computed;
* `run_perm` : inputs that can be swapped two at a time can be taken in any order;
* `foldl_lastWrite` : a field holds what was last written to it.
-/

namespace Machine

universe u v w

variable {σ : Type u} {ι : Type v} {ω : Type w} {step : σ → ι → σ × ω}

/-- The inputs and answers `h` lead from one state to the other. -/
inductive Run (step : σ → ι → σ × ω) : σ → List (ι × ω) → σ → Prop
  | nil (s : σ) : Run step s [] s
  | snoc {s s' s'' : σ} {h : List (ι × ω)} {i : ι} {o : ω} :
      Run step s h s' → step s' i = (s'', o) → Run step s (h ++ [(i, o)]) s''

theorem Run.nil_eq {s s' : σ} (h : Run step s [] s') : s' = s := by
  generalize hnil : ([] : List (ι × ω)) = l at h
  cases h with
  | nil => rfl
  | snoc _ _ => exact absurd hnil (by simp)

theorem Run.snoc_inv {s s'' : σ} {h : List (ι × ω)} {i : ι} {o : ω}
    (hr : Run step s (h ++ [(i, o)]) s'') : ∃ s', Run step s h s' ∧ step s' i = (s'', o) := by
  generalize hl : h ++ [(i, o)] = l at hr
  cases hr with
  | nil => exact absurd hl (by simp)
  | snoc hr hs =>
    obtain ⟨rfl, heq⟩ := List.append_inj' hl rfl
    cases heq
    exact ⟨_, hr, hs⟩

theorem Run.single {s s' : σ} {i : ι} {o : ω} (h : step s i = (s', o)) : Run step s [(i, o)] s' :=
  Run.snoc (Run.nil s) h

theorem Run.append {s s' s'' : σ} {h h' : List (ι × ω)} (hr : Run step s h s')
    (hr' : Run step s' h' s'') : Run step s (h ++ h') s'' := by
  induction hr' with
  | nil => rwa [List.append_nil]
  | snoc _ hs ih =>
    rw [← List.append_assoc]
    exact Run.snoc ih hs

theorem Run.split {s s'' : σ} {h h' : List (ι × ω)} (hr : Run step s (h ++ h') s'') :
    ∃ s', Run step s h s' ∧ Run step s' h' s'' := by
  induction h' using List.reverseRecOn generalizing s'' with
  | nil => exact ⟨s'', by rwa [List.append_nil] at hr, Run.nil s''⟩
  | append_singleton h' e ih =>
    rw [← List.append_assoc] at hr
    obtain ⟨s₁, hr₁, hs⟩ := hr.snoc_inv
    obtain ⟨s', h₁, h₂⟩ := ih hr₁
    exact ⟨s', h₁, Run.snoc h₂ hs⟩

/-- What holds at the start and is preserved by the steps on admissible inputs holds at the end of every
run on such inputs. -/
theorem Run.invariant_on {I : σ → Prop} {A : ι → Prop} (hstep : ∀ s i, A i → I s → I (step s i).1) {s s' : σ}
    {h : List (ι × ω)} (hr : Run step s h s') (hinputs : ∀ e ∈ h, A e.1) (hs : I s) : I s' := by
  induction hr with
  | nil => exact hs
  | @snoc s' s'' h i o _ he ih =>
    have hbefore := ih fun e hmem => hinputs e (List.mem_append_left _ hmem)
    have hnext := hstep s' i (hinputs (i, o) (List.mem_append_right _ List.mem_cons_self)) hbefore
    rwa [he] at hnext

/-- What holds at the start and is preserved by one step holds at the end of every run. -/
theorem Run.invariant {I : σ → Prop} (hstep : ∀ s i, I s → I (step s i).1) {s s' : σ}
    {h : List (ι × ω)} (hr : Run step s h s') (hs : I s) : I s' :=
  hr.invariant_on (A := fun _ => True) (fun s i _ => hstep s i) (fun _ _ => trivial) hs

/-- A run all of whose states satisfy `Q`, the first and the last included. -/
inductive RunIn (step : σ → ι → σ × ω) (Q : σ → Prop) : σ → List (ι × ω) → σ → Prop
  | nil {s : σ} : Q s → RunIn step Q s [] s
  | snoc {s s' s'' : σ} {h : List (ι × ω)} {i : ι} {o : ω} :
      RunIn step Q s h s' → step s' i = (s'', o) → Q s'' → RunIn step Q s (h ++ [(i, o)]) s''

theorem RunIn.run {Q : σ → Prop} {s s' : σ} {h : List (ι × ω)} (hr : RunIn step Q s h s') :
    Run step s h s' := by
  induction hr with
  | nil _ => exact Run.nil _
  | snoc _ hs _ ih => exact Run.snoc ih hs

theorem Run.stays_or_leaves {Q : σ → Prop} {s s' : σ} {h : List (ι × ω)} (hr : Run step s h s')
    (hs : Q s) :
    RunIn step Q s h s' ∨
      ∃ h₁ i o h₂ s₁ s₂, h = h₁ ++ (i, o) :: h₂ ∧ RunIn step Q s h₁ s₁ ∧ step s₁ i = (s₂, o) ∧
        ¬ Q s₂ ∧ Run step s₂ h₂ s' := by
  induction hr with
  | nil => exact .inl (.nil hs)
  | @snoc s' s'' h i o _ hstep ih =>
    rcases ih with hin | ⟨h₁, i₁, o₁, h₂, s₁, s₂, rfl, hin, hout, hleft, hrest⟩
    · by_cases hq : Q s''
      · exact .inl (.snoc hin hstep hq)
      · exact .inr ⟨h, i, o, [], s', s'', rfl, hin, hstep, hq, Run.nil _⟩
    · exact .inr ⟨h₁, i₁, o₁, h₂ ++ [(i, o)], s₁, s₂, by simp, hin, hout, hleft, .snoc hrest hstep⟩

/-- Where a step of a longer history can lie: in the history before, or at its end. -/
theorem exists_step_snoc {α : Type u} {Q : List α → α → Prop} {h : List α} {e : α} :
    (∃ h₁ e' h₂, h ++ [e] = h₁ ++ e' :: h₂ ∧ Q h₁ e') ↔
      (∃ h₁ e' h₂, h = h₁ ++ e' :: h₂ ∧ Q h₁ e') ∨ Q h e := by
  refine ⟨?_, ?_⟩
  · rintro ⟨h₁, e', h₂, heq, hq⟩
    rcases List.eq_nil_or_concat h₂ with rfl | ⟨h₃, e₃, rfl⟩
    · obtain ⟨rfl, he⟩ := List.append_inj' heq rfl
      cases he
      exact .inr hq
    · rw [List.concat_eq_append, ← List.cons_append, ← List.append_assoc] at heq
      obtain ⟨rfl, -⟩ := List.append_inj' heq rfl
      exact .inl ⟨h₁, e', h₃, rfl, hq⟩
  · rintro (⟨h₁, e', h₂, rfl, hq⟩ | hq)
    · exact ⟨h₁, e', h₂ ++ [e], by simp, hq⟩
    · exact ⟨h, e, [], rfl, hq⟩

theorem forall_step_snoc {α : Type u} {Q : List α → α → Prop} {h : List α} {e : α} :
    (∀ h₁ e' h₂, h ++ [e] = h₁ ++ e' :: h₂ → Q h₁ e') ↔ (∀ h₁ e' h₂, h = h₁ ++ e' :: h₂ → Q h₁ e') ∧ Q h e := by
  have hexists := not_congr (@exists_step_snoc α (fun h₁ e' => ¬ Q h₁ e') h e)
  push Not at hexists
  exact hexists

theorem Run.unique {s s' s'' : σ} {h : List (ι × ω)} (hr : Run step s h s') (hr' : Run step s h s'') :
    s'' = s' := by
  induction hr generalizing s'' with
  | nil => exact hr'.nil_eq
  | snoc _ hs ih =>
    obtain ⟨mid, hmid, hs'⟩ := hr'.snoc_inv
    rw [ih hmid, hs] at hs'
    cases hs'
    rfl

/-- Every call of the history was made in a state in which `Q` holds of it. -/
def Every (step : σ → ι → σ × ω) (s : σ) (Q : σ → ι → Prop) (h : List (ι × ω)) : Prop :=
  ∀ h₁ i o h₂ s₁, h = h₁ ++ (i, o) :: h₂ → Run step s h₁ s₁ → Q s₁ i

theorem every_nil {Q : σ → ι → Prop} (s : σ) : Every step s Q [] := by
  intro h₁ i o h₂ s₁ heq
  exact absurd heq (by simp)

theorem every_snoc {Q : σ → ι → Prop} {s s' : σ} {h : List (ι × ω)} {i : ι} {o : ω}
    (hr : Run step s h s') : Every step s Q (h ++ [(i, o)]) ↔ Every step s Q h ∧ Q s' i := by
  refine ⟨fun hall => ⟨fun h₁ i' o' h₂ s₁ heq => ?_, hall h i o [] s' rfl hr⟩, fun hall => ?_⟩
  · exact hall h₁ i' o' (h₂ ++ [(i, o)]) s₁ (by simp [heq])
  · intro h₁ i' o' h₂ s₁ heq hr₁
    have hlast := (exists_step_snoc (Q := fun h₁' e => h₁' = h₁ ∧ e = (i', o'))).mp
      ⟨h₁, (i', o'), h₂, heq, rfl, rfl⟩
    rcases hlast with ⟨_, _, h₃, rfl, rfl, rfl⟩ | ⟨rfl, he⟩
    · exact hall.1 _ i' o' h₃ s₁ rfl hr₁
    · cases he
      rw [hr.unique hr₁]
      exact hall.2

/-- If `Q` keeps an invariant under which `Q` and `R` agree, they agree over runs. -/
theorem Run.every_iff {I : σ → Prop} {Q R : σ → ι → Prop} (hagree : ∀ s i, I s → (Q s i ↔ R s i))
    (hkeep : ∀ s i, I s → Q s i → I (step s i).1) {s s' : σ} {h : List (ι × ω)}
    (hr : Run step s h s') (hs : I s) :
    (Every step s Q h ↔ Every step s R h) ∧ (Every step s Q h → I s') := by
  induction hr with
  | nil => exact ⟨⟨fun _ => every_nil s, fun _ => every_nil s⟩, fun _ => hs⟩
  | @snoc s₁ s₂ h i o hr hstep ih =>
    obtain ⟨hiff, hI⟩ := ih
    rw [every_snoc hr, every_snoc hr]
    refine ⟨⟨fun hQ => ?_, fun hR => ?_⟩, fun hQ => ?_⟩
    · exact ⟨hiff.mp hQ.1, (hagree s₁ i (hI hQ.1)).mp hQ.2⟩
    · have hQ := hiff.mpr hR.1
      exact ⟨hQ, (hagree s₁ i (hI hQ)).mpr hR.2⟩
    · have hnext := hkeep s₁ i (hI hQ.1) hQ.2
      rwa [hstep] at hnext

theorem Run.cons_inv {s s' : σ} {e : ι × ω} {h : List (ι × ω)} (hr : Run step s (e :: h) s') :
    Run step (step s e.1).1 h s' := by
  obtain ⟨s₁, hfirst, hrest⟩ := Run.split (h := [e]) hr
  obtain ⟨s₀, hnil, hstep⟩ := Run.snoc_inv (h := []) hfirst
  rw [hnil.nil_eq] at hstep
  rwa [hstep]

/-- What the calls of a history write, one after the other, where `f` tells what a call writes in a state. -/
def written {α : Type*} (step : σ → ι → σ × ω) (f : σ → ι → List α) (s : σ) : List (ι × ω) → List α
  | [] => []
  | (i, _) :: h => f s i ++ written step f (step s i).1 h

theorem Run.written_snoc {α : Type*} {f : σ → ι → List α} {s s' : σ} {h : List (ι × ω)} (hr : Run step s h s')
    (i : ι) (o : ω) : written step f s (h ++ [(i, o)]) = written step f s h ++ f s' i := by
  induction h generalizing s with
  | nil =>
    rw [hr.nil_eq]
    exact List.append_nil _
  | cons e h ih => rw [List.cons_append, written, written, ih hr.cons_inv, List.append_assoc]

/-- A step in the middle of a run, with the state in which it was made. -/
theorem Run.step_at {s s' : σ} {h₁ h₂ : List (ι × ω)} {i : ι} {o : ω} (hr : Run step s (h₁ ++ (i, o) :: h₂) s') :
    ∃ s₁, Run step s h₁ s₁ ∧ o = (step s₁ i).2 := by
  rw [List.append_cons] at hr
  obtain ⟨s₂, hfirst, -⟩ := hr.split
  obtain ⟨s₁, hbefore, hstep⟩ := hfirst.snoc_inv
  exact ⟨s₁, hbefore, by rw [hstep]⟩

/-- If every call extends the observed part of the state by what it writes, element by element, so does a run. -/
theorem Run.written_foldl {α τ : Type*} {f : σ → ι → List α} {observe : σ → τ} {push : τ → α → τ}
    (hstep : ∀ s i, observe (step s i).1 = (f s i).foldl push (observe s)) {s s' : σ} {h : List (ι × ω)}
    (hr : Run step s h s') : observe s' = (written step f s h).foldl push (observe s) := by
  induction h generalizing s with
  | nil => rw [hr.nil_eq, written, List.foldl_nil]
  | cons e h ih => rw [written, List.foldl_append, ← hstep, ih hr.cons_inv]

def run (step : σ → ι → σ × ω) (s : σ) : List ι → List (ι × ω) × σ
  | [] => ([], s)
  | i :: is =>
    let next := step s i
    let rest := run step next.1 is
    ((i, next.2) :: rest.1, rest.2)

theorem run_spec (s : σ) (is : List ι) : Run step s (run step s is).1 (run step s is).2 := by
  induction is generalizing s with
  | nil => exact Run.nil s
  | cons i is ih =>
    have hfirst : Run step s [(i, (step s i).2)] (step s i).1 := Run.single rfl
    exact hfirst.append (ih (step s i).1)

/-- Conditions on the calls of a computed run, one call at a time. -/
theorem every_run_cons {Q : σ → ι → Prop} {s : σ} {i : ι} {is : List ι} (hfirst : Q s i)
    (hrest : Every step (step s i).1 Q (run step (step s i).1 is).1) : Every step s Q (run step s (i :: is)).1 := by
  intro h₁ i' o' h₂ s₁ heq hr
  change (i, (step s i).2) :: (run step (step s i).1 is).1 = _ at heq
  cases h₁ with
  | nil =>
    cases heq
    rw [hr.nil_eq]
    exact hfirst
  | cons e h₁ =>
    obtain ⟨rfl, htail⟩ := List.cons.inj heq
    exact hrest h₁ i' o' h₂ s₁ htail hr.cons_inv

theorem run_append (s : σ) (is js : List ι) :
    run step s (is ++ js) =
      ((run step s is).1 ++ (run step (run step s is).2 js).1, (run step (run step s is).2 js).2) := by
  induction is generalizing s with
  | nil => rfl
  | cons i is ih =>
    rw [List.cons_append, run, ih]
    rfl

theorem run_snoc (s : σ) (is : List ι) (i : ι) :
    run step s (is ++ [i]) =
      ((run step s is).1 ++ [(i, (step (run step s is).2 i).2)], (step (run step s is).2 i).1) :=
  run_append s is [i]

theorem Run.eq_run {s s' : σ} {h : List (ι × ω)} (hr : Run step s h s') :
    run step s (h.map Prod.fst) = (h, s') := by
  induction hr with
  | nil => rfl
  | snoc _ hs ih => rw [List.map_append, List.map_singleton, run_snoc, ih, hs]

theorem run_inputs (s : σ) (is : List ι) : (run step s is).1.map Prod.fst = is := by
  induction is generalizing s with
  | nil => rfl
  | cons i is ih => rw [run, List.map_cons, ih]

theorem forall_run_inputs {A : ι → Prop} {s : σ} {is : List ι} (h : ∀ i ∈ is, A i) :
    ∀ e ∈ (run step s is).1, A e.1 := by
  intro e hmem
  have hinput : e.1 ∈ (run step s is).1.map Prod.fst := List.mem_map_of_mem hmem
  rw [run_inputs] at hinput
  exact h e.1 hinput

/-- If two inputs can be swapped in every state that satisfies an invariant of the machine, without a difference
in the next state or in the outputs together, then a list of inputs can be taken in any order. -/
theorem run_perm {ω : Type w} {step : σ → ι → σ × List ω} {I : σ → Prop} (hkeep : ∀ s i, I s → I (step s i).1)
    (hswap : ∀ s i j, I s → (step (step s i).1 j).1 = (step (step s j).1 i).1 ∧
      (step s i).2 ++ (step (step s i).1 j).2 = (step s j).2 ++ (step (step s j).1 i).2)
    {is js : List ι} (hperm : is.Perm js) {s : σ} (hs : I s) :
    (run step s is).2 = (run step s js).2 ∧
      (run step s is).1.flatMap Prod.snd = (run step s js).1.flatMap Prod.snd := by
  induction hperm generalizing s with
  | nil => exact ⟨rfl, rfl⟩
  | cons i _ ih =>
    obtain ⟨hstate, houtputs⟩ := ih (hkeep s i hs)
    refine ⟨hstate, ?_⟩
    simp only [run, List.flatMap_cons, houtputs]
  | swap i j is =>
    obtain ⟨hstate, houtputs⟩ := hswap s j i hs
    simp only [run, List.flatMap_cons, ← List.append_assoc, hstate, houtputs]
    exact ⟨trivial, trivial⟩
  | trans _ _ ih ih' => exact ⟨(ih hs).1.trans (ih' hs).1, (ih hs).2.trans (ih' hs).2⟩

/-- A field that each input overwrites or leaves alone holds what was last written. -/
theorem foldl_lastWrite {α : Type w} {next : σ → ι → σ} {field : σ → α} {write : ι → Option α}
    (h : ∀ s i, field (next s i) = (write i).getD (field s)) (is : List ι) (s : σ) :
    field (is.foldl next s) = (is.filterMap write).getLast?.getD (field s) := by
  induction is generalizing s with
  | nil => rfl
  | cons i is ih =>
    rw [List.foldl_cons, ih, h]
    cases hwrite : write i with
    | none => rw [List.filterMap_cons_none hwrite, Option.getD_none]
    | some a =>
      rw [List.filterMap_cons_some hwrite, List.getLast?_cons, Option.getD_some, Option.getD_some]

end Machine
