import Mathlib.Control.Monad.Writer
import Mathlib.Data.List.Infix
import Mathlib.Data.List.TakeDrop
import Mathlib.Order.Lattice

/-!
# Byte codecs: append-only writers, positioned readers, and the law between them

A writer (`Encode`) fails or appends bytes; a reader (`Decode`) fails or moves a position over a
fixed input. `IsCodec D push read` is the law of a canonical format on the values in `D`: what
`push` writes is what `read` accepts, with nothing lost in either direction.

* `Emits w c` : the writer `w` succeeds and appends exactly `c`;
* `Consumes r c r'` : `r'` is `r` moved over the bytes `c`;
* `IsCodec.bind` : read a field, then the rest under the knowledge of that field;
* `IsCodec.tagged`, `IsCodec.derived`, `IsCodec.check`, `IsCodec.checked`, `IsCodec.guarded`,
  `IsCodec.last`, `IsCodec.lastChecked`, `IsCodec.pure`, `IsCodec.fail`, `IsCodec.map`,
  `IsCodec.prod`, `IsCodec.last₂` : the other steps;
* `loop_codec` : a counted loop reads exactly a list of items accepted one after the other;
* `acceptsAll_increasing` : the lists accepted by a loop that compares each key with the previous one.
-/

namespace Codec

variable {ε α β τ σ : Type}

/-- `if !p { return Err(e) }`. -/
def ensure (p : Prop) [Decidable p] (e : ε) : Except ε Unit := if p then .ok () else .error e

@[simp] theorem ensure_eq_ok {p : Prop} [Decidable p] {e : ε} {u : Unit} : ensure p e = .ok u ↔ p := by
  unfold ensure
  split_ifs with h <;> simp [h]

theorem map_eq_ok {x : Except ε α} {f : α → β} {b : β} : x.map f = .ok b ↔ ∃ a, x = .ok a ∧ f a = b := by
  cases x with
  | error e => exact iff_of_false (fun h => by cases h) fun ⟨_, h, _⟩ => by cases h
  | ok a => exact ⟨fun h => ⟨a, rfl, Except.ok.inj h⟩, fun ⟨_, h, hb⟩ => Except.ok.inj h ▸ congrArg _ hb⟩

theorem bind_eq_ok {x : Except ε α} {f : α → Except ε β} {b : β} :
    x >>= f = .ok b ↔ ∃ a, x = .ok a ∧ f a = .ok b := by
  cases x with
  | error e =>
    constructor
    · intro h
      cases h
    · rintro ⟨_, h, _⟩
      cases h
  | ok a =>
    constructor
    · intro h
      exact ⟨a, rfl, h⟩
    · rintro ⟨_, h, hf⟩
      cases h
      exact hf

theorem ensure_bind_eq_ok {p : Prop} [Decidable p] {e : ε} {x : Except ε β} {b : β} :
    (ensure p e >>= fun _ => x) = .ok b ↔ p ∧ x = .ok b := by
  rw [bind_eq_ok]
  exact ⟨fun ⟨_, hp, hx⟩ => ⟨ensure_eq_ok.mp hp, hx⟩, fun ⟨hp, hx⟩ => ⟨(), ensure_eq_ok.mpr hp, hx⟩⟩

/-! ## Writers -/

/-- A computation that fails with `ε` or appends bytes to its output. -/
abbrev Encode (ε : Type) := WriterT (List UInt8) (Except ε)

/-- The writer succeeds and appends exactly `c`. -/
def Emits (w : Encode ε Unit) (c : List UInt8) : Prop := w.run = .ok ((), c)

theorem Emits.inj {w : Encode ε Unit} {c d : List UInt8} (h : Emits w c) (h' : Emits w d) : c = d := by
  unfold Emits at h h'
  rw [h] at h'
  cases h'
  rfl

@[simp] theorem emits_tell {c d : List UInt8} : Emits (tell d : Encode ε Unit) c ↔ c = d := by
  constructor
  · intro h
    cases h
    rfl
  · rintro rfl
    rfl

@[simp] theorem emits_pure {c : List UInt8} : Emits (pure () : Encode ε Unit) c ↔ c = [] := by
  constructor
  · intro h
    cases h
    rfl
  · rintro rfl
    rfl

theorem emits_bind {w : Encode ε Unit} {v : Unit → Encode ε Unit} {c : List UInt8} :
    Emits (w >>= v) c ↔ ∃ c₁ c₂, Emits w c₁ ∧ Emits (v ()) c₂ ∧ c = c₁ ++ c₂ := by
  constructor
  · intro h
    change (do
      let (a, c₁) ← w.run
      let (b, c₂) ← (v a).run
      pure (b, c₁ ++ c₂) : Except ε (Unit × List UInt8)) = .ok ((), c) at h
    cases hw : w.run with
    | error e => rw [hw] at h; cases h
    | ok p =>
      obtain ⟨⟨⟩, c₁⟩ := p
      rw [hw] at h
      cases hv : (v ()).run with
      | error e =>
        change ((v ()).run >>= fun q => pure (q.1, c₁ ++ q.2)) = .ok ((), c) at h
        rw [hv] at h
        cases h
      | ok q =>
        obtain ⟨⟨⟩, c₂⟩ := q
        change ((v ()).run >>= fun q => pure (q.1, c₁ ++ q.2)) = .ok ((), c) at h
        rw [hv] at h
        cases h
        exact ⟨c₁, c₂, hw, hv, rfl⟩
  · rintro ⟨c₁, c₂, hw, hv, rfl⟩
    change (do
      let (a, c₁) ← w.run
      let (b, c₂) ← (v a).run
      pure (b, c₁ ++ c₂) : Except ε (Unit × List UInt8)) = .ok ((), c₁ ++ c₂)
    rw [show w.run = .ok ((), c₁) from hw]
    change ((v ()).run >>= fun q => pure (q.1, c₁ ++ q.2)) = .ok ((), c₁ ++ c₂)
    rw [show (v ()).run = .ok ((), c₂) from hv]
    rfl

theorem emits_lift_bind {e : Except ε τ} {v : τ → Encode ε Unit} {c : List UInt8} :
    Emits (liftM e >>= v) c ↔ ∃ t, e = .ok t ∧ Emits (v t) c := by
  cases e with
  | error e =>
    constructor
    · intro h
      cases h
    · rintro ⟨_, h, _⟩
      cases h
  | ok t =>
    have hrun : (liftM (.ok t : Except ε τ) >>= v : Encode ε Unit).run =
        (v t).run >>= fun q => pure (q.1, [] ++ q.2) := rfl
    have hid : ((v t).run >>= fun q => pure (q.1, [] ++ q.2)) = (v t).run := by
      cases (v t).run <;> rfl
    unfold Emits
    rw [hrun, hid]
    simp

theorem emits_check_bind {e : Except ε Unit} {w : Encode ε Unit} {c : List UInt8} :
    Emits (liftM e >>= fun _ => w) c ↔ e = .ok () ∧ Emits w c := by
  rw [emits_lift_bind]
  constructor
  · rintro ⟨⟨⟩, he, hw⟩
    exact ⟨he, hw⟩
  · rintro ⟨he, hw⟩
    exact ⟨(), he, hw⟩

theorem Emits.bind_mono {w w' : Encode ε Unit} {v v' : Unit → Encode ε Unit} {c : List UInt8}
    (hw : ∀ c, Emits w c → Emits w' c) (hv : ∀ c, Emits (v ()) c → Emits (v' ()) c)
    (h : Emits (w >>= v) c) : Emits (w' >>= v') c := by
  obtain ⟨c₁, c₂, h₁, h₂, rfl⟩ := emits_bind.mp h
  exact emits_bind.mpr ⟨c₁, c₂, hw c₁ h₁, hv c₂ h₂, rfl⟩

/-- A check may stand before or after what is written in front of it. -/
theorem emits_check_swap {e : Except ε Unit} {w v : Encode ε Unit} {c : List UInt8} :
    Emits (liftM e >>= fun _ => w >>= fun _ => v) c ↔
      Emits (w >>= fun _ => liftM e >>= fun _ => v) c := by
  rw [emits_check_bind, emits_bind, emits_bind]
  constructor
  · rintro ⟨he, c₁, c₂, hw, hv, rfl⟩
    exact ⟨c₁, c₂, hw, emits_check_bind.mpr ⟨he, hv⟩, rfl⟩
  · rintro ⟨c₁, c₂, hw, hv, rfl⟩
    obtain ⟨he, hv⟩ := emits_check_bind.mp hv
    exact ⟨he, c₁, c₂, hw, hv, rfl⟩

theorem emits_forM {push : α → Encode ε Unit} {bytes : α → List UInt8}
    (hbytes : ∀ a c, Emits (push a) c → bytes a = c) (l : List α) (c : List UInt8) :
    Emits (l.forM push) c ↔ (∀ a ∈ l, Emits (push a) (bytes a)) ∧ c = (l.map bytes).flatten := by
  induction l generalizing c with
  | nil => simp [show (([] : List α).forM push : Encode ε Unit) = pure () from rfl]
  | cons a l ih =>
    rw [show ((a :: l).forM push : Encode ε Unit) = push a >>= fun _ => l.forM push from rfl, emits_bind,
      List.map_cons, List.flatten_cons, List.forall_mem_cons]
    constructor
    · rintro ⟨c₁, c₂, h₁, h₂, rfl⟩
      obtain ⟨hl, rfl⟩ := (ih c₂).mp h₂
      obtain rfl := hbytes a c₁ h₁
      exact ⟨⟨h₁, hl⟩, rfl⟩
    · rintro ⟨⟨ha, hl⟩, rfl⟩
      exact ⟨_, _, ha, (ih _).mpr ⟨hl, rfl⟩, rfl⟩

def emitted (w : Encode ε Unit) : List UInt8 :=
  match w.run with
  | .ok result => result.2
  | .error _ => []

theorem emitted_eq {w : Encode ε Unit} {c : List UInt8} (h : Emits w c) : emitted w = c := by
  unfold Emits at h
  unfold emitted
  rw [h]

/-- Where the first writer succeeds, the second one succeeds exactly if `p` holds, and emits `k` bytes
more. -/
def GrowsIf (p : Prop) (k : Nat) (v v' : Encode ε Unit) : Prop :=
  ∀ c, Emits v c → ((∃ c', Emits v' c') ↔ p) ∧ ∀ c', Emits v' c' → c'.length = c.length + k

theorem GrowsIf.head {p : Prop} {k : Nat} {w : Encode ε Unit} {v v' : Unit → Encode ε Unit}
    (h : GrowsIf p k (v ()) (v' ())) : GrowsIf p k (w >>= v) (w >>= v') := by
  intro c hc
  obtain ⟨c₁, c₂, hw, hv, rfl⟩ := emits_bind.mp hc
  obtain ⟨hiff, hlength⟩ := h c₂ hv
  refine ⟨⟨fun ⟨c', hc'⟩ => ?_, fun hp => ?_⟩, fun c' hc' => ?_⟩
  · obtain ⟨_, d₂, _, hv', _⟩ := emits_bind.mp hc'
    exact hiff.mp ⟨d₂, hv'⟩
  · obtain ⟨d₂, hv'⟩ := hiff.mpr hp
    exact ⟨c₁ ++ d₂, emits_bind.mpr ⟨c₁, d₂, hw, hv', rfl⟩⟩
  · obtain ⟨d₁, d₂, hw', hv', rfl⟩ := emits_bind.mp hc'
    rw [hw.inj hw', List.length_append, List.length_append, hlength d₂ hv', Nat.add_assoc]

theorem GrowsIf.tail {p : Prop} {k : Nat} {w w' : Encode ε Unit} {v : Unit → Encode ε Unit}
    (h : GrowsIf p k w w') : GrowsIf p k (w >>= v) (w' >>= v) := by
  intro c hc
  obtain ⟨c₁, c₂, hw, hv, rfl⟩ := emits_bind.mp hc
  obtain ⟨hiff, hlength⟩ := h c₁ hw
  refine ⟨⟨fun ⟨c', hc'⟩ => ?_, fun hp => ?_⟩, fun c' hc' => ?_⟩
  · obtain ⟨d₁, _, hw', _, _⟩ := emits_bind.mp hc'
    exact hiff.mp ⟨d₁, hw'⟩
  · obtain ⟨d₁, hw'⟩ := hiff.mpr hp
    exact ⟨d₁ ++ c₂, emits_bind.mpr ⟨d₁, c₂, hw', hv, rfl⟩⟩
  · obtain ⟨d₁, d₂, hw', hv', rfl⟩ := emits_bind.mp hc'
    rw [← hv.inj hv', List.length_append, List.length_append, hlength d₁ hw']
    omega

theorem forM_eq_ok {f : α → Except ε Unit} {l : List α} :
    l.forM f = .ok () ↔ ∀ a ∈ l, f a = .ok () := by
  induction l with
  | nil => exact iff_of_true rfl fun _ h => (List.not_mem_nil h).elim
  | cons a l ih =>
    rw [List.forall_mem_cons]
    refine (bind_eq_ok : (f a >>= fun _ => l.forM f) = .ok () ↔ _).trans ?_
    exact ⟨fun ⟨_, ha, hl⟩ => ⟨ha, ih.mp hl⟩, fun ⟨ha, hl⟩ => ⟨(), ha, ih.mpr hl⟩⟩

theorem mapM_eq_ok {f : α → Except ε β} {g : α → β} (hg : ∀ a b, f a = .ok b → g a = b)
    (l : List α) (r : List β) :
    l.mapM f = .ok r ↔ (∀ a ∈ l, f a = .ok (g a)) ∧ r = l.map g := by
  induction l generalizing r with
  | nil =>
    rw [List.mapM_nil]
    exact ⟨fun h => by cases h; simp, fun ⟨_, h⟩ => h ▸ rfl⟩
  | cons a l ih =>
    rw [List.mapM_cons, List.map_cons, List.forall_mem_cons]
    constructor
    · intro h
      cases ha : f a with
      | error e => rw [ha] at h; cases h
      | ok b =>
        rw [ha] at h
        cases hl : l.mapM f with
        | error e => rw [hl] at h; cases h
        | ok bs =>
          rw [hl] at h
          cases h
          obtain ⟨hall, rfl⟩ := (ih bs).mp hl
          rw [hg a b ha]
          exact ⟨⟨rfl, hall⟩, rfl⟩
    · rintro ⟨⟨ha, hl⟩, rfl⟩
      rw [ha, (ih _).mpr ⟨hl, rfl⟩]
      rfl

/-! ## Readers -/

/-- An input and the position of its next unread byte. -/
structure Reader where
  bytes : List UInt8
  position : Nat
  position_le : position ≤ bytes.length
  deriving DecidableEq

def Reader.new (bytes : List UInt8) : Reader := ⟨bytes, 0, Nat.zero_le _⟩

theorem Reader.ext {r r' : Reader} (hb : r.bytes = r'.bytes) (hp : r.position = r'.position) : r = r' := by
  cases r; cases r'; cases hb; cases hp; rfl

/-- A computation that fails with `ε` or moves a reader. -/
abbrev Decode (ε : Type) := StateT Reader (Except ε)

/-- `r'` is `r` moved over the bytes `c`. -/
def Consumes (r : Reader) (c : List UInt8) (r' : Reader) : Prop :=
  r'.bytes = r.bytes ∧ r'.position = r.position + c.length ∧ c <+: r.bytes.drop r.position

theorem consumes_nil {r r' : Reader} : Consumes r [] r' ↔ r' = r := by
  constructor
  · rintro ⟨hb, hp, -⟩
    exact Reader.ext hb hp
  · rintro rfl
    exact ⟨rfl, rfl, List.nil_prefix⟩

theorem consumes_append {r r'' : Reader} {c₁ c₂ : List UInt8} :
    Consumes r (c₁ ++ c₂) r'' ↔ ∃ r', Consumes r c₁ r' ∧ Consumes r' c₂ r'' := by
  constructor
  · rintro ⟨hb, hp, t, ht⟩
    have hdrop : r.bytes.drop (r.position + c₁.length) = c₂ ++ t := by
      rw [← List.drop_drop, ← ht, List.append_assoc, List.drop_left]
    have hle : r.position + c₁.length ≤ r.bytes.length := by
      have := r''.position_le
      rw [hb, hp, List.length_append] at this
      omega
    refine ⟨⟨r.bytes, r.position + c₁.length, hle⟩, ⟨rfl, rfl, c₂ ++ t, ?_⟩, hb, ?_, t, hdrop.symm⟩
    · rw [← List.append_assoc, ht]
    · rw [hp, List.length_append, Nat.add_assoc]
  · rintro ⟨r', ⟨hb, hp, t, ht⟩, hb', hp', t', ht'⟩
    refine ⟨hb'.trans hb, by rw [hp', hp, List.length_append]; omega, t', ?_⟩
    rw [hb, hp, ← List.drop_drop, ← ht, List.drop_left] at ht'
    rw [List.append_assoc, ht', ht]

theorem Consumes.slice {r r' : Reader} {c : List UInt8} (h : Consumes r c r') :
    (r'.bytes.drop r.position).take (r'.position - r.position) = c := by
  rw [h.1, h.2.1, Nat.add_sub_cancel_left, ← List.prefix_iff_eq_take.mp h.2.2]

theorem run_bind_iff {x : Decode ε α} {f : α → Decode ε β} {r r'' : Reader} {b : β} :
    (x >>= f).run r = .ok (b, r'') ↔
      ∃ a r', x.run r = .ok (a, r') ∧ (f a).run r' = .ok (b, r'') := by
  rw [StateT.run_bind]
  cases hx : x.run r with
  | error e =>
    constructor
    · intro h
      cases h
    · rintro ⟨_, _, h, _⟩
      cases h
  | ok p =>
    constructor
    · intro h
      exact ⟨p.1, p.2, rfl, h⟩
    · rintro ⟨a, r', h, h'⟩
      cases h
      exact h'

theorem run_pure_iff {a b : α} {r r' : Reader} :
    (pure a : Decode ε α).run r = .ok (b, r') ↔ a = b ∧ r = r' := by
  change (Except.ok (a, r) : Except ε (α × Reader)) = .ok (b, r') ↔ _
  simp

theorem run_lift_iff {e : Except ε α} {a : α} {r r' : Reader} :
    (liftM e : Decode ε α).run r = .ok (a, r') ↔ e = .ok a ∧ r = r' := by
  cases e with
  | error e =>
    constructor
    · intro h
      cases h
    · rintro ⟨h, _⟩
      cases h
  | ok b =>
    constructor
    · intro h
      cases h
      exact ⟨rfl, rfl⟩
    · rintro ⟨h, rfl⟩
      cases h
      rfl

theorem run_get_iff {r r' r'' : Reader} :
    (get : Decode ε Reader).run r = .ok (r', r'') ↔ r = r' ∧ r = r'' := by
  change (Except.ok (r, r) : Except ε (Reader × Reader)) = .ok (r', r'') ↔ _
  simp

theorem run_throw {e : ε} {a : α} {r r' : Reader} :
    ¬ (throw e : Decode ε α).run r = .ok (a, r') := by
  intro h
  cases h

/-! ## The law of a canonical format -/

/-- `push` and `read` agree on `D`: the reader accepts the bytes of every value in `D`, and
whatever it accepts is a value in `D` preceded by exactly the bytes of that value. -/
structure IsCodec (D : α → Prop) (push : α → Encode ε Unit) (read : Decode ε α) : Prop where
  read_of_push : ∀ {a c r r'}, D a → Emits (push a) c → Consumes r c r' → read.run r = .ok (a, r')
  push_of_read : ∀ {a r r'}, read.run r = .ok (a, r') → D a ∧ ∃ c, Emits (push a) c ∧ Consumes r c r'

abbrev IsCodecAll (push : α → Encode ε Unit) (read : Decode ε α) : Prop :=
  IsCodec (fun _ => True) push read

namespace IsCodec

variable {D D' : α → Prop} {push push' : α → Encode ε Unit} {read : Decode ε α}

theorem whole (h : IsCodec D push read) {a : α} {body : List UInt8} :
    (∃ r, read.run (.new body) = .ok (a, r) ∧ r.position = r.bytes.length) ↔
      D a ∧ Emits (push a) body := by
  constructor
  · rintro ⟨r, hr, hend⟩
    obtain ⟨hd, c, he, hb, hp, hpre⟩ := h.push_of_read hr
    have hlen : c.length = body.length := by
      rw [hp, hb] at hend
      exact (Nat.zero_add _).symm.trans hend
    have hpre' : c <+: body := hpre
    rw [hpre'.eq_of_length hlen] at he
    exact ⟨hd, he⟩
  · rintro ⟨hd, he⟩
    refine ⟨⟨body, body.length, le_rfl⟩, h.read_of_push hd he ⟨rfl, ?_, ?_⟩, rfl⟩
    · exact (Nat.zero_add _).symm
    · exact List.prefix_rfl

theorem inj (h : IsCodec D push read) {a b : α} {c : List UInt8} (ha : D a) (hb : D b)
    (hea : Emits (push a) c) (heb : Emits (push b) c) : a = b := by
  obtain ⟨r, hr, -⟩ := h.whole.mpr ⟨ha, hea⟩
  obtain ⟨r', hr', -⟩ := h.whole.mpr ⟨hb, heb⟩
  rw [hr] at hr'
  cases hr'
  rfl

/-- Only what a writer emits on `D` matters. -/
theorem congr (h : IsCodec D push read) (hD : ∀ a, D' a ↔ D a)
    (hp : ∀ a, D a → ∀ c, Emits (push' a) c ↔ Emits (push a) c) : IsCodec D' push' read where
  read_of_push hd he hc :=
    h.read_of_push ((hD _).mp hd) ((hp _ ((hD _).mp hd) _).mp he) hc
  push_of_read hr := by
    obtain ⟨hd, c, he, hc⟩ := h.push_of_read hr
    exact ⟨(hD _).mpr hd, c, (hp _ hd c).mpr he, hc⟩

/-- The end of a format: every field is known. -/
protected theorem pure {a : α} (hD : ∀ b, D b ↔ b = a) (hp : ∀ c, Emits (push a) c ↔ c = []) :
    IsCodec D push (pure a) where
  read_of_push hd he hc := by
    obtain rfl := (hD _).mp hd
    rw [(hp _).mp he, consumes_nil] at hc
    exact run_pure_iff.mpr ⟨rfl, hc.symm⟩
  push_of_read hr := by
    obtain ⟨rfl, rfl⟩ := run_pure_iff.mp hr
    exact ⟨(hD _).mpr rfl, [], (hp _).mpr rfl, consumes_nil.mpr rfl⟩

/-- A branch that no value takes. -/
theorem fail {e : ε} (hD : ∀ a, ¬ D a) : IsCodec D push (throw e) where
  read_of_push hd := absurd hd (hD _)
  push_of_read hr := absurd hr run_throw

/-- One field, then the rest of the format under the knowledge of that field. -/
protected theorem bind {push₁ : τ → Encode ε Unit} {read₁ : Decode ε τ} {rest : τ → Decode ε α}
    (f : α → τ) (h₁ : IsCodecAll push₁ read₁)
    (h₂ : ∀ t, IsCodec (fun a => D a ∧ f a = t) push (rest t)) :
    IsCodec D (fun a => push₁ (f a) >>= fun _ => push a) (read₁ >>= rest) where
  read_of_push hd he hc := by
    obtain ⟨c₁, c₂, he₁, he₂, rfl⟩ := emits_bind.mp he
    obtain ⟨r₁, hc₁, hc₂⟩ := consumes_append.mp hc
    exact run_bind_iff.mpr
      ⟨_, r₁, h₁.read_of_push trivial he₁ hc₁, (h₂ _).read_of_push ⟨hd, rfl⟩ he₂ hc₂⟩
  push_of_read hr := by
    obtain ⟨t, r₁, hr₁, hr₂⟩ := run_bind_iff.mp hr
    obtain ⟨-, c₁, he₁, hc₁⟩ := h₁.push_of_read hr₁
    obtain ⟨⟨hd, rfl⟩, c₂, he₂, hc₂⟩ := (h₂ t).push_of_read hr₂
    exact ⟨hd, c₁ ++ c₂, emits_bind.mpr ⟨c₁, c₂, he₁, he₂, rfl⟩,
      consumes_append.mpr ⟨r₁, hc₁, hc₂⟩⟩

/-- A tag, then a payload in the format that the tag selects. -/
theorem tagged {push₁ : τ → Encode ε Unit} {read₁ : Decode ε τ} {rest : τ → Decode ε α}
    (tag : α → τ) (payload : α → Encode ε Unit) (h₁ : IsCodecAll push₁ read₁)
    (hp : ∀ a c, Emits (push a) c ↔ Emits (push₁ (tag a) >>= fun _ => payload a) c)
    (h₂ : ∀ t, IsCodec (fun a => tag a = t) payload (rest t)) : IsCodecAll push (read₁ >>= rest) := by
  have h : IsCodecAll (fun a => push₁ (tag a) >>= fun _ => payload a) (read₁ >>= rest) :=
    IsCodec.bind tag h₁ fun t => (h₂ t).congr (fun _ => iff_of_eq (true_and _)) fun _ _ _ => Iff.rfl
  exact h.congr (fun _ => Iff.rfl) fun a _ c => hp a c

/-- One field that the writer computes from the value and may fail to compute, such as a length. -/
theorem derived {push₁ : τ → Encode ε Unit} {read₁ : Decode ε τ} {rest : τ → Decode ε α}
    {conv : α → Except ε τ} (h₁ : IsCodecAll push₁ read₁)
    (h₂ : ∀ t, IsCodec (fun a => D a ∧ conv a = .ok t) push (rest t)) :
    IsCodec D (fun a => liftM (conv a) >>= fun t => push₁ t >>= fun _ => push a) (read₁ >>= rest) where
  read_of_push hd he hc := by
    obtain ⟨t, ht, he'⟩ := emits_lift_bind.mp he
    obtain ⟨c₁, c₂, he₁, he₂, rfl⟩ := emits_bind.mp he'
    obtain ⟨r₁, hc₁, hc₂⟩ := consumes_append.mp hc
    exact run_bind_iff.mpr
      ⟨t, r₁, h₁.read_of_push trivial he₁ hc₁, (h₂ t).read_of_push ⟨hd, ht⟩ he₂ hc₂⟩
  push_of_read hr := by
    obtain ⟨t, r₁, hr₁, hr₂⟩ := run_bind_iff.mp hr
    obtain ⟨-, c₁, he₁, hc₁⟩ := h₁.push_of_read hr₁
    obtain ⟨⟨hd, ht⟩, c₂, he₂, hc₂⟩ := (h₂ t).push_of_read hr₂
    exact ⟨hd, c₁ ++ c₂,
      emits_lift_bind.mpr ⟨t, ht, emits_bind.mpr ⟨c₁, c₂, he₁, he₂, rfl⟩⟩,
      consumes_append.mpr ⟨r₁, hc₁, hc₂⟩⟩

/-- A check by the reader of what it has read so far; it cuts the domain. -/
theorem check {e : Except ε Unit} (h : IsCodec D push read) (hD : ∀ a, D' a ↔ D a ∧ e = .ok ()) :
    IsCodec D' push (liftM e >>= fun _ => read) where
  read_of_push hd he hc :=
    run_bind_iff.mpr ⟨(), _, run_lift_iff.mpr ⟨((hD _).mp hd).2, rfl⟩,
      h.read_of_push ((hD _).mp hd).1 he hc⟩
  push_of_read hr := by
    obtain ⟨⟨⟩, r₁, hr₁, hr₂⟩ := run_bind_iff.mp hr
    obtain ⟨he, rfl⟩ := run_lift_iff.mp hr₁
    obtain ⟨hd, hc⟩ := h.push_of_read hr₂
    exact ⟨(hD _).mpr ⟨hd, he⟩, hc⟩

/-- A check by the reader of the value it returns. -/
theorem checked {check : α → Except ε Unit} (h : IsCodec D push read) :
    IsCodec (fun a => D a ∧ check a = .ok ()) push
      (read >>= fun a => liftM (check a) >>= fun _ => pure a) where
  read_of_push hd he hc :=
    run_bind_iff.mpr ⟨_, _, h.read_of_push hd.1 he hc,
      run_bind_iff.mpr ⟨(), _, run_lift_iff.mpr ⟨hd.2, rfl⟩, run_pure_iff.mpr ⟨rfl, rfl⟩⟩⟩
  push_of_read hr := by
    obtain ⟨a, r₁, hr₁, hr₂⟩ := run_bind_iff.mp hr
    obtain ⟨⟨⟩, r₂, hr₂, hr₃⟩ := run_bind_iff.mp hr₂
    obtain ⟨hok, rfl⟩ := run_lift_iff.mp hr₂
    obtain ⟨rfl, rfl⟩ := run_pure_iff.mp hr₃
    obtain ⟨hd, hc⟩ := h.push_of_read hr₁
    exact ⟨⟨hd, hok⟩, hc⟩

/-- A check by the writer before it writes; it stands for a restriction of the domain. -/
theorem guarded {check : α → Except ε Unit}
    (h : IsCodec (fun a => D a ∧ check a = .ok ()) push read) :
    IsCodec D (fun a => liftM (check a) >>= fun _ => push a) read where
  read_of_push hd he hc := by
    obtain ⟨hok, he⟩ := emits_check_bind.mp he
    exact h.read_of_push ⟨hd, hok⟩ he hc
  push_of_read hr := by
    obtain ⟨⟨hd, hok⟩, c, he, hc⟩ := h.push_of_read hr
    exact ⟨hd, c, emits_check_bind.mpr ⟨hok, he⟩, hc⟩

/-- The last field of a format, or the only one of a value built from it. -/
theorem last {E : τ → Prop} {push₁ : τ → Encode ε Unit} {read₁ : Decode ε τ} {mk : τ → α}
    (h : IsCodec E push₁ read₁)
    (hp : ∀ a c, D a ∧ Emits (push a) c ↔ ∃ t, mk t = a ∧ E t ∧ Emits (push₁ t) c) :
    IsCodec D push (read₁ >>= fun t => pure (mk t)) where
  read_of_push hd he hc := by
    obtain ⟨t, rfl, hE, he⟩ := (hp _ _).mp ⟨hd, he⟩
    exact run_bind_iff.mpr ⟨t, _, h.read_of_push hE he hc, run_pure_iff.mpr ⟨rfl, rfl⟩⟩
  push_of_read hr := by
    obtain ⟨t, r₁, hr₁, hr₂⟩ := run_bind_iff.mp hr
    obtain ⟨rfl, rfl⟩ := run_pure_iff.mp hr₂
    obtain ⟨hE, c, he, hc⟩ := h.push_of_read hr₁
    obtain ⟨hd, he⟩ := (hp _ _).mpr ⟨t, rfl, hE, he⟩
    exact ⟨hd, c, he, hc⟩

theorem lastChecked {E : τ → Prop} {push₁ : τ → Encode ε Unit} {read₁ : Decode ε τ} {mk : τ → α}
    {check : τ → Except ε Unit} (h : IsCodec E push₁ read₁)
    (hp : ∀ a c, D a ∧ Emits (push a) c ↔
      ∃ t, mk t = a ∧ (E t ∧ check t = .ok ()) ∧ Emits (push₁ t) c) :
    IsCodec D push (read₁ >>= fun t => liftM (check t) >>= fun _ => pure (mk t)) := by
  have hc : IsCodec (fun t => E t ∧ check t = .ok ()) push₁
      (read₁ >>= fun t => liftM (check t) >>= fun _ => pure t) := h.checked
  simpa using hc.last hp

/-- A value read through another: `repr` is what is written, `parse` recovers the value or rejects. -/
theorem map {E : τ → Prop} {push₁ : τ → Encode ε Unit} {read₁ : Decode ε τ} (h : IsCodec E push₁ read₁)
    {repr : α → τ} {parse : τ → Except ε α}
    (hinv : ∀ t a, E t ∧ parse t = .ok a ↔ D a ∧ repr a = t) :
    IsCodec D (fun a => push₁ (repr a)) (read₁ >>= fun t => liftM (parse t)) where
  read_of_push hd he hc := by
    obtain ⟨hE, hp⟩ := (hinv _ _).mpr ⟨hd, rfl⟩
    exact run_bind_iff.mpr ⟨_, _, h.read_of_push hE he hc, run_lift_iff.mpr ⟨hp, rfl⟩⟩
  push_of_read hr := by
    obtain ⟨t, r₁, hr₁, hr₂⟩ := run_bind_iff.mp hr
    obtain ⟨hp, rfl⟩ := run_lift_iff.mp hr₂
    obtain ⟨hE, c, he, hc⟩ := h.push_of_read hr₁
    obtain ⟨hd, rfl⟩ := (hinv _ _).mp ⟨hE, hp⟩
    exact ⟨hd, c, he, hc⟩

theorem prod {push₁ : α → Encode ε Unit} {read₁ : Decode ε α} {push₂ : β → Encode ε Unit}
    {read₂ : Decode ε β} (h₁ : IsCodecAll push₁ read₁) (h₂ : IsCodecAll push₂ read₂) :
    IsCodecAll (fun p : α × β => push₁ p.1 >>= fun _ => push₂ p.2)
      (read₁ >>= fun a => read₂ >>= fun b => pure (a, b)) := by
  refine IsCodec.bind Prod.fst h₁ fun a => h₂.last ?_
  rintro ⟨a', b⟩ c
  constructor
  · rintro ⟨⟨-, rfl⟩, he⟩
    exact ⟨b, rfl, trivial, he⟩
  · rintro ⟨b, h, -, he⟩
    cases h
    exact ⟨⟨trivial, rfl⟩, he⟩

theorem last₂ {push₁ : τ → Encode ε Unit} {read₁ : Decode ε τ} {push₂ : β → Encode ε Unit}
    {read₂ : Decode ε β} {mk : τ → β → α} (h₁ : IsCodecAll push₁ read₁) (h₂ : IsCodecAll push₂ read₂)
    (hp : ∀ a c, D a ∧ Emits (push a) c ↔
      ∃ t b, mk t b = a ∧ Emits (push₁ t >>= fun _ => push₂ b) c) :
    IsCodec D push (read₁ >>= fun t => read₂ >>= fun b => pure (mk t b)) := by
  have h : IsCodec D push ((read₁ >>= fun t => read₂ >>= fun b => pure (t, b)) >>= fun p =>
      pure (mk p.1 p.2)) :=
    (h₁.prod h₂).last fun a c => (hp a c).trans (by simp)
  simpa using h

end IsCodec

/-! ## Counted loops -/

/-- `for _ in 0..count { state = step(state)? }`. -/
def loop (step : σ → Decode ε σ) : Nat → σ → Decode ε σ
  | 0, s => pure s
  | count + 1, s => step s >>= fun s' => loop step count s'

/-- Every item of the list is accepted in the state its predecessors lead to. -/
def AcceptsAll (ok : σ → α → Prop) (add : σ → α → σ) : σ → List α → Prop
  | _, [] => True
  | s, x :: xs => ok s x ∧ AcceptsAll ok add (add s x) xs

/-- A counted loop whose body reads one item reads exactly the lists of `count` accepted items. -/
theorem loop_run_iff {step : σ → Decode ε σ} {push : α → Encode ε Unit} {ok : σ → α → Prop}
    {add : σ → α → σ}
    (hstep : ∀ s s' r r', (step s).run r = .ok (s', r') ↔
      ∃ x c, ok s x ∧ s' = add s x ∧ Emits (push x) c ∧ Consumes r c r')
    (count : Nat) (s s' : σ) (r r' : Reader) :
    (loop step count s).run r = .ok (s', r') ↔
      ∃ xs c, xs.length = count ∧ AcceptsAll ok add s xs ∧ s' = xs.foldl add s ∧
        Emits (xs.forM push) c ∧ Consumes r c r' := by
  induction count generalizing s r with
  | zero =>
    rw [loop, run_pure_iff]
    constructor
    · rintro ⟨rfl, rfl⟩
      exact ⟨[], [], rfl, trivial, rfl, emits_pure.mpr rfl, consumes_nil.mpr rfl⟩
    · rintro ⟨xs, c, hlen, -, hs, he, hc⟩
      rw [List.length_eq_zero_iff] at hlen
      subst hlen
      have hnil : c = [] := emits_pure.mp he
      rw [hnil, consumes_nil] at hc
      exact ⟨hs.symm, hc.symm⟩
  | succ count ih =>
    rw [loop, run_bind_iff]
    constructor
    · rintro ⟨s₁, r₁, h₁, h₂⟩
      obtain ⟨x, c₁, hok, rfl, he₁, hc₁⟩ := (hstep _ _ _ _).mp h₁
      obtain ⟨xs, c₂, hlen, hall, hs, he₂, hc₂⟩ := (ih _ _).mp h₂
      refine ⟨x :: xs, c₁ ++ c₂, by rw [List.length_cons, hlen], ⟨hok, hall⟩, hs, ?_, ?_⟩
      · exact emits_bind.mpr ⟨c₁, c₂, he₁, he₂, rfl⟩
      · exact consumes_append.mpr ⟨r₁, hc₁, hc₂⟩
    · rintro ⟨xs, c, hlen, hall, hs, he, hc⟩
      cases xs with
      | nil => cases hlen
      | cons x xs =>
        obtain ⟨c₁, c₂, he₁, he₂, rfl⟩ := emits_bind.mp he
        obtain ⟨r₁, hc₁, hc₂⟩ := consumes_append.mp hc
        exact ⟨add s x, r₁, (hstep _ _ _ _).mpr ⟨x, c₁, hall.1, rfl, he₁, hc₁⟩,
          (ih _ _).mpr ⟨xs, c₂, by simpa using hlen, hall.2, hs, he₂, hc₂⟩⟩

/-- A counted loop as a format: the value is made of `items`, accepted one after the other. -/
theorem loop_codec {D : β → Prop} {step : σ → Decode ε σ} {push : α → Encode ε Unit}
    {ok : σ → α → Prop} {add : σ → α → σ} {items : β → List α} {out : σ → β} {s₀ : σ}
    (hstep : ∀ s s' r r', (step s).run r = .ok (s', r') ↔
      ∃ x c, ok s x ∧ s' = add s x ∧ Emits (push x) c ∧ Consumes r c r')
    (hitems : ∀ xs b, AcceptsAll ok add s₀ xs ∧ out (xs.foldl add s₀) = b ↔ D b ∧ items b = xs)
    (count : Nat) :
    IsCodec (fun b => D b ∧ (items b).length = count) (fun b => (items b).forM push)
      (loop step count s₀ >>= fun s => pure (out s)) where
  read_of_push := by
    rintro b c r r' ⟨hd, hlen⟩ he hc
    obtain ⟨hall, hout⟩ := (hitems (items b) b).mpr ⟨hd, rfl⟩
    exact run_bind_iff.mpr ⟨_, r', (loop_run_iff hstep _ _ _ _ _).mpr
      ⟨items b, c, hlen, hall, rfl, he, hc⟩, run_pure_iff.mpr ⟨hout, rfl⟩⟩
  push_of_read := by
    intro b r r' hr
    obtain ⟨s, r₁, hr₁, hr₂⟩ := run_bind_iff.mp hr
    obtain ⟨rfl, rfl⟩ := run_pure_iff.mp hr₂
    obtain ⟨xs, c, hlen, hall, rfl, he, hc⟩ := (loop_run_iff hstep _ _ _ _ _).mp hr₁
    obtain ⟨hd, hxs⟩ := (hitems xs _).mp ⟨hall, rfl⟩
    rw [hxs]
    exact ⟨⟨hd, hlen⟩, c, he, hc⟩

/-- A loop that rejects a key at or below the previous one accepts the strictly increasing lists. -/
theorem acceptsAll_increasing {κ : Type} [LinearOrder κ] (key : α → κ) (add : σ → α → σ) (s : σ)
    (previous : Option κ) (xs : List α) :
    AcceptsAll (fun (st : σ × Option κ) x => ¬ st.2.any (key x ≤ ·))
      (fun st x => (add st.1 x, some (key x))) (s, previous) xs ↔
      (∀ p ∈ previous, ∀ x ∈ xs, p < key x) ∧ xs.Pairwise fun x y => key x < key y := by
  induction xs generalizing s previous with
  | nil => simp [AcceptsAll]
  | cons x xs ih =>
    rw [AcceptsAll, ih, List.pairwise_cons]
    simp only [Option.any_eq_true, decide_eq_true_eq, not_exists, not_and, not_le,
      Option.mem_def, Option.some.injEq, forall_eq', List.mem_cons, forall_eq_or_imp]
    constructor
    · rintro ⟨hx, hxs, hpair⟩
      exact ⟨fun p hp => ⟨hx p hp, fun y hy => (hx p hp).trans (hxs y hy)⟩, hxs, hpair⟩
    · rintro ⟨hp, hxs, hpair⟩
      exact ⟨fun p hp' => (hp p hp').1, hxs, hpair⟩

theorem foldl_fst {κ : Type} (key : α → κ) (add : σ → α → σ) (s : σ) (previous : Option κ)
    (xs : List α) :
    (xs.foldl (fun (st : σ × Option κ) x => (add st.1 x, some (key x))) (s, previous)).1 =
      xs.foldl add s := by
  induction xs generalizing s previous with
  | nil => rfl
  | cons x xs ih => exact ih _ _

end Codec
