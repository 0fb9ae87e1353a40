import Busd.Protocol.Fields

/-!
# Header, capability and filter blocks

Counted blocks in strictly increasing order: by name for headers and capabilities, by encoding for
filters. The reader's comparison with the previous item makes the accepted blocks exactly the ones
the encoder writes.
-/

namespace Busd.Protocol

open Words Codec

/-! ## Named entries -/

section Entries

variable {α : Type} {pushValue : α → Encoder Unit} {value : Decoder α}

theorem entriesStep_run_iff (hvalue : IsCodecAll pushValue value) (blockName : String)
    (state state' : OrdMap String α × Option String) (r r' : Codec.Reader) :
    (Reader.entriesStep value blockName state).run r = .ok (state', r') ↔
      ∃ (x : String × α) (c : List UInt8), (¬ state.2.any (x.1 ≤ ·)) ∧
        state' = (state.1.insert x.1 x.2, some x.1) ∧
        Emits (pushName x.1 >>= fun _ => pushValue x.2) c ∧ Consumes r c r' := by
  unfold Reader.entriesStep
  constructor
  · intro h
    obtain ⟨name, r₁, hname, h⟩ := run_bind_iff.mp h
    obtain ⟨⟨⟩, r₂, hle, h⟩ := run_bind_iff.mp h
    obtain ⟨v, r₃, hv, h⟩ := run_bind_iff.mp h
    obtain ⟨rfl, rfl⟩ := run_pure_iff.mp h
    obtain ⟨hok, rfl⟩ := run_lift_iff.mp hle
    obtain ⟨-, c₁, he₁, hc₁⟩ := name_codec.push_of_read hname
    obtain ⟨-, c₂, he₂, hc₂⟩ := hvalue.push_of_read hv
    exact ⟨(name, v), c₁ ++ c₂, ensure_eq_ok.mp hok, rfl, emits_bind.mpr ⟨c₁, c₂, he₁, he₂, rfl⟩,
      consumes_append.mpr ⟨r₁, hc₁, hc₂⟩⟩
  · rintro ⟨⟨name, v⟩, c, hle, rfl, he, hc⟩
    obtain ⟨c₁, c₂, he₁, he₂, rfl⟩ := emits_bind.mp he
    obtain ⟨r₁, hc₁, hc₂⟩ := consumes_append.mp hc
    refine run_bind_iff.mpr ⟨name, r₁, name_codec.read_of_push trivial he₁ hc₁, ?_⟩
    refine run_bind_iff.mpr ⟨(), r₁, run_lift_iff.mpr ⟨ensure_eq_ok.mpr hle, rfl⟩, ?_⟩
    exact run_bind_iff.mpr
      ⟨v, r', hvalue.read_of_push trivial he₂ hc₂, run_pure_iff.mpr ⟨rfl, rfl⟩⟩

/-- The accepted lists of entries are the entries of the map they build. -/
theorem acceptsAll_entries (xs : List (String × α)) (m : OrdMap String α) :
    AcceptsAll (fun (st : OrdMap String α × Option String) (x : String × α) => ¬ st.2.any (x.1 ≤ ·))
        (fun st x => (st.1.insert x.1 x.2, some x.1)) (∅, none) xs ∧
      (xs.foldl (fun (st : OrdMap String α × Option String) (x : String × α) =>
        (st.1.insert x.1 x.2, some x.1)) (∅, none)).1 = m ↔ True ∧ m.entries = xs := by
  rw [acceptsAll_increasing Prod.fst fun (m : OrdMap String α) x => m.insert x.1 x.2,
    foldl_fst Prod.fst fun (m : OrdMap String α) x => m.insert x.1 x.2, true_and]
  constructor
  · rintro ⟨⟨-, hxs⟩, rfl⟩
    rw [OrdMap.foldl_insert_entries (fun e he => absurd he List.not_mem_nil) hxs]
    rfl
  · rintro rfl
    refine ⟨⟨fun p hp => absurd hp (by simp), m.sorted⟩, OrdMap.ext_entries ?_⟩
    rw [OrdMap.foldl_insert_entries (fun e he => absurd he List.not_mem_nil) m.sorted]
    rfl

theorem entries_codec (hvalue : IsCodecAll pushValue value) (maximum : Nat)
    (countName blockName : String) :
    IsCodecAll (pushEntries pushValue maximum countName)
      (Reader.entries value maximum countName blockName) := by
  refine IsCodec.guarded (IsCodec.derived u16_codec fun count => ?_)
  refine IsCodec.check
    (loop_codec (entriesStep_run_iff hvalue blockName) acceptsAll_entries count.toNat) fun m => ?_
  simp only [true_and, ensure_eq_ok, tryU16_eq_ok]
  unfold OrdMap.size
  omega

end Entries

theorem headers_codec (limits : FrameLimits) :
    IsCodecAll (fun headers => pushHeaders headers limits) (Reader.headers limits) :=
  entries_codec value_codec _ _ _

theorem unit_codec : IsCodecAll (fun _ => pure () : Unit → Encoder Unit) (pure ()) :=
  IsCodec.pure (fun _ => by simp) fun _ => emits_pure

theorem capabilities_codec (limits : FrameLimits) :
    IsCodecAll (fun capabilities => pushCapabilities capabilities limits)
      (Reader.capabilities limits) :=
  entries_codec unit_codec _ _ _

/-! ## Filters -/

def HeaderFilter.tag : HeaderFilter → UInt8
  | .doesExist _ => 0
  | .doesNotExist _ => 1
  | .equal .. => 2
  | .notEqual .. => 3
  | .hasPrefix .. => 4

def HeaderFilter.name : HeaderFilter → String
  | .doesExist name | .doesNotExist name | .equal name _ | .notEqual name _ | .hasPrefix name _ => name

def HeaderFilter.payload : HeaderFilter → Encoder Unit
  | .doesExist _ | .doesNotExist _ => pure ()
  | .equal _ value | .notEqual _ value | .hasPrefix _ value => pushValue value

theorem filter_codec : IsCodecAll pushFilter Reader.filter := by
  have h : IsCodecAll (fun f : HeaderFilter => push f.tag >>= fun _ => pushName f.name >>= fun _ =>
      f.payload) Reader.filter := by
    refine IsCodec.bind HeaderFilter.tag u8_codec fun tag =>
      IsCodec.bind HeaderFilter.name name_codec fun name => ?_
    split
    · exact IsCodec.pure (fun f => by cases f <;> simp [HeaderFilter.tag, HeaderFilter.name])
        fun _ => emits_pure
    · exact IsCodec.pure (fun f => by cases f <;> simp [HeaderFilter.tag, HeaderFilter.name])
        fun _ => emits_pure
    · exact value_codec.last fun f c => by
        cases f <;> simp [HeaderFilter.tag, HeaderFilter.name, HeaderFilter.payload, eq_comm]
    · exact value_codec.last fun f c => by
        cases f <;> simp [HeaderFilter.tag, HeaderFilter.name, HeaderFilter.payload, eq_comm]
    · exact value_codec.last fun f c => by
        cases f <;> simp [HeaderFilter.tag, HeaderFilter.name, HeaderFilter.payload, eq_comm]
    · refine IsCodec.fail fun f hf => ?_
      cases f <;> simp_all [HeaderFilter.tag]
  refine h.congr (fun _ => Iff.rfl) fun f _ c => ?_
  cases f <;> simp [pushFilter, HeaderFilter.tag, HeaderFilter.name, HeaderFilter.payload, emits_bind]

def filterBytes (filter : HeaderFilter) : List UInt8 :=
  match written (pushFilter filter) with
  | .ok bytes => bytes
  | .error _ => []

theorem written_eq_ok {w : Encoder Unit} {c : List UInt8} : written w = .ok c ↔ Emits w c := by
  unfold written Emits
  cases w.run with
  | error e => simp [Except.map]
  | ok p =>
    obtain ⟨⟨⟩, d⟩ := p
    simp [Except.map]

theorem filterBytes_eq {f : HeaderFilter} {c : List UInt8} (h : Emits (pushFilter f) c) :
    filterBytes f = c := by
  unfold filterBytes
  rw [written_eq_ok.mpr h]

theorem filtersStep_run_iff (state state' : List HeaderFilter × Option (List UInt8))
    (r r' : Codec.Reader) :
    (Reader.filtersStep state).run r = .ok (state', r') ↔
      ∃ (f : HeaderFilter) (c : List UInt8), (¬ state.2.any (filterBytes f ≤ ·)) ∧
        state' = (state.1 ++ [f], some (filterBytes f)) ∧ Emits (pushFilter f) c ∧
        Consumes r c r' := by
  unfold Reader.filtersStep
  constructor
  · intro h
    obtain ⟨start, r₁, hstart, h⟩ := run_bind_iff.mp h
    obtain ⟨rfl, rfl⟩ := run_get_iff.mp hstart
    obtain ⟨f, r₂, hf, h⟩ := run_bind_iff.mp h
    obtain ⟨reader, r₃, hreader, h⟩ := run_bind_iff.mp h
    obtain ⟨rfl, rfl⟩ := run_get_iff.mp hreader
    obtain ⟨⟨⟩, r₄, hle, h⟩ := run_bind_iff.mp h
    obtain ⟨hok, rfl⟩ := run_lift_iff.mp hle
    obtain ⟨rfl, rfl⟩ := run_pure_iff.mp h
    obtain ⟨-, c, he, hc⟩ := filter_codec.push_of_read hf
    rw [hc.slice, ← filterBytes_eq he] at hok ⊢
    exact ⟨f, c, ensure_eq_ok.mp hok, rfl, he, hc⟩
  · rintro ⟨f, c, hle, rfl, he, hc⟩
    refine run_bind_iff.mpr ⟨r, r, run_get_iff.mpr ⟨rfl, rfl⟩, ?_⟩
    refine run_bind_iff.mpr ⟨f, r', filter_codec.read_of_push trivial he hc, ?_⟩
    refine run_bind_iff.mpr ⟨r', r', run_get_iff.mpr ⟨rfl, rfl⟩, ?_⟩
    rw [filterBytes_eq he] at hle ⊢
    refine run_bind_iff.mpr ⟨(), r', run_lift_iff.mpr ⟨ensure_eq_ok.mpr ?_, rfl⟩, ?_⟩
    · rw [hc.slice]
      exact hle
    · rw [hc.slice]
      exact run_pure_iff.mpr ⟨rfl, rfl⟩

theorem foldl_concat_filters (xs ys : List HeaderFilter) :
    ys.foldl (fun l f => l ++ [f]) xs = xs ++ ys := by
  induction ys generalizing xs with
  | nil => exact (List.append_nil xs).symm
  | cons y ys ih => rw [List.foldl_cons, ih, List.append_assoc, List.singleton_append]

/-- The accepted lists of filters are those with strictly increasing encodings. -/
theorem acceptsAll_filters (xs fs : List HeaderFilter) :
    AcceptsAll
        (fun (st : List HeaderFilter × Option (List UInt8)) f => ¬ st.2.any (filterBytes f ≤ ·))
        (fun st f => (st.1 ++ [f], some (filterBytes f))) ([], none) xs ∧
      (xs.foldl (fun (st : List HeaderFilter × Option (List UInt8)) f =>
        (st.1 ++ [f], some (filterBytes f))) ([], none)).1 = fs ↔
      (fs.Pairwise fun f g => filterBytes f < filterBytes g) ∧ fs = xs := by
  rw [acceptsAll_increasing filterBytes fun (l : List HeaderFilter) f => l ++ [f],
    foldl_fst filterBytes fun (l : List HeaderFilter) f => l ++ [f], foldl_concat_filters, List.nil_append]
  constructor
  · rintro ⟨⟨-, hxs⟩, rfl⟩
    exact ⟨hxs, rfl⟩
  · rintro ⟨hfs, rfl⟩
    exact ⟨⟨fun p hp => absurd hp (by simp), hfs⟩, rfl⟩

/-- `windows(2)` sees every pair out of order. -/
theorem zip_tail_sorted (l : List (List UInt8)) :
    (¬ (l.zip l.tail).any fun pair => pair.2 ≤ pair.1) ↔ l.Pairwise (· < ·) := by
  rw [← List.isChain_iff_pairwise]
  induction l with
  | nil => simp
  | cons a l ih =>
    cases l with
    | nil => simp
    | cons b l =>
      rw [List.isChain_cons_cons, ← ih]
      simp

theorem emits_forM_tell {encoded : List (List UInt8)} {c : List UInt8} :
    Emits (encoded.forM tell : Encoder Unit) c ↔ c = encoded.flatten := by
  have hid : ∀ a c, Emits (tell a : Encoder Unit) c → id a = c := fun a c h => (emits_tell.mp h).symm
  refine (emits_forM hid encoded c).trans ?_
  rw [List.map_id]
  exact and_iff_right fun a _ => emits_tell.mpr rfl

/-- What `push_filters` writes, without the copies of the encodings. -/
theorem emits_pushFilters {fs : List HeaderFilter} {limits : FrameLimits} {c : List UInt8} :
    Emits (pushFilters fs limits) c ↔
      Emits (do
        liftM (ensure (fs.length ≤ limits.maximumFilters) (CodecError.limitExceeded "filter count"))
        liftM (ensure (fs.Pairwise fun f g => filterBytes f < filterBytes g)
          (CodecError.nonCanonical "filters"))
        let count ← tryU16 fs.length "filter count"
        pushU16 count
        fs.forM pushFilter : Encoder Unit) c := by
  have hwritten : ∀ (f : HeaderFilter) c, written (pushFilter f) = .ok c → filterBytes f = c :=
    fun f c h => filterBytes_eq (written_eq_ok.mp h)
  unfold pushFilters
  rw [emits_check_bind, emits_check_bind, emits_check_bind, emits_lift_bind]
  refine and_congr_right fun _ => ?_
  constructor
  · rintro ⟨encoded, hmap, h⟩
    obtain ⟨hall, rfl⟩ := (mapM_eq_ok hwritten fs encoded).mp hmap
    obtain ⟨hsorted, h⟩ := emits_check_bind.mp h
    rw [ensure_eq_ok, zip_tail_sorted, List.pairwise_map] at hsorted
    obtain ⟨k, hk, h⟩ := emits_lift_bind.mp h
    rw [List.length_map] at hk
    obtain ⟨c₁, c₂, h₁, h₂, rfl⟩ := emits_bind.mp h
    refine ⟨ensure_eq_ok.mpr hsorted, emits_lift_bind.mpr ⟨k, hk, emits_bind.mpr ⟨c₁, c₂, h₁, ?_, rfl⟩⟩⟩
    exact (emits_forM (fun _ _ => filterBytes_eq) fs c₂).mpr
      ⟨fun f hf => written_eq_ok.mp (hall f hf), emits_forM_tell.mp h₂⟩
  · rintro ⟨hsorted, h⟩
    obtain ⟨k, hk, h⟩ := emits_lift_bind.mp h
    obtain ⟨c₁, c₂, h₁, h₂, rfl⟩ := emits_bind.mp h
    obtain ⟨hall, hc₂⟩ := (emits_forM (fun _ _ => filterBytes_eq) fs c₂).mp h₂
    refine ⟨fs.map filterBytes,
      (mapM_eq_ok hwritten fs _).mpr ⟨fun f hf => written_eq_ok.mpr (hall f hf), rfl⟩, ?_⟩
    rw [emits_check_bind, ensure_eq_ok, zip_tail_sorted, List.pairwise_map, List.length_map]
    exact ⟨ensure_eq_ok.mp hsorted, emits_lift_bind.mpr
      ⟨k, hk, emits_bind.mpr ⟨c₁, c₂, h₁, emits_forM_tell.mpr hc₂, rfl⟩⟩⟩

theorem filters_codec (limits : FrameLimits) :
    IsCodecAll (fun filters => pushFilters filters limits) (Reader.filters limits) := by
  refine IsCodec.congr ?_ (fun _ => Iff.rfl) fun fs _ c => emits_pushFilters
  refine IsCodec.guarded (IsCodec.guarded (IsCodec.derived u16_codec fun count => ?_))
  refine IsCodec.check
    (loop_codec filtersStep_run_iff acceptsAll_filters count.toNat) fun fs => ?_
  simp only [true_and, ensure_eq_ok, tryU16_eq_ok]
  constructor
  · rintro ⟨⟨hle, hsorted⟩, hlen⟩
    exact ⟨⟨hsorted, hlen⟩, hlen ▸ hle⟩
  · rintro ⟨⟨hsorted, hlen⟩, hle⟩
    exact ⟨⟨hlen ▸ hle, hsorted⟩, hlen⟩

end Busd.Protocol
