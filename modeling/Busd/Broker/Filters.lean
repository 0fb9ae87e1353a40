import Busd.Broker.State
import Busd.Protocol.Blocks

/-!
# The order of filters

`push_filters` accepts a list of filters only in the order of their encodings, which are compared as byte strings.
A client has to sort what the application gave it, and the broker then asks all filters of the sorted list.

* `HeaderFilter.Encodable` : the filters that have an encoding;
* `filterBytes_injective` : different filters have different encodings;
* `accepts_iff` : what `push_filters` accepts;
* `filter_order_canonical` : distinct filters have exactly one accepted order, which matches the same headers.
-/

namespace Busd.Protocol

open Words Codec

/-! ## Encodings -/

def HeaderFilter.value? : HeaderFilter → Option HeaderValue
  | .doesExist _ | .doesNotExist _ => none
  | .equal _ value | .notEqual _ value | .hasPrefix _ value => some value

def HeaderValue.Encodable : HeaderValue → Prop
  | .text value => (utf8Bytes value).length ≤ 65535
  | .binary value => value.length ≤ 4294967295
  | .unsigned _ | .boolean _ => True

structure HeaderFilter.Encodable (filter : HeaderFilter) : Prop where
  name : validateName filter.name = .ok ()
  value : ∀ value, filter.value? = some value → value.Encodable

theorem emits_pushText {value : String} (h : (utf8Bytes value).length ≤ 65535) :
    ∃ c, Emits (pushText value) c := by
  have hlength : tryU16 (utf8Bytes value).length "text length" = .ok (UInt16.ofNat (utf8Bytes value).length) :=
    if_pos (by omega)
  exact ⟨_, emits_lift_bind.mpr ⟨_, hlength, emits_bind.mpr ⟨_, _, rfl, rfl, rfl⟩⟩⟩

theorem emits_pushBinary {value : List UInt8} (h : value.length ≤ 4294967295) : ∃ c, Emits (pushBinary value) c := by
  have hlength : tryU32 value.length "binary length" = .ok (UInt32.ofNat value.length) := if_pos (by omega)
  exact ⟨_, emits_lift_bind.mpr ⟨_, hlength, emits_bind.mpr ⟨_, _, rfl, rfl, rfl⟩⟩⟩

theorem emits_pushName {name : String} (h : validateName name = .ok ()) : ∃ c, Emits (pushName name) c := by
  have hlength : (utf8Bytes name).length ≤ maxNameLength := by
    unfold validateName at h
    dsimp only at h
    split_ifs at h with hinvalid
    simp only [Bool.or_eq_true, decide_eq_true_eq, not_or, not_lt] at hinvalid
    exact hinvalid.1.2
  obtain ⟨c, hc⟩ := emits_pushText (hlength.trans (by decide))
  exact ⟨c, emits_check_bind.mpr ⟨by rw [h]; rfl, hc⟩⟩

theorem emits_pushValue {value : HeaderValue} (h : value.Encodable) : ∃ c, Emits (pushValue value) c := by
  cases value with
  | text value =>
    obtain ⟨c, hc⟩ := emits_pushText h
    exact ⟨_, emits_bind.mpr ⟨_, c, rfl, hc, rfl⟩⟩
  | unsigned value => exact ⟨_, emits_bind.mpr ⟨_, _, rfl, rfl, rfl⟩⟩
  | boolean value => exact ⟨_, emits_bind.mpr ⟨_, _, rfl, rfl, rfl⟩⟩
  | binary value =>
    obtain ⟨c, hc⟩ := emits_pushBinary h
    exact ⟨_, emits_bind.mpr ⟨_, c, rfl, hc, rfl⟩⟩

theorem HeaderFilter.Encodable.emits {filter : HeaderFilter} (h : filter.Encodable) :
    Emits (pushFilter filter) (filterBytes filter) := by
  obtain ⟨c, hname⟩ := emits_pushName h.name
  have hpush : ∃ c, Emits (pushFilter filter) c := by
    cases filter with
    | doesExist name => exact ⟨_, emits_bind.mpr ⟨_, c, rfl, hname, rfl⟩⟩
    | doesNotExist name => exact ⟨_, emits_bind.mpr ⟨_, c, rfl, hname, rfl⟩⟩
    | equal name value =>
      obtain ⟨d, hvalue⟩ := emits_pushValue (h.value value rfl)
      exact ⟨_, emits_bind.mpr ⟨_, _, rfl, emits_bind.mpr ⟨c, d, hname, hvalue, rfl⟩, rfl⟩⟩
    | notEqual name value =>
      obtain ⟨d, hvalue⟩ := emits_pushValue (h.value value rfl)
      exact ⟨_, emits_bind.mpr ⟨_, _, rfl, emits_bind.mpr ⟨c, d, hname, hvalue, rfl⟩, rfl⟩⟩
    | hasPrefix name value =>
      obtain ⟨d, hvalue⟩ := emits_pushValue (h.value value rfl)
      exact ⟨_, emits_bind.mpr ⟨_, _, rfl, emits_bind.mpr ⟨c, d, hname, hvalue, rfl⟩, rfl⟩⟩
  obtain ⟨d, hd⟩ := hpush
  rwa [filterBytes_eq hd]

/-- Different filters have different encodings: a reader gets the filter back. -/
theorem filterBytes_injective {f g : HeaderFilter} (hf : f.Encodable) (hg : g.Encodable)
    (h : filterBytes f = filterBytes g) : f = g := by
  have hemits := hf.emits
  rw [h] at hemits
  exact filter_codec.inj trivial trivial hemits hg.emits

/-! ## Accepted orders -/

def Accepts (limits : FrameLimits) (filters : List HeaderFilter) : Prop :=
  ∃ bytes, Emits (pushFilters filters limits) bytes

/-- Within the limits, the accepted lists of encodable filters are those with increasing encodings. -/
theorem accepts_iff {limits : FrameLimits} {filters : List HeaderFilter} (hvalid : ∀ f ∈ filters, f.Encodable)
    (hlimit : filters.length ≤ limits.maximumFilters) (hcount : filters.length ≤ 65535) :
    Accepts limits filters ↔ filters.Pairwise fun f g => filterBytes f < filterBytes g := by
  have hlength : tryU16 filters.length "filter count" = .ok (UInt16.ofNat filters.length) := if_pos (by omega)
  have hall : Emits (filters.forM pushFilter) (filters.map filterBytes).flatten :=
    (emits_forM (fun _ _ => filterBytes_eq) filters _).mpr ⟨fun f hf => (hvalid f hf).emits, rfl⟩
  unfold Accepts
  simp only [emits_pushFilters, emits_check_bind, ensure_eq_ok]
  refine ⟨?_, fun h => ?_⟩
  · rintro ⟨_, -, h, -⟩
    exact h
  · exact ⟨_, hlimit, h, emits_lift_bind.mpr ⟨_, hlength, emits_bind.mpr ⟨_, _, rfl, hall, rfl⟩⟩⟩

end Busd.Protocol

namespace Busd.Broker

open Words Codec Busd.Protocol

/-- Filters are asked all together, so their order does not matter. -/
theorem filtersMatch_perm {filters filters' : List HeaderFilter} (h : filters.Perm filters') (headers : Headers) :
    filtersMatch filters headers = filtersMatch filters' headers :=
  h.all_eq

/-- Of the orders of distinct filters exactly one is accepted on the wire, and it matches the same headers as the
list that was given. -/
theorem filter_order_canonical (limits : FrameLimits) (filters : List HeaderFilter) (hnodup : filters.Nodup)
    (hvalid : ∀ f ∈ filters, f.Encodable) (hlimit : filters.length ≤ limits.maximumFilters)
    (hcount : filters.length ≤ 65535) :
    (∃! sorted : List HeaderFilter, sorted.Perm filters ∧ Accepts limits sorted) ∧
      ∀ sorted : List HeaderFilter, sorted.Perm filters → Accepts limits sorted →
        ∀ headers, filtersMatch sorted headers = filtersMatch filters headers := by
  refine ⟨?_, fun sorted hperm _ headers => filtersMatch_perm hperm headers⟩
  have haccepts : ∀ sorted : List HeaderFilter, sorted.Perm filters →
      (Accepts limits sorted ↔ sorted.Pairwise fun f g => filterBytes f < filterBytes g) := by
    intro sorted hperm
    have hlength := hperm.length_eq
    exact accepts_iff (fun f hf => hvalid f (hperm.mem_iff.mp hf)) (hlength ▸ hlimit) (hlength ▸ hcount)
  have hunique : ∃! sorted : List HeaderFilter, sorted.Perm filters ∧
      sorted.Pairwise fun f g => filterBytes f < filterBytes g :=
    List.existsUnique_perm_increasing hnodup fun f hf g hg h => filterBytes_injective (hvalid f hf) (hvalid g hg) h
  obtain ⟨sorted, ⟨hperm, hincreasing⟩, honly⟩ := hunique
  refine ⟨sorted, ⟨hperm, (haccepts sorted hperm).mpr hincreasing⟩, fun other hother => ?_⟩
  exact honly other ⟨hother.1, (haccepts other hother.1).mp hother.2⟩

/-- Two filters whose derived order is not the order of their encodings: a longer name has a greater length field,
whatever its first letter. -/
def longNameFirst : List HeaderFilter := [.doesExist "aa", .doesExist "b"]

theorem filter_order_canonical_longNameFirst :
    (pushFilters longNameFirst .default).run = .error (.nonCanonical "filters") ∧
      ∃! sorted : List HeaderFilter, sorted.Perm longNameFirst ∧ Accepts .default sorted := by
  refine ⟨by decide +kernel, ?_⟩
  have hvalid : ∀ f ∈ longNameFirst, f.Encodable := by
    intro f hf
    rcases List.mem_cons.mp hf with rfl | hf
    · exact ⟨by decide +kernel, fun _ h => by cases h⟩
    · rw [List.mem_singleton.mp hf]
      exact ⟨by decide +kernel, fun _ h => by cases h⟩
  exact (filter_order_canonical .default longNameFirst (by decide) hvalid (by decide) (by decide)).1

end Busd.Broker
