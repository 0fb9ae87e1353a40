import Busd.Daemon.Forwarding
import Busd.Daemon.Serve

/-!
# What one failing delivery does to the others

The events of one call belong to unrelated senders, and they are gone from the broker when they are dispatched.
`dispatch_delivery_events` gives up at the first event it cannot encode, the first connection it cannot clone and
the first send that fails on an open connection; whatever was still to be sent is lost.

* `duePackets` : what an event owes to those of its recipients that can be reached;
* `dispatchEvent_eq_due_iff` : when one event is sent to all of them;
* `dispatch_isolated_iff` : when every event of a list is;
* `run_dispatch` : the clock thread does the same, one event a step.
-/

namespace Busd.Daemon

open Words Machine Busd.Protocol Busd.Policy Busd.Broker

variable {sessions : OrdMap PeerId Connection} {limits : FrameLimits} {packet : List UInt8}
  {event : DeliveryEvent} {io : DispatchIo}

/-! ## What is owed -/

def outputsOf (sessions : OrdMap PeerId Connection) (event : DeliveryEvent) : List (PeerId × Connection) :=
  sessions.entries.filter fun e => (dispatched event).1.contains e.1

theorem mem_outputsOf {e : PeerId × Connection} :
    e ∈ outputsOf sessions event ↔ sessions.get? e.1 = some e.2 ∧ e.1 ∈ (dispatched event).1 := by
  unfold outputsOf
  rw [List.mem_filter, List.contains_iff_mem]
  exact and_congr_left fun _ => OrdMap.mem_entries_iff

theorem outputsOf_sorted : (outputsOf sessions event).Pairwise fun a b => a.1 < b.1 :=
  sessions.sorted.filter _

/-- A connection that can be cloned and takes the packet. -/
def reachable (io : DispatchIo) (id : PeerId) : Bool := io.cloned id && io.sent id = .delivered

/-- The packets for all recipients that are present and can be reached, if the frame encodes. -/
def duePackets (sessions : OrdMap PeerId Connection) (limits : FrameLimits) (event : DeliveryEvent)
    (io : DispatchIo) : List (Connection × List UInt8) :=
  match (dispatched event).2.encodeWithLimits limits with
  | .error _ => []
  | .ok packet =>
    ((outputsOf sessions event).filter fun e => reachable io e.1).map fun e => (e.2, packet)

/-- The frame encodes, and the recipient is present and can be reached. -/
structure Due (sessions : OrdMap PeerId Connection) (limits : FrameLimits) (event : DeliveryEvent)
    (io : DispatchIo) (id : PeerId) : Prop where
  encodes : ∃ packet, (dispatched event).2.encodeWithLimits limits = .ok packet
  recipient : id ∈ (dispatched event).1
  present : sessions.contains id = true
  reachable : reachable io id = true

/-- The event does not encode, or one of its recipients that are present fails other than by a closed connection. -/
def Fails (sessions : OrdMap PeerId Connection) (limits : FrameLimits) (event : DeliveryEvent) (io : DispatchIo) :
    Prop :=
  (∃ error, (dispatched event).2.encodeWithLimits limits = .error error) ∨
    ∃ id ∈ (dispatched event).1, sessions.contains id = true ∧ (io.cloned id = false ∨ io.sent id = .failed)

/-- Another recipient of the same event stands in the way: one whose connection cannot be cloned, or a
lower-numbered one to which sending fails. -/
def Blocked (sessions : OrdMap PeerId Connection) (event : DeliveryEvent) (io : DispatchIo) (id : PeerId) : Prop :=
  ∃ other ∈ (dispatched event).1, sessions.contains other = true ∧
    (io.cloned other = false ∨ other < id ∧ io.sent other = .failed)

/-! ## One event -/

theorem sendAll_ok_iff {sent : PeerId → Sent} (outputs : List (PeerId × Connection)) :
    (sendAll packet sent outputs).2 = .ok () ↔ ∀ e ∈ outputs, sent e.1 ≠ .failed := by
  induction outputs with
  | nil => simp [sendAll]
  | cons e outputs ih =>
    rw [List.forall_mem_cons, ← ih]
    cases hsent : sent e.1 with
    | delivered => simp [sendAll, hsent]
    | closed => simp [sendAll, hsent]
    | failed => simp [sendAll, hsent]

/-- The loop over sorted outputs serves everybody exactly if nobody who would take the packet comes after a failure. -/
theorem sendAll_eq_iff {sent : PeerId → Sent} {outputs : List (PeerId × Connection)}
    (hsorted : outputs.Pairwise fun a b => a.1 < b.1) :
    (sendAll packet sent outputs).1 =
        (outputs.filter fun e => sent e.1 = .delivered).map (fun e => (e.2, packet)) ↔
      ∀ a ∈ outputs, ∀ b ∈ outputs, a.1 < b.1 → sent a.1 = .failed → sent b.1 ≠ .delivered := by
  induction outputs with
  | nil => simp [sendAll]
  | cons e outputs ih =>
    obtain ⟨hfirst, hrest⟩ := List.pairwise_cons.mp hsorted
    -- pairs with the first output count only if it is the one that fails
    have hpairs : (∀ a ∈ e :: outputs, ∀ b ∈ e :: outputs, a.1 < b.1 → sent a.1 = .failed → sent b.1 ≠ .delivered) ↔
        (sent e.1 = .failed → ∀ b ∈ outputs, sent b.1 ≠ .delivered) ∧
          ∀ a ∈ outputs, ∀ b ∈ outputs, a.1 < b.1 → sent a.1 = .failed → sent b.1 ≠ .delivered := by
      refine ⟨fun h => ⟨fun hfailed b hb => ?_, fun a ha b hb => ?_⟩, fun h a ha b hb hlt hfailed => ?_⟩
      · exact h e List.mem_cons_self b (List.mem_cons_of_mem _ hb) (hfirst b hb) hfailed
      · exact h a (List.mem_cons_of_mem _ ha) b (List.mem_cons_of_mem _ hb)
      · rcases List.mem_cons.mp ha with ha' | ha'
        · rcases List.mem_cons.mp hb with hb' | hb'
          · rw [ha', hb'] at hlt
            exact absurd hlt (lt_irrefl _)
          · rw [ha'] at hfailed
            exact h.1 hfailed b hb'
        · rcases List.mem_cons.mp hb with hb' | hb'
          · rw [hb'] at hlt
            exact absurd hlt (lt_asymm (hfirst a ha'))
          · exact h.2 a ha' b hb' hlt hfailed
    rw [hpairs, ← ih hrest]
    cases hsent : sent e.1 with
    | delivered => simp [sendAll, hsent]
    | closed => simp [sendAll, hsent]
    | failed =>
      have hnone : (∀ b ∈ outputs, sent b.1 ≠ .delivered) ↔
          outputs.filter (fun b => sent b.1 = .delivered) = [] := by
        rw [List.filter_eq_nil_iff]
        simp
      simp only [sendAll, hsent, forall_const, hnone]
      rw [List.filter_cons_of_neg (by simp [hsent]), eq_comm, List.map_eq_nil_iff]
      refine ⟨fun h => ⟨h, ?_⟩, And.left⟩
      -- if nobody is left to serve, the loop over the rest has nothing to send either
      refine (ih hrest).mpr fun a _ b hb _ _ => ?_
      exact hnone.mpr h b hb

theorem dispatchEvent_eq : dispatchEvent sessions limits event io =
    match (dispatched event).2.encodeWithLimits limits with
    | .error error => ([], .error (.codec error))
    | .ok packet =>
      if (outputsOf sessions event).all fun e => io.cloned e.1 then
        sendAll packet io.sent (outputsOf sessions event)
      else ([], .error .io) := rfl

theorem dispatchEvent_ok_iff :
    (dispatchEvent sessions limits event io).2 = .ok () ↔ ¬ Fails sessions limits event io := by
  unfold Fails
  have hmem : ∀ id, id ∈ (dispatched event).1 ∧ sessions.contains id = true ↔
      ∃ e ∈ outputsOf sessions event, e.1 = id := by
    intro id
    rw [OrdMap.contains_iff]
    refine ⟨fun ⟨hid, connection, hget⟩ => ⟨(id, connection), mem_outputsOf.mpr ⟨hget, hid⟩, rfl⟩, ?_⟩
    rintro ⟨e, he, rfl⟩
    obtain ⟨hget, hid⟩ := mem_outputsOf.mp he
    exact ⟨hid, e.2, hget⟩
  rw [dispatchEvent_eq]
  cases hencode : (dispatched event).2.encodeWithLimits limits with
  | error error => simp
  | ok packet =>
    have hfails : (∃ id ∈ (dispatched event).1, sessions.contains id = true ∧
        (io.cloned id = false ∨ io.sent id = .failed)) ↔
        ∃ e ∈ outputsOf sessions event, io.cloned e.1 = false ∨ io.sent e.1 = .failed := by
      refine ⟨fun ⟨id, hid, hpresent, hbad⟩ => ?_, fun ⟨e, he, hbad⟩ => ?_⟩
      · obtain ⟨e, he, rfl⟩ := (hmem id).mp ⟨hid, hpresent⟩
        exact ⟨e, he, hbad⟩
      · obtain ⟨hid, hpresent⟩ := (hmem e.1).mpr ⟨e, he, rfl⟩
        exact ⟨e.1, hid, hpresent, hbad⟩
    simp only [reduceCtorEq, exists_false, false_or]
    rw [hfails]
    by_cases hcloned : (outputsOf sessions event).all (fun e => io.cloned e.1) = true
    · rw [if_pos hcloned, sendAll_ok_iff]
      rw [List.all_eq_true] at hcloned
      refine ⟨fun h ⟨e, he, hbad⟩ => ?_, fun h e he hfailed => h ⟨e, he, .inr hfailed⟩⟩
      rcases hbad with hbad | hbad
      · rw [hcloned e he] at hbad
        cases hbad
      · exact h e he hbad
    · rw [if_neg hcloned]
      simp only [List.all_eq_true, not_forall] at hcloned
      obtain ⟨e, he, hbad⟩ := hcloned
      refine ⟨fun h => (nomatch h), fun h => absurd ⟨e, he, .inl ?_⟩ h⟩
      simpa using hbad

theorem Due.output {id : PeerId} (h : Due sessions limits event io id) :
    ∃ connection, (id, connection) ∈ outputsOf sessions event := by
  obtain ⟨connection, hget⟩ := OrdMap.contains_iff.mp h.present
  exact ⟨connection, mem_outputsOf.mpr ⟨hget, h.recipient⟩⟩

theorem due_of_output {e : PeerId × Connection} (hencode : (dispatched event).2.encodeWithLimits limits = .ok packet)
    (he : e ∈ outputsOf sessions event) (hreach : reachable io e.1 = true) : Due sessions limits event io e.1 := by
  obtain ⟨hget, hid⟩ := mem_outputsOf.mp he
  exact ⟨⟨packet, hencode⟩, hid, OrdMap.contains_iff.mpr ⟨e.2, hget⟩, hreach⟩

theorem duePackets_eq_nil_iff : duePackets sessions limits event io = [] ↔ ∀ id, ¬ Due sessions limits event io id := by
  unfold duePackets
  cases hencode : (dispatched event).2.encodeWithLimits limits with
  | error error =>
    refine ⟨fun _ id h => ?_, fun _ => rfl⟩
    obtain ⟨packet, hok⟩ := h.encodes
    rw [hencode] at hok
    cases hok
  | ok packet =>
    simp only []
    rw [List.map_eq_nil_iff, List.filter_eq_nil_iff]
    refine ⟨fun h id hdue => ?_, fun h e he hreach => h e.1 (due_of_output hencode he hreach)⟩
    obtain ⟨connection, he⟩ := hdue.output
    exact h _ he hdue.reachable

/-- An event is sent to everybody it is due to exactly if none of them is blocked by another recipient. -/
theorem dispatchEvent_eq_due_iff :
    (dispatchEvent sessions limits event io).1 = duePackets sessions limits event io ↔
      ∀ id, Due sessions limits event io id → ¬ Blocked sessions event io id := by
  have hblocked : ∀ {e : PeerId × Connection}, e ∈ outputsOf sessions event → ∀ {id : PeerId},
      io.cloned e.1 = false ∨ e.1 < id ∧ io.sent e.1 = .failed → Blocked sessions event io id := by
    intro e he id hbad
    obtain ⟨hget, hid⟩ := mem_outputsOf.mp he
    exact ⟨e.1, hid, OrdMap.contains_iff.mpr ⟨e.2, hget⟩, hbad⟩
  cases hencode : (dispatched event).2.encodeWithLimits limits with
  | error error =>
    have hnil : duePackets sessions limits event io = [] := by rw [duePackets, hencode]
    have hnone := duePackets_eq_nil_iff.mp hnil
    rw [hnil, dispatchEvent_eq, hencode]
    exact ⟨fun _ id hdue => absurd hdue (hnone id), fun _ => rfl⟩
  | ok packet =>
    by_cases hcloned : (outputsOf sessions event).all (fun e => io.cloned e.1) = true
    · rw [dispatchEvent_eq, duePackets, hencode]
      simp only []
      rw [if_pos hcloned]
      rw [List.all_eq_true] at hcloned
      have hfilter : (outputsOf sessions event).filter (fun e => reachable io e.1) =
          (outputsOf sessions event).filter fun e => io.sent e.1 = .delivered := by
        refine List.filter_congr fun e he => ?_
        simp [reachable, hcloned e he]
      rw [hfilter, sendAll_eq_iff outputsOf_sorted]
      refine ⟨fun h id hdue hblock => ?_, fun h a ha b hb hlt hfailed hdelivered => ?_⟩
      · obtain ⟨connection, houtput⟩ := hdue.output
        obtain ⟨other, hother, hpresent, hbad⟩ := hblock
        obtain ⟨connection', hget⟩ := OrdMap.contains_iff.mp hpresent
        have hother' : (other, connection') ∈ outputsOf sessions event := mem_outputsOf.mpr ⟨hget, hother⟩
        rcases hbad with hbad | ⟨hlt, hfailed⟩
        · rw [hcloned _ hother'] at hbad
          cases hbad
        · have hreach := hdue.reachable
          simp only [reachable, Bool.and_eq_true, decide_eq_true_eq] at hreach
          exact h _ hother' _ houtput hlt hfailed hreach.2
      · have hreach : reachable io b.1 = true := by simp [reachable, hcloned b hb, hdelivered]
        exact h b.1 (due_of_output hencode hb hreach) (hblocked ha (.inr ⟨hlt, hfailed⟩))
    · have hnothing : (dispatchEvent sessions limits event io).1 = [] := by
        rw [dispatchEvent_eq, hencode]
        simp only []
        rw [if_neg hcloned]
      simp only [List.all_eq_true, not_forall] at hcloned
      obtain ⟨e, he, hbad⟩ := hcloned
      have hall : ∀ id, Blocked sessions event io id := fun id => hblocked he (.inl (by simpa using hbad))
      rw [hnothing, eq_comm, duePackets_eq_nil_iff]
      exact ⟨fun h id hdue => absurd hdue (h id), fun h id hdue => h id hdue (hall id)⟩

theorem mem_sendAll {sent : PeerId → Sent} {outputs : List (PeerId × Connection)}
    (hsorted : outputs.Pairwise fun a b => a.1 < b.1) {connection : Connection} {p : List UInt8} :
    (connection, p) ∈ (sendAll packet sent outputs).1 ↔
      p = packet ∧ ∃ id, (id, connection) ∈ outputs ∧ sent id = .delivered ∧
        ∀ e ∈ outputs, e.1 < id → sent e.1 ≠ .failed := by
  induction outputs with
  | nil => simp [sendAll]
  | cons first outputs ih =>
    obtain ⟨hfirst, hrest⟩ := List.pairwise_cons.mp hsorted
    have ih := ih hrest
    -- whoever comes later is served if the first output is not the one that fails
    have hlater : ∀ id, (id, connection) ∈ outputs →
        ((∀ e ∈ first :: outputs, e.1 < id → sent e.1 ≠ .failed) ↔
          sent first.1 ≠ .failed ∧ ∀ e ∈ outputs, e.1 < id → sent e.1 ≠ .failed) := by
      intro id hid
      rw [List.forall_mem_cons]
      exact and_congr_left fun _ => ⟨fun h => h (hfirst _ hid), fun h _ => h⟩
    cases hsent : sent first.1 with
    | delivered =>
      simp only [sendAll, hsent, List.mem_cons, ih]
      refine ⟨fun h => ?_, fun ⟨hp, id, hid, hdelivered, hbelow⟩ => ?_⟩
      · rcases h with heq | ⟨hp, id, hid, hdelivered, hbelow⟩
        · obtain ⟨rfl, rfl⟩ := Prod.mk.inj heq
          refine ⟨rfl, first.1, .inl rfl, hsent, fun e he hlt => ?_⟩
          rcases he with rfl | he
          · exact absurd hlt (lt_irrefl _)
          · exact absurd hlt (lt_asymm (hfirst e he))
        · refine ⟨hp, id, .inr hid, hdelivered, fun e he => ?_⟩
          exact (hlater id hid).mpr ⟨by rw [hsent]; decide, hbelow⟩ e (List.mem_cons.mpr he)
      · rcases hid with heq | hid
        · exact .inl (by rw [← heq, hp])
        · exact .inr ⟨hp, id, hid, hdelivered, fun e he => hbelow e (.inr he)⟩
    | closed =>
      simp only [sendAll, hsent, ih]
      refine and_congr_right fun _ => exists_congr fun id => ⟨fun ⟨hid, hdelivered, hbelow⟩ => ?_, fun h => ?_⟩
      · exact ⟨List.mem_cons_of_mem _ hid, hdelivered, (hlater id hid).mpr ⟨by rw [hsent]; decide, hbelow⟩⟩
      · obtain ⟨hid, hdelivered, hbelow⟩ := h
        rcases List.mem_cons.mp hid with heq | hid
        · rw [← heq, hdelivered] at hsent
          cases hsent
        · exact ⟨hid, hdelivered, ((hlater id hid).mp hbelow).2⟩
    | failed =>
      simp only [sendAll, hsent, List.not_mem_nil, false_iff]
      rintro ⟨-, id, hid, hdelivered, hbelow⟩
      rcases List.mem_cons.mp hid with heq | hid
      · rw [← heq, hdelivered] at hsent
        cases hsent
      · exact ((hlater id hid).mp hbelow).1 hsent

/-- Who is sent what: those who are due and not blocked. -/
theorem mem_dispatchEvent {connection : Connection} {p : List UInt8} :
    (connection, p) ∈ (dispatchEvent sessions limits event io).1 ↔
      (dispatched event).2.encodeWithLimits limits = .ok p ∧ ∃ id, sessions.get? id = some connection ∧
        Due sessions limits event io id ∧ ¬ Blocked sessions event io id := by
  rw [dispatchEvent_eq]
  cases hencode : (dispatched event).2.encodeWithLimits limits with
  | error error => simp
  | ok packet =>
    have hclones : (outputsOf sessions event).all (fun e => io.cloned e.1) = true ↔
        ∀ other ∈ (dispatched event).1, sessions.contains other = true → io.cloned other = true := by
      rw [List.all_eq_true]
      refine ⟨fun h other hother hpresent => ?_, fun h e he => ?_⟩
      · obtain ⟨c, hget⟩ := OrdMap.contains_iff.mp hpresent
        exact h (other, c) (mem_outputsOf.mpr ⟨hget, hother⟩)
      · obtain ⟨hget, hid⟩ := mem_outputsOf.mp he
        exact h e.1 hid (OrdMap.contains_iff.mpr ⟨e.2, hget⟩)
    simp only []
    split_ifs with hcloned
    · have hcloned := hclones.mp hcloned
      rw [mem_sendAll outputsOf_sorted, Except.ok.injEq, eq_comm]
      refine and_congr_right fun _ => exists_congr fun id => ⟨fun ⟨hid, hdelivered, hbelow⟩ => ?_, fun h => ?_⟩
      · obtain ⟨hget, hmem⟩ := mem_outputsOf.mp hid
        have hpresent := OrdMap.contains_iff.mpr ⟨connection, hget⟩
        refine ⟨hget, ⟨⟨packet, hencode⟩, hmem, hpresent, ?_⟩, ?_⟩
        · simp [reachable, hcloned id hmem hpresent, hdelivered]
        · rintro ⟨other, hother, hpresent', hbad | ⟨hlt, hfailed⟩⟩
          · rw [hcloned other hother hpresent'] at hbad
            cases hbad
          · obtain ⟨c, hget'⟩ := OrdMap.contains_iff.mp hpresent'
            exact hbelow (other, c) (mem_outputsOf.mpr ⟨hget', hother⟩) hlt hfailed
      · obtain ⟨hget, hdue, hclear⟩ := h
        have hreach := hdue.reachable
        simp only [reachable, Bool.and_eq_true, decide_eq_true_eq] at hreach
        refine ⟨mem_outputsOf.mpr ⟨hget, hdue.recipient⟩, hreach.2, fun e he hlt hfailed => hclear ?_⟩
        obtain ⟨hget', hid'⟩ := mem_outputsOf.mp he
        exact ⟨e.1, hid', OrdMap.contains_iff.mpr ⟨e.2, hget'⟩, .inr ⟨hlt, hfailed⟩⟩
    · rw [hclones] at hcloned
      simp only [not_forall] at hcloned
      obtain ⟨other, hother, hpresent, hbad⟩ := hcloned
      refine ⟨fun h => absurd h List.not_mem_nil, ?_⟩
      rintro ⟨-, id, -, -, hclear⟩
      exact absurd ⟨other, hother, hpresent, .inl (by simpa using hbad)⟩ hclear

/-! ## A list of events -/

/-- Every event of the list is sent to all its recipients that are present and can be reached. -/
def Isolated (sessions : OrdMap PeerId Connection) (limits : FrameLimits) (events : List (DeliveryEvent × DispatchIo)) :
    Prop :=
  ∀ earlier event io later, events = earlier ++ (event, io) :: later →
    (dispatchDeliveryEvents sessions limits events).1.getD earlier.length [] = duePackets sessions limits event io

/-- Nobody who is due a packet comes after a failure: of an earlier event, or within the same one. -/
def Unhindered (sessions : OrdMap PeerId Connection) (limits : FrameLimits)
    (events : List (DeliveryEvent × DispatchIo)) : Prop :=
  ∀ earlier event io later, events = earlier ++ (event, io) :: later → ∀ id, Due sessions limits event io id →
    (∀ e ∈ earlier, ¬ Fails sessions limits e.1 e.2) ∧ ¬ Blocked sessions event io id

theorem getD_of_not_fails {earlier : List (DeliveryEvent × DispatchIo)} (later : List (DeliveryEvent × DispatchIo))
    (h : ∀ e ∈ earlier, ¬ Fails sessions limits e.1 e.2) :
    (dispatchDeliveryEvents sessions limits (earlier ++ (event, io) :: later)).1.getD earlier.length [] =
      (dispatchEvent sessions limits event io).1 := by
  induction earlier with
  | nil =>
    rw [List.nil_append, dispatchDeliveryEvents]
    cases (dispatchEvent sessions limits event io).2 with
    | ok => rfl
    | error failure => rfl
  | cons e earlier ih =>
    obtain ⟨hfirst, hrest⟩ := List.forall_mem_cons.mp h
    rw [List.cons_append, dispatchDeliveryEvents]
    simp only [dispatchEvent_ok_iff.mpr hfirst]
    exact ih hrest

theorem getD_of_fails {earlier : List (DeliveryEvent × DispatchIo)} (later : List (DeliveryEvent × DispatchIo))
    (h : ∃ e ∈ earlier, Fails sessions limits e.1 e.2) :
    (dispatchDeliveryEvents sessions limits (earlier ++ (event, io) :: later)).1.getD earlier.length [] = [] := by
  induction earlier with
  | nil =>
    obtain ⟨e, he, -⟩ := h
    exact absurd he List.not_mem_nil
  | cons e earlier ih =>
    rw [List.cons_append, dispatchDeliveryEvents]
    cases hround : (dispatchEvent sessions limits e.1 e.2).2 with
    | error failure => rfl
    | ok =>
      have hfirst := dispatchEvent_ok_iff.mp hround
      obtain ⟨e', he', hfails⟩ := h
      rcases List.mem_cons.mp he' with rfl | he'
      · exact absurd hfails hfirst
      · exact ih ⟨e', he', hfails⟩

/-- A list of events is dispatched without one hindering the other exactly if nobody who is due a packet comes
after a failure. -/
theorem dispatch_isolated_iff (sessions : OrdMap PeerId Connection) (limits : FrameLimits)
    (events : List (DeliveryEvent × DispatchIo)) :
    Isolated sessions limits events ↔ Unhindered sessions limits events := by
  unfold Isolated Unhindered
  refine forall₄_congr fun earlier event io later => forall_congr' fun heq => ?_
  rw [heq]
  by_cases hearlier : ∀ e ∈ earlier, ¬ Fails sessions limits e.1 e.2
  · rw [getD_of_not_fails later hearlier, dispatchEvent_eq_due_iff]
    exact forall₂_congr fun id _ => ⟨fun h => ⟨hearlier, h⟩, And.right⟩
  · have hfails : ∃ e ∈ earlier, Fails sessions limits e.1 e.2 := by simpa using hearlier
    rw [getD_of_fails later hfails, eq_comm, duePackets_eq_nil_iff]
    exact forall_congr' fun id => ⟨fun h hdue => absurd hdue h, fun h hdue => hearlier (h hdue).1⟩

/-! ## An unrelated result that is lost -/

def twoSessions : OrdMap PeerId Connection := OrdMap.ofList [(.new 2, 0), (.new 3, 1)]

/-- A forwarded message for the second peer that is too large, then a result for the third one. -/
def unrelatedEvents : List (DeliveryEvent × DispatchIo) :=
  [(.deliver (.new 1) [.new 2] (.message smallRequest), calmIo.dispatch),
    (.result (.new 3) (numberedId 2) .timeout, calmIo.dispatch)]

/-- A message for both peers, while sending to the second one fails. -/
def sharedEvent : List (DeliveryEvent × DispatchIo) :=
  [(.deliver (.new 1) [.new 2, .new 3] (.message smallRequest),
    ⟨fun _ => true, fun id => if id = .new 2 then .failed else .delivered⟩)]

/-- The result is never sent, although nothing is wrong with it; and the third peer misses the message because of
the second one. -/
theorem unrelatedResult_lost :
    dispatchDeliveryEvents twoSessions smallLimits unrelatedEvents = ([[]], .error (.codec .frameTooLarge)) ∧
      duePackets twoSessions smallLimits (.result (.new 3) (numberedId 2) .timeout) calmIo.dispatch ≠ [] ∧
      ¬ Isolated twoSessions smallLimits unrelatedEvents ∧ ¬ Isolated twoSessions .default sharedEvent := by
  have hdue : duePackets twoSessions smallLimits (.result (.new 3) (numberedId 2) .timeout) calmIo.dispatch ≠ [] := by
    decide +kernel
  refine ⟨by decide +kernel, hdue, fun h => hdue ?_, fun h => ?_⟩
  · exact (h [(.deliver (.new 1) [.new 2] (.message smallRequest), calmIo.dispatch)] _ _ [] rfl).symm.trans
      (by decide +kernel)
  · exact absurd (h [] _ _ [] rfl) (by decide +kernel)

/-! ## The clock thread -/

variable {P : Type} [Policy P]

theorem run_dispatch_idle {state : State P} (h : state.scheduler = []) (ios : List DispatchIo) (n : Nat) :
    ((run step state (ios.map .dispatch)).1.map fun e => e.2.packets).getD n [] = [] := by
  have hstep : ∀ io, step state (.dispatch io) = (state, ⟨[], none⟩) := fun io => by simp only [step, h]
  induction ios generalizing n with
  | nil => rfl
  | cons io ios ih =>
    rw [List.map_cons, run, hstep]
    cases n with
    | zero => rfl
    | succ n => exact ih n

/-- Left to itself, the clock thread sends what `dispatch_delivery_events` sends. -/
theorem run_dispatch {state : State P} {events : List (DeliveryEvent × DispatchIo)}
    (h : state.scheduler = events.map Prod.fst) (n : Nat) :
    ((run step state ((events.map Prod.snd).map .dispatch)).1.map fun e => e.2.packets).getD n [] =
      (dispatchDeliveryEvents state.sessions state.limits events).1.getD n [] := by
  induction events generalizing state n with
  | nil => rfl
  | cons e events ih =>
    rw [List.map_cons, List.map_cons, run, dispatchDeliveryEvents]
    simp only [step, h, List.map_cons]
    cases hround : (dispatchEvent state.sessions state.limits e.1 e.2).2 with
    | ok =>
      cases n with
      | zero => rfl
      | succ n =>
        have hrest := @ih { state with scheduler := events.map Prod.fst } rfl n
        exact hrest
    | error failure =>
      cases n with
      | zero => rfl
      | succ n =>
        have hidle := @run_dispatch_idle P _ { state with scheduler := [] } rfl (events.map Prod.snd) n
        exact hidle

end Busd.Daemon
