import Busd.Broker.Quotas
import Busd.Broker.Aggregation

/-!
# The bytes retained for a sender

A pending request holds its own frame and the responses it has so far, but only the former is counted when the
broker checks `maximum_queued_bytes`. So the check bounds what is retained for a peer as long as nothing but the
messages of this peer is retained.

* `retainedBytes` : what the broker holds for a sender, `responseBytes` the part of it that no check counts;
* `StoresFor` : the calls that add to this part;
* `retention_bounded` : the limit can only be exceeded by such calls, and by no more than what they stored.
-/

namespace Busd.Broker

open Words Machine Busd.Protocol Busd.Policy

variable {P : Type} {broker : Broker P} {peer : PeerId}

/-- The bytes of the responses in an entry. -/
def storedBytes (pending : PendingDelivery) : Nat := pending.responses.weight deliveryBytes

def entryBytes (pending : PendingDelivery) : Nat :=
  deliveryBytes pending.message + storedBytes pending

/-- The bytes of the frames that the broker retains for the deliveries of a peer. -/
def retainedBytes (broker : Broker P) (peer : PeerId) : Nat :=
  ((queuedBy broker peer).map entryBytes).sum

/-- Those of them that are responses. -/
def responseBytes (broker : Broker P) (peer : PeerId) : Nat :=
  ((queuedBy broker peer).map storedBytes).sum

theorem retainedBytes_eq (broker : Broker P) (peer : PeerId) :
    retainedBytes broker peer = (usage broker peer).bytes + responseBytes broker peer := by
  unfold retainedBytes responseBytes usage
  rw [← List.sum_map_add]
  rfl

/-! ## One call -/

/-- The call has the broker store a response, in a request of `peer` that stays open. A response without payload and
headers takes no bytes. -/
def StoresFor [Policy P] (broker : Broker P) (op : Op) (peer : PeerId) : Prop :=
  ∃ sender r nowMs pending request, Submits sender r nowMs op (exec broker op).2 ∧ r.kind = .response ∧
    Expected broker sender r pending request ∧ completesRequest pending request sender r = false ∧
    pending.sender = peer ∧ deliveryBytes (.message r) ≠ 0

theorem weight_addResponse {pending : PendingDelivery} {sender : PeerId} {r : Message}
    (hfirst : pending.responses.contains sender = false) :
    (addResponse pending sender r).weight deliveryBytes = storedBytes pending + deliveryBytes (.message r) := by
  have hweight := OrdMap.weight_insert pending.responses deliveryBytes sender (.message r)
  rw [OrdMap.contains_eq_false_iff.mp hfirst] at hweight
  exact hweight

/-- The responses in an entry that stays are those it had, and one more if the call is an answer to it. -/
theorem Effect.storedBytes {op : Op} {reply : Reply} {id : MessageId} {old new : PendingDelivery}
    {events : List DeliveryEvent} (h : Effect op reply id (some old) (some new) events) :
    storedBytes new = storedBytes old ∨
      ∃ sender r nowMs request, Submits sender r nowMs op reply ∧ r.kind = .response ∧ r.correlationId = id ∧
        old.message = .message request ∧ request.kind = .request ∧ old.recipients.contains sender = true ∧
        old.responses.contains sender = false ∧ completesRequest old request sender r = false ∧
        storedBytes new = storedBytes old + deliveryBytes (.message r) := by
  generalize hafter : some new = after at h
  cases h with
  | untouched =>
    obtain rfl := Option.some.inj hafter
    exact .inl rfl
  | acknowledged =>
    split_ifs at hafter
    obtain rfl := Option.some.inj hafter
    exact .inl rfl
  | @answered _ request r sender nowMs hcall hkind hid hmessage hrequest hrecipient hfirst =>
    split_ifs at hafter with hcompletes
    obtain rfl := Option.some.inj hafter
    exact .inr ⟨sender, r, nowMs, request, hcall, hkind, hid, hmessage, hrequest, hrecipient, hfirst,
      Bool.eq_false_iff.mpr hcompletes, weight_addResponse hfirst⟩
  | ticked hop =>
    rw [afterTick_eq_some hafter.symm]
    exact .inl rfl
  | recipientLost => cases hafter

/-- No entry of `peer` holds a response that takes any bytes. -/
def Unanswered (broker : Broker P) (peer : PeerId) : Prop :=
  ∀ id pending, broker.deliveries.get? id = some pending → pending.sender = peer → storedBytes pending = 0

theorem Unanswered.responseBytes (h : Unanswered broker peer) : responseBytes broker peer = 0 := by
  refine List.sum_eq_zero fun bytes hbytes => ?_
  obtain ⟨pending, hpending, rfl⟩ := List.mem_map.mp hbytes
  obtain ⟨hmem, hsender⟩ := List.mem_filter.mp hpending
  obtain ⟨id, hget⟩ := OrdMap.mem_values_iff.mp hmem
  exact h id pending hget (by simpa using hsender)

/-- The call brings no response that takes any bytes. -/
def Op.light : Op → Bool
  | .beginDelivery _ (.message r) _ => r.kind ≠ .response ∨ deliveryBytes (.message r) = 0
  | _ => true

variable [Policy P]

theorem not_storesFor_of_light {op : Op} (h : op.light = true) : ¬ StoresFor broker op peer := by
  rintro ⟨sender, r, nowMs, pending, request, ⟨rfl, -⟩, hkind, -, -, -, hbytes⟩
  simp only [Op.light, decide_eq_true_eq] at h
  rcases h with hother | hzero
  · exact hother hkind
  · exact hbytes hzero

theorem exec_unanswered (hentries : Entries broker) {op : Op} (h : Unanswered broker peer)
    (hop : ¬ StoresFor broker op peer) : Unanswered (exec broker op).1 peer := by
  intro id new hafter hsender
  cases hbefore : broker.deliveries.get? id with
  | none =>
    obtain ⟨sender, m, nowMs, priority, recipients, deadlineMs, -, -, -, -, rfl, -⟩ :=
      inserted_spec hentries hbefore hafter
    rfl
  | some old =>
    have heffect := exec_effect hentries op id
    rw [hbefore, hafter] at heffect
    have howner : old.sender = peer := heffect.sameDelivery.sender.symm.trans hsender
    have hnone := h id old hbefore howner
    rcases heffect.storedBytes with hsame |
      ⟨sender, r, nowMs, request, hcall, hkind, rfl, hmessage, hrequest, hrecipient, hfirst, hopen, hadded⟩
    · rw [hsame, hnone]
    · -- a response was stored, so it takes no bytes
      by_contra hbytes
      refine hop ⟨sender, r, nowMs, old, request, hcall, hkind,
        ⟨hbefore, hmessage, hrequest, hrecipient, hfirst⟩, hopen, howner, fun hzero => ?_⟩
      rw [hadded, hnone, hzero] at hbytes
      exact hbytes rfl

/-! ## Every run -/

variable {policy : P} {limits : Limits} {capabilities : Capabilities} {history : List (Op × Reply)}

theorem run_unanswered (hrun : Run exec (Broker.empty policy limits capabilities) history broker)
    (h : Every exec (Broker.empty policy limits capabilities) (fun b op => ¬ StoresFor b op peer) history) :
    Unanswered broker peer := by
  induction hrun with
  | nil =>
    intro id pending hget
    cases hget
  | @snoc b b' history op reply hrun hstep ih =>
    rw [every_snoc hrun] at h
    have hentries := run_entries hrun (entries_empty policy limits capabilities)
    have hafter := exec_unanswered hentries (ih h.1) h.2
    rwa [hstep] at hafter

/-- In every state that a new broker reaches, what it retains for a peer exceeds `maximum_queued_bytes` by no more than
the responses stored for that peer. In a run in which no call stores a response in a request of the peer that stays
open, the limit holds: `ensure_delivery_capacity` has counted everything that is retained. -/
theorem retention_bounded (hrun : Run exec (Broker.empty policy limits capabilities) history broker) (peer : PeerId) :
    retainedBytes broker peer ≤ limits.maximumQueuedBytes + responseBytes broker peer ∧
      (Every exec (Broker.empty policy limits capabilities) (fun b op => ¬ StoresFor b op peer) history →
        retainedBytes broker peer ≤ limits.maximumQueuedBytes) := by
  obtain ⟨-, -, hwithin⟩ := run_within hrun
  have hbytes : (usage broker peer).bytes ≤ limits.maximumQueuedBytes := (hwithin peer).bytes
  rw [retainedBytes_eq]
  refine ⟨Nat.add_le_add_right hbytes _, fun hstores => ?_⟩
  rw [(run_unanswered hrun hstores).responseBytes]
  exact hbytes

def twoByteLimits : Limits := { Limits.default with maximumQueuedBytes := 2 }

def bulkyResponse : Message := { plainResponse (numberedId 2) (numberedId 1) .success with payload := [1, 2] }

/-- A request of one byte for two peers, and the response of one of them. -/
def crowdedOps : List Op :=
  [plainConnect, plainConnect, plainConnect,
    .beginDelivery (.new 1) (.message { raceRequest .all with payload := [0] }) 0,
    .beginDelivery (.new 2) (.message bulkyResponse) 1]

def crowdedRun : List (Op × Reply) × Broker AllowAll := run exec (Broker.empty .mk twoByteLimits ∅) crowdedOps

/-- The broker holds three bytes for a sender that may have two. -/
theorem crowdedRun_exceeds :
    Run exec (Broker.empty .mk twoByteLimits ∅) crowdedRun.1 crowdedRun.2 ∧
      crowdedRun.2.limits.maximumQueuedBytes = 2 ∧ retainedBytes crowdedRun.2 (.new 1) = 3 :=
  ⟨run_spec _ _, by decide +kernel⟩

/-- A response that takes no bytes is stored, and a second request, of two bytes, is refused by the check. -/
def guardedOps : List Op :=
  crowdedOps.take 4 ++ [.beginDelivery (.new 2) (.message (plainResponse (numberedId 2) (numberedId 1) .success)) 1,
    .beginDelivery (.new 1) (.message { raceRequest .all with messageId := numberedId 3, payload := [0, 0] }) 2]

def guardedRun : List (Op × Reply) × Broker AllowAll := run exec (Broker.empty .mk twoByteLimits ∅) guardedOps

theorem retention_bounded_guardedRun :
    (guardedRun.2.deliveries.get? (numberedId 1)).map (fun pending => pending.responses.size) = some 1 ∧
      guardedRun.2.deliveries.get? (numberedId 3) = none ∧ retainedBytes guardedRun.2 (.new 1) ≤ 2 := by
  have hrun : Run exec (Broker.empty AllowAll.mk twoByteLimits ∅) guardedRun.1 guardedRun.2 := run_spec _ _
  refine ⟨by decide +kernel, by decide +kernel, (retention_bounded hrun (.new 1)).2 ?_⟩
  have hlight : ∀ op ∈ guardedOps, op.light = true := List.all_eq_true.mp (by decide +kernel)
  intro h₁ op reply h₂ b heq _
  exact not_storesFor_of_light (forall_run_inputs hlight (op, reply) (heq ▸ List.mem_append_right _ List.mem_cons_self))

end Busd.Broker
