import Busd.Broker.Authorization

/-!
# What each peer uses

The broker stores no counters: each limit is checked against a count over a map that all peers share. Every
count is a weight of such a map, so a call that adds nothing under any key adds nothing to any count.

* `Usage`, `usage` : the five quantities that are limited, for one peer;
* `exec_charge` : the deliveries charged to a peer under one call;
* `exec_usage_le` : a call of somebody else adds nothing to what a peer uses;
* `exec_usage_within` : a call of its own stays within the limits;
* `run_usage` : both, in every run.
-/

namespace Busd.Broker

open Words Machine Busd.Protocol Busd.Policy

/-- The quantities that the limits bound. -/
structure Usage where
  namespaces : Nat
  subscriptions : Nat
  messages : Nat
  bytes : Nat
  requests : Nat
  deriving DecidableEq

structure Usage.Le (a b : Usage) : Prop where
  namespaces : a.namespaces ≤ b.namespaces
  subscriptions : a.subscriptions ≤ b.subscriptions
  messages : a.messages ≤ b.messages
  bytes : a.bytes ≤ b.bytes
  requests : a.requests ≤ b.requests

instance : LE Usage := ⟨Usage.Le⟩

def Limits.usage (limits : Limits) : Usage where
  namespaces := limits.maximumNamespaceClaims
  subscriptions := limits.maximumSubscriptions
  messages := limits.maximumQueuedMessages
  bytes := limits.maximumQueuedBytes
  requests := limits.maximumInFlightRequests

/-- The peer that performs a call. -/
def Op.caller : Op → Option PeerId
  | .disconnect peer | .claim peer _ | .subscribe peer _ _ | .unsubscribe peer _ | .registerDbusName peer _
  | .beginDelivery peer _ _ | .acknowledge peer _ _ => some peer
  | .connect _ _ | .tick _ | .drainEvents => none

variable {P : Type} {broker : Broker P}

def usage (broker : Broker P) (peer : PeerId) : Usage where
  namespaces := (broker.namespaces.values.filter (· = peer)).length
  subscriptions := (broker.subscriptions.values.filter fun subscribers => subscribers.contains peer).length
  messages := (queuedBy broker peer).length
  bytes := ((queuedBy broker peer).map fun pending => deliveryBytes pending.message).sum
  requests := ((queuedBy broker peer).filter fun pending => isRequest pending.message).length

/-! ## Deliveries -/

/-- What an entry costs its sender. -/
def charge (peer : PeerId) (cost : Frame → Nat) (pending : PendingDelivery) : Nat :=
  if pending.sender = peer then cost pending.message else 0

theorem messages_eq_weight (broker : Broker P) (peer : PeerId) :
    (usage broker peer).messages = broker.deliveries.weight (charge peer fun _ => 1) := by
  refine (OrdMap.length_filter_values _ _).trans ?_
  congr 1
  funext pending
  simp [charge]

theorem bytes_eq_weight (broker : Broker P) (peer : PeerId) :
    (usage broker peer).bytes = broker.deliveries.weight (charge peer deliveryBytes) := by
  refine (OrdMap.sum_filter_values _ _ _).trans ?_
  congr 1
  funext pending
  simp [charge]

def requestCost (frame : Frame) : Nat := if isRequest frame then 1 else 0

theorem requests_eq_weight (broker : Broker P) (peer : PeerId) :
    (usage broker peer).requests = broker.deliveries.weight (charge peer requestCost) := by
  change ((broker.deliveries.values.filter _).filter _).length = _
  rw [List.filter_filter, OrdMap.length_filter_values]
  congr 1
  funext pending
  unfold charge requestCost
  by_cases hsender : pending.sender = peer <;> simp [hsender]

theorem charge_of_same {peer : PeerId} {cost : Frame → Nat} {pending pending' : PendingDelivery}
    (h : SameDelivery pending pending') : charge peer cost pending' = charge peer cost pending := by
  unfold charge
  rw [h.sender, h.message]

variable [Policy P]

/-- A call charges nothing to a peer, or the one delivery that the peer begins with it. -/
theorem exec_charge (hentries : Entries broker) (op : Op) (peer : PeerId) :
    (∀ cost, (exec broker op).1.deliveries.weight (charge peer cost) ≤ broker.deliveries.weight (charge peer cost)) ∨
      ∃ m nowMs, op = .beginDelivery peer (.message m) nowMs ∧ Fits broker peer m nowMs ∧
        ∀ cost, (exec broker op).1.deliveries.weight (charge peer cost) ≤
          broker.deliveries.weight (charge peer cost) + cost (.message m) := by
  have hstays : ∀ id old new cost, broker.deliveries.get? id = some old →
      (exec broker op).1.deliveries.get? id = some new → charge peer cost new ≤ charge peer cost old := by
    intro id old new cost hbefore hafter
    have heffect := exec_effect hentries op id
    rw [hbefore, hafter] at heffect
    exact (charge_of_same heffect.sameDelivery).le
  have howner : ∀ cost pending, charge peer cost pending ≠ 0 → pending.sender = peer := by
    intro cost pending hne
    by_contra hsender
    exact hne (if_neg hsender)
  by_cases hnew : ∃ id new, broker.deliveries.get? id = none ∧
      (exec broker op).1.deliveries.get? id = some new ∧ new.sender = peer
  · -- all new entries are of the one message that the call begins
    obtain ⟨id, new, hfresh, hafter, hsender⟩ := hnew
    obtain ⟨owner, m, nowMs, _, _, _, hop, hid, -, hretained, rfl, -⟩ := inserted_spec hentries hfresh hafter
    obtain rfl : owner = peer := hsender
    refine .inr ⟨m, nowMs, hop, hretained.fits, fun cost => ?_⟩
    refine @OrdMap.weight_le_add _ _ _ _ _ _ id _ (fun v' hget => ?_) fun id' new' hne hafter' _ => ?_
    · rw [hafter] at hget
      cases hget
      exact (if_pos rfl).le
    · cases hbefore' : broker.deliveries.get? id' with
      | some old => exact ⟨old, rfl, hstays id' old new' cost hbefore' hafter'⟩
      | none =>
        obtain ⟨_, _, _, _, _, _, hop', hid', -⟩ := inserted_spec hentries hbefore' hafter'
        cases hop.symm.trans hop'
        exact absurd (hid'.symm.trans hid) hne
  · refine .inl fun cost => OrdMap.weight_le fun id new hafter hne => ?_
    cases hbefore : broker.deliveries.get? id with
    | some old => exact ⟨old, rfl, hstays id old new cost hbefore hafter⟩
    | none => exact absurd ⟨id, new, hbefore, hafter, howner cost new hne⟩ hnew

/-- After a call the deliveries of a peer cost no more than before, or stay within the limit that was checked. -/
theorem exec_messages (hentries : Entries broker) (op : Op) (peer : PeerId) :
    (usage (exec broker op).1 peer).messages ≤ (usage broker peer).messages ∨
      (usage (exec broker op).1 peer).messages ≤ broker.limits.maximumQueuedMessages := by
  rcases exec_charge hentries op peer with hle | ⟨m, nowMs, -, hfits, hle⟩
  · left
    rw [messages_eq_weight, messages_eq_weight]
    exact hle _
  · have hroom : (usage broker peer).messages < broker.limits.maximumQueuedMessages := hfits.messages
    rw [messages_eq_weight] at hroom ⊢
    exact .inr ((hle _).trans hroom)

theorem exec_bytes (hentries : Entries broker) (op : Op) (peer : PeerId) :
    (usage (exec broker op).1 peer).bytes ≤ (usage broker peer).bytes ∨
      (usage (exec broker op).1 peer).bytes ≤ broker.limits.maximumQueuedBytes := by
  rcases exec_charge hentries op peer with hle | ⟨m, nowMs, -, hfits, hle⟩
  · left
    rw [bytes_eq_weight, bytes_eq_weight]
    exact hle _
  · have hroom : (usage broker peer).bytes + deliveryBytes (.message m) ≤ broker.limits.maximumQueuedBytes :=
      hfits.bytes
    rw [bytes_eq_weight] at hroom ⊢
    exact .inr ((hle _).trans hroom)

theorem exec_requests (hentries : Entries broker) (op : Op) (peer : PeerId) :
    (usage (exec broker op).1 peer).requests ≤ (usage broker peer).requests ∨
      (usage (exec broker op).1 peer).requests ≤ broker.limits.maximumInFlightRequests := by
  rcases exec_charge hentries op peer with hle | ⟨m, nowMs, -, hfits, hle⟩
  · left
    rw [requests_eq_weight, requests_eq_weight]
    exact hle _
  have hcost := hle requestCost
  by_cases hkind : m.kind = .request
  · have hroom : (usage broker peer).requests < broker.limits.maximumInFlightRequests := hfits.requests hkind
    simp only [requestCost, isRequest, hkind, decide_true, if_true] at hcost
    rw [requests_eq_weight] at hroom ⊢
    exact .inr (hcost.trans hroom)
  · simp only [requestCost, isRequest, hkind, decide_false] at hcost
    rw [requests_eq_weight, requests_eq_weight]
    exact .inl hcost

/-! ## The registry -/

theorem claim_within {peer : PeerId} {ns : Namespace} (h : (broker.claim peer ns).2 = .ok ()) :
    (usage broker peer).namespaces < broker.limits.maximumNamespaceClaims := by
  rcases orReturn_cases (show broker.claim peer ns = _ from rfl) with ⟨error, -, hc⟩ | ⟨_, -, hc⟩
  · rw [hc] at h
    cases h
  · split_ifs at hc with hlimit
    · rw [← hc] at h
      cases h
    · exact not_le.mp hlimit

/-- A subscription that replaces another one is not counted again. -/
theorem subscribe_within {peer : PeerId} {channel : Channel} {filters : List HeaderFilter}
    (h : (broker.subscribeWithFilters peer channel filters).2 = .ok ())
    (hnew : ¬ Holds broker peer (.subscribe channel)) :
    (usage broker peer).subscriptions < broker.limits.maximumSubscriptions := by
  have hfresh : (broker.subscribersOf channel).contains peer = false := by
    unfold subscribersOf
    cases hsubs : broker.subscriptions.get? channel with
    | none => rfl
    | some subscribers =>
      by_contra hcontains
      exact hnew (.subscriber hsubs (by simpa using hcontains))
  rcases orReturn_cases (show broker.subscribeWithFilters peer channel filters = _ from rfl) with
    ⟨error, -, hc⟩ | ⟨_, -, hc⟩
  · rw [hc] at h
    cases h
  · split_ifs at hc with hlimit
    · rw [← hc] at h
      cases h
    · exact not_le.mp fun hle => hlimit ⟨by simp [hfresh], hle⟩

omit [Policy P] in
theorem Holds.owner_iff {peer : PeerId} {ns : Namespace} :
    Holds broker peer (.claimNamespace ns) ↔ broker.namespaces.get? ns = some peer := by
  refine ⟨fun h => ?_, .owner⟩
  cases h with
  | owner h => exact h

omit [Policy P] in
theorem Holds.subscriber_iff {peer : PeerId} {channel : Channel} : Holds broker peer (.subscribe channel) ↔
    ∃ subscribers, broker.subscriptions.get? channel = some subscribers ∧ subscribers.contains peer = true := by
  refine ⟨fun h => ?_, fun ⟨_, h, hid⟩ => .subscriber h hid⟩
  cases h with
  | subscriber h hid => exact ⟨_, h, hid⟩

theorem Gains.unique {op : Op} {peer : PeerId} {action action' : Action} (h : Gains broker op peer action)
    (h' : Gains broker op peer action') : action' = action := by
  cases h with
  | connected hop _ _ => cases h' <;> simp_all
  | owner hop _ => cases h' <;> simp_all
  | subscriber hop _ => cases h' <;> simp_all
  | dbusName hop _ => cases h' <;> simp_all

/-- What a peer has of one kind, counted in the map that holds it, grows by one at most, and only by a call
that gives the peer something new of this kind. -/
theorem exec_held {κ α : Type} [LinearOrder κ] {before after : OrdMap κ α} {has : α → Bool} {kind : κ → Action}
    {op : Op} {peer : PeerId}
    (hbefore : ∀ k, Holds broker peer (kind k) ↔ ∃ v, before.get? k = some v ∧ has v = true)
    (hafter : ∀ k, Holds (exec broker op).1 peer (kind k) ↔ ∃ v, after.get? k = some v ∧ has v = true)
    (hkind : Function.Injective kind) :
    (after.values.filter has).length ≤ (before.values.filter has).length ∨
      ∃ k, Gains broker op peer (kind k) ∧ ¬ Holds broker peer (kind k) ∧
        (after.values.filter has).length ≤ (before.values.filter has).length + 1 := by
  rw [OrdMap.length_filter_values, OrdMap.length_filter_values]
  have hcounted : ∀ v, (if has v then 1 else 0) ≠ 0 → has v = true := by
    intro v hne
    by_contra hnot
    exact hne (if_neg hnot)
  -- what the peer had before is counted before
  have hold : ∀ k v', Holds broker peer (kind k) → has v' = true →
      ∃ v, before.get? k = some v ∧ (if has v' then 1 else 0) ≤ (if has v then 1 else 0) := by
    intro k v' hholds hhas
    obtain ⟨v, hget, hv⟩ := (hbefore k).mp hholds
    exact ⟨v, hget, by rw [hv, hhas]⟩
  by_cases hnew : ∃ k, Gains broker op peer (kind k) ∧ ¬ Holds broker peer (kind k)
  · obtain ⟨k, hgains, hfresh⟩ := hnew
    refine .inr ⟨k, hgains, hfresh, ?_⟩
    refine @OrdMap.weight_le_add _ _ _ _ _ _ k _ (fun v' _ => by split_ifs <;> omega) fun k' v' hne hget hcount => ?_
    have hhas := hcounted v' hcount
    rcases exec_gains op ((hafter k').mpr ⟨v', hget, hhas⟩) with hholds | hgains'
    · exact hold k' v' hholds hhas
    · exact absurd (hkind (hgains.unique hgains')) hne
  · refine .inl (OrdMap.weight_le fun k v' hget hcount => ?_)
    have hhas := hcounted v' hcount
    by_cases hholds : Holds broker peer (kind k)
    · exact hold k v' hholds hhas
    · rcases exec_gains op ((hafter k).mpr ⟨v', hget, hhas⟩) with hholds' | hgains
      · exact absurd hholds' hholds
      · exact absurd ⟨k, hgains, hholds⟩ hnew

theorem exec_namespaces (op : Op) (peer : PeerId) :
    (usage (exec broker op).1 peer).namespaces ≤ (usage broker peer).namespaces ∨
      ∃ ns, op = .claim peer ns ∧ (usage broker peer).namespaces < broker.limits.maximumNamespaceClaims ∧
        (usage (exec broker op).1 peer).namespaces ≤ (usage broker peer).namespaces + 1 := by
  have hheld : ∀ (b : Broker P) ns, Holds b peer (.claimNamespace ns) ↔
      ∃ owner, b.namespaces.get? ns = some owner ∧ decide (owner = peer) = true := by
    intro b ns
    rw [Holds.owner_iff]
    simp
  rcases exec_held (hheld broker) (hheld (exec broker op).1) fun _ _ h => Action.claimNamespace.inj h with
    hle | ⟨ns, hgains, -, hle⟩
  · exact .inl hle
  · cases hgains with
    | owner hop hok => exact .inr ⟨ns, hop, claim_within hok, hle⟩

theorem exec_subscriptions (op : Op) (peer : PeerId) :
    (usage (exec broker op).1 peer).subscriptions ≤ (usage broker peer).subscriptions ∨
      ∃ channel filters, op = .subscribe peer channel filters ∧
        (usage broker peer).subscriptions < broker.limits.maximumSubscriptions ∧
        (usage (exec broker op).1 peer).subscriptions ≤ (usage broker peer).subscriptions + 1 := by
  rcases exec_held (fun _ => @Holds.subscriber_iff P broker peer _)
    (fun _ => @Holds.subscriber_iff P (exec broker op).1 peer _) fun _ _ h => Action.subscribe.inj h with
    hle | ⟨channel, hgains, hfresh, hle⟩
  · exact .inl hle
  · cases hgains with
    | subscriber hop hok => exact .inr ⟨channel, _, hop, subscribe_within hok hfresh, hle⟩

/-! ## Every call -/

/-- A call of somebody else, or of the clock, adds nothing to what a peer uses. -/
theorem exec_usage_le (hentries : Entries broker) {op : Op} {peer : PeerId} (hcaller : op.caller ≠ some peer) :
    usage (exec broker op).1 peer ≤ usage broker peer := by
  have hcharge : ∀ cost, (exec broker op).1.deliveries.weight (charge peer cost) ≤
      broker.deliveries.weight (charge peer cost) := by
    rcases exec_charge hentries op peer with hle | ⟨m, nowMs, rfl, -⟩
    · exact hle
    · exact absurd rfl hcaller
  constructor
  case namespaces =>
    rcases @exec_namespaces P broker _ op peer with hle | ⟨ns, rfl, -⟩
    · exact hle
    · exact absurd rfl hcaller
  case subscriptions =>
    rcases @exec_subscriptions P broker _ op peer with hle | ⟨channel, filters, rfl, -⟩
    · exact hle
    · exact absurd rfl hcaller
  case messages =>
    rw [messages_eq_weight, messages_eq_weight]
    exact hcharge _
  case bytes =>
    rw [bytes_eq_weight, bytes_eq_weight]
    exact hcharge _
  case requests =>
    rw [requests_eq_weight, requests_eq_weight]
    exact hcharge _

theorem exec_usage_within (hentries : Entries broker) {peer : PeerId} (h : usage broker peer ≤ broker.limits.usage)
    (op : Op) : usage (exec broker op).1 peer ≤ broker.limits.usage := by
  constructor
  case namespaces =>
    rcases @exec_namespaces P broker _ op peer with hle | ⟨ns, -, hroom, hle⟩
    · exact hle.trans h.namespaces
    · exact hle.trans hroom
  case subscriptions =>
    rcases @exec_subscriptions P broker _ op peer with hle | ⟨channel, filters, -, hroom, hle⟩
    · exact hle.trans h.subscriptions
    · exact hle.trans hroom
  case messages => exact (exec_messages hentries op peer).elim (fun hle => hle.trans h.messages) id
  case bytes => exact (exec_bytes hentries op peer).elim (fun hle => hle.trans h.bytes) id
  case requests => exact (exec_requests hentries op peer).elim (fun hle => hle.trans h.requests) id

omit [Policy P] in
theorem usage_empty (policy : P) (limits : Limits) (capabilities : Capabilities) (peer : PeerId) :
    usage (Broker.empty policy limits capabilities) peer ≤ limits.usage :=
  ⟨Nat.zero_le _, Nat.zero_le _, Nat.zero_le _, Nat.zero_le _, Nat.zero_le _⟩

theorem run_within {policy : P} {limits : Limits} {capabilities : Capabilities} {history : List (Op × Reply)}
    (hrun : Run exec (Broker.empty policy limits capabilities) history broker) :
    Entries broker ∧ broker.limits = limits ∧ ∀ peer, usage broker peer ≤ limits.usage := by
  refine hrun.invariant (I := fun b => Entries b ∧ b.limits = limits ∧ ∀ peer, usage b peer ≤ limits.usage) ?_ ?_
  · intro b op ⟨hentries, hlimits, husage⟩
    refine ⟨exec_entries b op hentries, (exec_limits_peers b op).1.trans hlimits, fun peer => ?_⟩
    rw [← hlimits] at husage ⊢
    exact exec_usage_within hentries (husage peer) op
  · exact ⟨entries_empty policy limits capabilities, rfl, usage_empty policy limits capabilities⟩

/-- In every run each peer stays within the limits, and no peer adds to what another one uses. -/
theorem run_usage {policy : P} {limits : Limits} {capabilities : Capabilities} {history : List (Op × Reply)}
    (hrun : Run exec (Broker.empty policy limits capabilities) history broker) :
    (∀ peer, usage broker peer ≤ limits.usage) ∧
      ∀ op peer, op.caller ≠ some peer → usage (exec broker op).1 peer ≤ usage broker peer := by
  obtain ⟨hentries, -, husage⟩ := run_within hrun
  exact ⟨husage, fun op peer hcaller => exec_usage_le hentries hcaller⟩

def singleLimits : Limits where
  maximumQueuedBytes := 0
  maximumQueuedMessages := 1
  maximumInFlightRequests := 1
  maximumSubscriptions := 1
  maximumNamespaceClaims := 1

/-- The first of two peers uses all it may. -/
def exhausted : List (Op × Reply) × Broker AllowAll :=
  run exec (Broker.empty .mk singleLimits ∅)
    [plainConnect, plainConnect, .claim (.new 1) plainNamespace, .subscribe (.new 1) plainChannel [],
      .subscribe (.new 1) plainChannel [.doesExist "kind"],
      .beginDelivery (.new 1) (.message (plainRequest (numberedId 1) .none .none .exact (.peer (.new 2)))) 0]

theorem run_usage_exhausted :
    usage exhausted.2 (.new 1) = singleLimits.usage ∧ usage exhausted.2 (.new 1) ≤ singleLimits.usage ∧
      ∀ nowMs, usage (exec exhausted.2 (.tick nowMs)).1 (.new 1) ≤ usage exhausted.2 (.new 1) := by
  obtain ⟨hwithin, hisolated⟩ :=
    run_usage (run_spec _ _ : Run exec (Broker.empty AllowAll.mk singleLimits ∅) exhausted.1 exhausted.2)
  exact ⟨by decide +kernel, hwithin (.new 1), fun nowMs => hisolated (.tick nowMs) (.new 1) (nomatch ·)⟩

end Busd.Broker
