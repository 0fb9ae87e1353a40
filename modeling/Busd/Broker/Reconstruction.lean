import Busd.Broker.Integrity
import Busd.Broker.Ticks

/-!
# What the lifecycle events tell

Someone who follows the lifecycle events knows who is connected and who owns which namespace.

* `Directory`, `replay` : what a follower keeps, and what it makes of the events; an event that contradicts what it
  knows stops the replay;
* `exec_log` : the events of one call lead from the directory before it to the one after it;
* `replay_log` : the events of a whole run, drained or not, lead from nothing to the broker's registry.
-/

namespace Busd.Broker

open Words Machine Busd.Protocol Busd.Policy

/-! ## A follower -/

/-- Who is connected, and who owns each namespace. -/
structure Directory where
  peers : OrdSet PeerId
  owners : OrdMap Namespace PeerId

namespace Directory

def empty : Directory := ⟨∅, ∅⟩

def Knows (directory : Directory) (peer : Option PeerId) : Prop :=
  ∀ owner, peer = some owner → directory.peers.contains owner = true

theorem knows_none (directory : Directory) : directory.Knows none := fun _ h => by cases h

theorem knows_some {directory : Directory} {peer : PeerId} (h : directory.peers.contains peer = true) :
    directory.Knows (some peer) := by
  intro owner howner
  rwa [← Option.some.inj howner]

instance (directory : Directory) (peer : Option PeerId) : Decidable (directory.Knows peer) :=
  match peer with
  | none => .isTrue directory.knows_none
  | some owner => decidable_of_iff (directory.peers.contains owner = true) (by simp [Knows])

/-- One event. A peer is added once, only a known one is removed, and a namespace passes from its owner to a known
peer. -/
def apply (directory : Directory) : LifecycleEvent → Option Directory
  | .peerConnected peer =>
    if directory.peers.contains peer then none
    else some { directory with peers := OrdSet.add directory.peers peer }
  | .peerDisconnected peer =>
    if directory.peers.contains peer then some { directory with peers := directory.peers.erase peer } else none
  | .namespaceOwnerChanged ns previous current =>
    if directory.owners.get? ns = previous ∧ directory.Knows previous ∧ directory.Knows current then
      some { directory with owners := current.elim (directory.owners.erase ns) (directory.owners.insert ns) }
    else none

/-- All events in order, as long as they are consistent. -/
def replay (directory : Directory) (events : List LifecycleEvent) : Option Directory := events.foldlM apply directory

theorem replay_append {directory middle final : Directory} {events events' : List LifecycleEvent}
    (h : directory.replay events = some middle) (h' : middle.replay events' = some final) :
    directory.replay (events ++ events') = some final := by
  unfold replay at h ⊢
  rw [List.foldlM_append, h]
  exact h'

theorem replay_singleton {directory final : Directory} {event : LifecycleEvent}
    (h : directory.apply event = some final) : directory.replay [event] = some final := by
  unfold replay
  rw [List.foldlM_cons, h]
  rfl

/-- The releases of namespaces that all belong to one known peer. -/
theorem replay_releases {directory : Directory} {peer : PeerId} (hpeer : directory.peers.contains peer = true)
    {released : List Namespace} (hnodup : released.Nodup)
    (howned : ∀ ns ∈ released, directory.owners.get? ns = some peer) :
    directory.replay (released.map fun ns => .namespaceOwnerChanged ns (some peer) none) =
      some { directory with owners := released.foldl (fun owners ns => owners.erase ns) directory.owners } := by
  induction released generalizing directory with
  | nil => rfl
  | cons ns released ih =>
    obtain ⟨hnew, hnodup⟩ := List.nodup_cons.mp hnodup
    have hfirst : directory.replay [.namespaceOwnerChanged ns (some peer) none] =
        some { directory with owners := directory.owners.erase ns } := by
      exact replay_singleton (if_pos ⟨howned ns List.mem_cons_self, knows_some hpeer, knows_none directory⟩)
    refine replay_append hfirst (ih hpeer hnodup fun ns' hns' => ?_)
    have hne : ns' ≠ ns := fun heq => hnew (heq ▸ hns')
    rw [OrdMap.get?_erase, if_neg hne]
    exact howned ns' (List.mem_cons_of_mem _ hns')

end Directory

/-! ## The log of a run -/

def Reply.drained : Reply → List LifecycleEvent
  | .lifecycle events => events
  | .connected _ | .completed _ | .delivery _ => []

def connectedIn (events : List LifecycleEvent) : List PeerId :=
  events.filterMap fun
    | .peerConnected peer => some peer
    | .peerDisconnected _ | .namespaceOwnerChanged .. => none

variable {P : Type} {broker : Broker P}

def directory (broker : Broker P) : Directory :=
  ⟨broker.peers.filterMap fun _ _ => some (), broker.namespaces⟩

theorem contains_directory {peer : PeerId} :
    broker.directory.peers.contains peer = true ↔ broker.peers.contains peer = true := by
  unfold directory OrdMap.contains
  rw [OrdMap.get?_filterMap]
  cases broker.peers.get? peer <;> simp

theorem directory_congr {after : Broker P} (hpeers : after.peers = broker.peers)
    (hnamespaces : after.namespaces = broker.namespaces) : after.directory = broker.directory := by
  unfold directory
  rw [hpeers, hnamespaces]

theorem directory_admitPeer (broker : Broker P) (credentials : Credentials) (hello : ClientHello)
    (capabilities : Capabilities) (nextPeer : UInt64) :
    (broker.admitPeer credentials hello capabilities nextPeer).directory =
      { broker.directory with peers := OrdSet.add broker.directory.peers (.new broker.nextPeer) } := by
  refine congrArg (Directory.mk · broker.namespaces) (OrdMap.ext_get? fun peer => ?_)
  show ((broker.peers.insert (.new broker.nextPeer) _).filterMap fun _ _ => some ()).get? peer =
    ((broker.peers.filterMap fun _ _ => some ()).insert (.new broker.nextPeer) ()).get? peer
  rw [OrdMap.get?_filterMap, OrdMap.get?_insert, OrdMap.get?_insert, OrdMap.get?_filterMap]
  split_ifs <;> rfl

theorem directory_releasePeer (broker : Broker P) (peer : PeerId) :
    (broker.releasePeer peer).directory =
      ⟨broker.directory.peers.erase peer, broker.namespaces.filter fun _ owner => owner ≠ peer⟩ := by
  refine congrArg (Directory.mk · _) (OrdMap.ext_get? fun other => ?_)
  show ((broker.peers.erase peer).filterMap fun _ _ => some ()).get? other =
    ((broker.peers.filterMap fun _ _ => some ()).erase peer).get? other
  rw [OrdMap.get?_filterMap, OrdMap.get?_erase, OrdMap.get?_erase, OrdMap.get?_filterMap]
  split_ifs <;> rfl

theorem foldl_erase_released (namespaces : OrdMap Namespace PeerId) (peer : PeerId) :
    (namespaces.filter fun _ owner => owner = peer).keys.foldl (fun owners ns => owners.erase ns) namespaces =
      namespaces.filter fun _ owner => owner ≠ peer := by
  refine OrdMap.ext_get? fun ns => (OrdMap.get?_foldl_erase id _ namespaces ns).trans ?_
  simp only [List.map_id, OrdMap.mem_keys_iff, OrdMap.contains, OrdMap.get?_filter]
  cases namespaces.get? ns with
  | none => simp
  | some owner => by_cases heq : owner = peer <;> simp [Option.filter, heq]

/-- All lifecycle events of a run: those drained, and those that the broker still holds. -/
def log (history : List (Op × Reply)) (broker : Broker P) : List LifecycleEvent :=
  (history.flatMap fun e => e.2.drained) ++ broker.events

variable [Policy P]

/-- What a call adds to the log. -/
structure Logged (broker : Broker P) (op : Op) (events : List LifecycleEvent) : Prop where
  appended : (exec broker op).2.drained ++ (exec broker op).1.events = broker.events ++ events
  replayed : broker.directory.replay events = some (exec broker op).1.directory
  connected : connectedIn events = (exec broker op).2.assigned.toList

theorem logged_nil {op : Op} (hlog : (exec broker op).2.drained ++ (exec broker op).1.events = broker.events)
    (hpeers : (exec broker op).1.peers = broker.peers) (hnamespaces : (exec broker op).1.namespaces = broker.namespaces)
    (hassigned : (exec broker op).2.assigned = none) : Logged broker op [] := by
  refine ⟨by rw [hlog, List.append_nil], ?_, by rw [hassigned]; rfl⟩
  rw [directory_congr hpeers hnamespaces]
  rfl

theorem acknowledge_events (broker : Broker P) (peer : PeerId) (messageId : MessageId) (policy : AckPolicy) :
    (broker.acknowledge peer messageId policy).1.events = broker.events := by
  rcases acknowledge_eq broker peer messageId policy with ⟨error, h⟩ | ⟨pending, m, outcome, -, h⟩
  · rw [h]
  · rw [h]
    rfl

omit [Policy P] in
theorem recordRouting_events (broker : Broker P) (sender : PeerId) (m : Message) (recipients : OrdSet PeerId) :
    (broker.recordRouting sender m recipients).events = broker.events := by
  unfold recordRouting
  split_ifs <;> rfl

theorem beginDelivery_events (broker : Broker P) (sender : PeerId) (message : Frame) (nowMs : UInt64) :
    (broker.beginDelivery sender message nowMs).1.events = broker.events := by
  rcases beginDelivery_state broker sender message nowMs with
    ⟨deliveries, h⟩ | ⟨m, priority, recipients, deliveries, -, -, h⟩
  · rw [h]
  · rw [h]
    exact recordRouting_events broker sender m (OrdSet.ofList recipients)

theorem connect_log (h : Integrity broker) (credentials : Credentials) (hello : ClientHello) :
    ∃ events, Logged broker (.connect credentials hello) events := by
  rcases connectSession_cases broker credentials hello with ⟨error, hc⟩ | ⟨capabilities, nextPeer, hnext, hc⟩
  · refine ⟨[], logged_nil ?_ ?_ ?_ ?_⟩ <;> simp [exec, hc, Reply.drained, Reply.assigned]
  · have hfresh : broker.peers.contains (.new broker.nextPeer) = false := by
      rw [OrdMap.contains_eq_false_iff]
      cases hget : broker.peers.get? (.new broker.nextPeer) with
      | none => rfl
      | some peer => exact absurd (h.peer _ _ hget).2.2 (lt_irrefl _)
    refine ⟨[.peerConnected (.new broker.nextPeer)], ?_, ?_, ?_⟩
    · simp only [exec, hc]
      rfl
    · refine Directory.replay_singleton ((if_neg ?_).trans (congrArg some ?_))
      · rw [contains_directory, hfresh]
        exact Bool.false_ne_true
      · simp only [exec, hc]
        exact (directory_admitPeer broker credentials hello capabilities nextPeer).symm
    · simp only [exec, hc]
      rfl

theorem claim_log (peer : PeerId) (ns : Namespace) : ∃ events, Logged broker (.claim peer ns) events := by
  rcases claim_cases broker peer ns with ⟨error, hc⟩ | ⟨hpeer, hfree, hc⟩
  · refine ⟨[], logged_nil ?_ ?_ ?_ ?_⟩ <;> simp [exec, hc, Reply.drained, Reply.assigned]
  · refine ⟨[.namespaceOwnerChanged ns none (some peer)], ?_, ?_, rfl⟩
    · simp only [exec, hc]
      rfl
    · have hknown := Directory.knows_some (contains_directory.mpr hpeer)
      refine Directory.replay_singleton ((if_pos ⟨hfree, Directory.knows_none _, hknown⟩).trans ?_)
      simp only [exec, hc]
      rfl

theorem connectedIn_releases (released : List Namespace) (peer : PeerId) :
    connectedIn (released.map (fun ns => .namespaceOwnerChanged ns (some peer) none) ++ [.peerDisconnected peer]) =
      [] := by
  unfold connectedIn
  rw [List.filterMap_append, List.filterMap_map]
  simp

theorem disconnect_log (peer : PeerId) : ∃ events, Logged broker (.disconnect peer) events := by
  rcases disconnectWithEvents_cases broker peer with ⟨-, hd⟩ | ⟨hpeer, hd⟩
  · refine ⟨[], logged_nil ?_ ?_ ?_ ?_⟩ <;> simp [exec, hd, Reply.drained, Reply.assigned]
  · refine ⟨(broker.namespaces.filter fun _ owner => owner = peer).keys.map
      (fun ns => .namespaceOwnerChanged ns (some peer) none) ++ [.peerDisconnected peer], ?_, ?_, ?_⟩
    · simp only [exec, hd]
      exact List.append_assoc ..
    · have hknown := contains_directory.mpr hpeer
      have howned : ∀ ns ∈ (broker.namespaces.filter fun _ owner => owner = peer).keys,
          broker.directory.owners.get? ns = some peer := by
        intro ns hns
        obtain ⟨owner, hget⟩ := OrdMap.contains_iff.mp (OrdMap.mem_keys_iff.mp hns)
        rw [OrdMap.get?_filter, Option.filter_eq_some_iff] at hget
        rw [show broker.directory.owners.get? ns = some owner from hget.1]
        exact congrArg some (of_decide_eq_true hget.2)
      refine Directory.replay_append (Directory.replay_releases hknown (OrdMap.nodup_keys _) howned)
        (Directory.replay_singleton ((if_pos hknown).trans (congrArg some ?_)))
      simp only [exec, hd]
      show _ = (broker.releasePeer peer).directory
      rw [directory_releasePeer, ← foldl_erase_released]
      rfl
    · rw [connectedIn_releases]
      rfl

/-- The events of a call lead from the directory before it to the one after it. -/
theorem exec_log (h : Integrity broker) (op : Op) : ∃ events, Logged broker op events := by
  cases op with
  | connect credentials hello => exact connect_log h credentials hello
  | disconnect peer => exact disconnect_log peer
  | claim peer ns => exact claim_log peer ns
  | subscribe peer channel filters =>
    rcases subscribeWithFilters_cases broker peer channel filters with ⟨error, hc⟩ | ⟨-, hc⟩ <;>
    · refine ⟨[], logged_nil ?_ ?_ ?_ rfl⟩ <;>
      · simp only [exec, hc]
        rfl
  | unsubscribe peer channel =>
    rcases unsubscribe_cases broker peer channel with ⟨result, hc⟩ | ⟨_, -, hc⟩ <;>
    · refine ⟨[], logged_nil ?_ ?_ ?_ rfl⟩ <;>
      · simp only [exec, hc]
        rfl
  | registerDbusName peer name =>
    rcases registerDbusName_cases broker peer name with ⟨error, hc⟩ | ⟨-, hc⟩ <;>
    · refine ⟨[], logged_nil ?_ ?_ ?_ rfl⟩ <;>
      · simp only [exec, hc]
        rfl
  | beginDelivery sender message nowMs =>
    have hsame := beginDelivery_sameRegistry broker sender message nowMs
    exact ⟨[], logged_nil (beginDelivery_events broker sender message nowMs) hsame.peers hsame.namespaces rfl⟩
  | acknowledge peer messageId policy =>
    have hsame := acknowledge_sameRegistry broker peer messageId policy
    exact ⟨[], logged_nil (acknowledge_events broker peer messageId policy) hsame.peers hsame.namespaces rfl⟩
  | tick nowMs =>
    have hsame := tick_sameRegistry broker nowMs
    exact ⟨[], logged_nil (tick_counted broker nowMs).lifecycle hsame.peers hsame.namespaces rfl⟩
  | drainEvents => exact ⟨[], logged_nil (List.append_nil _) rfl rfl rfl⟩

/-! ## Every run -/

theorem log_snoc (history : List (Op × Reply)) {op : Op} {events : List LifecycleEvent} (h : Logged broker op events) :
    log (history ++ [(op, (exec broker op).2)]) (exec broker op).1 = log history broker ++ events := by
  unfold log
  rw [List.flatMap_append, List.flatMap_singleton, List.append_assoc, h.appended, List.append_assoc]

theorem replay_run {start broker : Broker P} {history : List (Op × Reply)} (hrun : Run exec start history broker)
    (hsound : Sound start) (hempty : start.events = []) :
    start.directory.replay (log history broker) = some broker.directory ∧
      connectedIn (log history broker) = assigned history := by
  induction hrun with
  | nil =>
    have hlog : log [] start = [] := hempty
    rw [hlog]
    exact ⟨rfl, rfl⟩
  | @snoc b b' history op reply hrun hstep ih =>
    obtain ⟨events, hlogged⟩ := exec_log (run_sound hrun hsound).1 op
    have hlog := log_snoc history hlogged
    rw [hstep] at hlog
    rw [hlog]
    refine ⟨Directory.replay_append ih.1 (by rw [hlogged.replayed, hstep]), ?_⟩
    unfold connectedIn assigned at ih ⊢
    rw [List.filterMap_append, ih.2, List.filterMap_append]
    congr 1
    refine hlogged.connected.trans ?_
    rw [hstep]
    cases hassigned : reply.assigned <;> simp [hassigned]

/-- From the empty registry the lifecycle events of a run, wherever they were drained, replay without a contradiction
to the peers and owners that the broker has, and add no peer twice. -/
theorem replay_log {policy : P} {limits : Limits} {capabilities : Capabilities} {history : List (Op × Reply)}
    (hrun : Run exec (Broker.empty policy limits capabilities) history broker) :
    (∃ final, Directory.empty.replay (log history broker) = some final ∧
      (∀ peer, final.peers.contains peer = broker.peers.contains peer) ∧ final.owners = broker.namespaces) ∧
    (connectedIn (log history broker)).Nodup := by
  obtain ⟨hreplay, hconnected⟩ := replay_run hrun (sound_empty policy limits capabilities) rfl
  refine ⟨⟨broker.directory, hreplay, fun peer => ?_, rfl⟩, ?_⟩
  · exact Bool.eq_iff_iff.mpr contains_directory
  · rw [hconnected]
    exact (run_assigned hrun (le_refl _)).2.1

/-- Two peers connect, one claims a namespace and leaves, and the events are drained in between. -/
def followedOps : List Op :=
  [plainConnect, plainConnect, .claim (.new 1) plainNamespace, .drainEvents, .disconnect (.new 1),
    .claim (.new 2) plainNamespace]

def followedRun : List (Op × Reply) × Broker AllowAll := run exec (Broker.empty .mk .default ∅) followedOps

theorem replay_log_followedRun :
    log followedRun.1 followedRun.2 =
        [.peerConnected (.new 1), .peerConnected (.new 2),
          .namespaceOwnerChanged plainNamespace none (some (.new 1)),
          .namespaceOwnerChanged plainNamespace (some (.new 1)) none, .peerDisconnected (.new 1),
          .namespaceOwnerChanged plainNamespace none (some (.new 2))] ∧
      ∃ final, Directory.empty.replay (log followedRun.1 followedRun.2) = some final ∧
        (∀ peer, final.peers.contains peer = followedRun.2.peers.contains peer) ∧
        final.owners = followedRun.2.namespaces :=
  ⟨by decide +kernel, (replay_log (run_spec _ _)).1⟩

end Busd.Broker
