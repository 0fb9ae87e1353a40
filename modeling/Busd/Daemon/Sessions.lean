import Busd.Broker.Quotas
import Busd.Daemon.Handshake

/-!
# Who a session acts for

The threads of the daemon share one broker and one session map, and everything they tell the broker names a peer.

* `identities` : the identities that calls made on one connection were assigned in a run;
* `credentialsOf` : the credentials that the kernel named for it;
* `MadeBy` : a call of the clock, the one attempt of a connection to join, or a call in the name of the identity
  that this connection was assigned;
* `session_identity` : every call of the broker in every run is one of these, no two connections share an identity, and
  the broker knows each peer by the credentials of its own connection.
-/

namespace Busd.Daemon

open Words Machine Busd.Protocol Busd.Policy Busd.Broker

variable {P : Type} {state start : State P} {connection : Connection} {history : List (Turn × Output)}

/-! ## Identities and credentials -/

/-- The thread that moves in a turn: a connection, or the clock. -/
def Turn.thread : Turn → Option Connection
  | .serve connection _ => some connection
  | .accept | .tick _ | .dispatch _ => none

def identities (history : List (Turn × Output)) (connection : Connection) : List PeerId :=
  history.flatMap fun e => if e.1.thread = some connection then (e.2.call.bind (·.2.assigned)).toList else []

theorem identities_snoc (history : List (Turn × Output)) (turn : Turn) (output : Output) (connection : Connection) :
    identities (history ++ [(turn, output)]) connection = identities history connection ++
      if turn.thread = some connection then (output.call.bind (·.2.assigned)).toList else [] := by
  unfold identities
  rw [List.flatMap_append, List.flatMap_singleton]

/-- The credentials that are read in a turn, for the thread of this connection. -/
def readCredentials (connection : Connection) (state : State P) : Turn → List Credentials
  | .serve c io => if c = connection ∧ state.threads[c]? = some .start then io.credentials.toList else []
  | _ => []

variable [Policy P]

/-- The credentials that the kernel named for this connection. -/
def credentialsOf (start : State P) (history : List (Turn × Output)) (connection : Connection) : List Credentials :=
  written step (readCredentials connection) start history

def Pc.credentials : Pc → Option Credentials
  | .awaitHello credentials | .connecting credentials _ => some credentials
  | _ => none

/-- How a step of a call speaks to the broker: not at all, to join, or in the name of its identity. -/
inductive Speaks (broker : Broker P) (pc pc' : Pc) : Option (Op × Reply) → Prop
  | silent (h : pc'.stage.assigned = pc.stage.assigned) : Speaks broker pc pc' none
  | joins (credentials : Credentials) (hello : ClientHello) (hpc : pc = .connecting credentials hello)
      (h : pc'.stage.assigned = (exec broker (.connect credentials hello)).2.assigned) :
      Speaks broker pc pc' (some (.connect credentials hello, (exec broker (.connect credentials hello)).2))
  | performs (id : PeerId) (op : Op) (hid : pc.stage.assigned = some id) (hop : op.caller = some id)
      (h : pc'.stage.assigned = some id) : Speaks broker pc pc' (some (op, (exec broker op).2))

theorem handleFrame_speaks (state : State P) (id : PeerId) (io : Io) (frame : Frame) :
    Speaks state.broker (.handling id frame) (handleFrame state id io.nowMs frame).pc
      (handleFrame state id io.nowMs frame).call := by
  have hstage := congrArg Stage.assigned (handleFrame_stays state id io.nowMs frame).2.2
  cases frame with
  | claim ns headers =>
    simp only [handleFrame] at hstage ⊢
    split_ifs at hstage ⊢ with hempty
    · exact .performs id (.claim id ns) rfl rfl hstage
    · exact .silent hstage
  | subscribe channel filters => exact .performs id (.subscribe id channel filters) rfl rfl hstage
  | unsubscribe channel => exact .performs id (.unsubscribe id channel) rfl rfl hstage
  | message m => exact .performs id (.beginDelivery id (.message m) io.nowMs) rfl rfl hstage
  | acknowledge messageId policy => exact .performs id (.acknowledge id messageId policy) rfl rfl hstage
  | _ => exact .silent hstage

theorem connecting_speaks (state : State P) (connection : Connection) (io : Io) (credentials : Credentials)
    (hello : ClientHello) :
    Speaks state.broker (.connecting credentials hello)
      (servePeer state connection io (.connecting credentials hello)).pc
      (servePeer state connection io (.connecting credentials hello)).call := by
  refine .joins credentials hello rfl ?_
  simp only [servePeer, moved_pc, exec, Prod.map_snd]
  cases (state.broker.connectSession credentials hello).2 with
  | ok session => rfl
  | error error => rfl

/-- A thread tells the broker nothing but its own. -/
theorem servePeer_speaks (state : State P) (connection : Connection) (io : Io) (pc : Pc) :
    Speaks state.broker pc (servePeer state connection io pc).pc (servePeer state connection io pc).call := by
  -- a step that makes no call keeps the identity
  have hsilent : ∀ moved : Moved P, moved.call = none → moved.pc.stage.assigned = pc.stage.assigned →
      Speaks state.broker pc moved.pc moved.call := by
    intro moved hcall hstage
    rw [hcall]
    exact .silent hstage
  cases pc with
  | start =>
    simp only [servePeer]
    cases io.credentials with
    | none => exact hsilent _ rfl rfl
    | some credentials => exact hsilent _ rfl rfl
  | awaitHello credentials =>
    simp only [servePeer]
    cases io.received with
    | packet packet =>
      refine hsilent _ rfl ?_
      simp only [moved_pc, firstFrame]
      split
      · rfl
      · rfl
      · rfl
    | _ => exact hsilent _ rfl rfl
  | connecting credentials hello => exact connecting_speaks state connection io credentials hello
  | rejecting code message => exact hsilent _ (sends_call ..) (by simp [servePeer, Pc.stage])
  | welcoming session =>
    refine hsilent _ (sends_call ..) ?_
    simp only [servePeer, sends_pc]
    split
    · rfl
    · rfl
  | registering id =>
    simp only [servePeer]
    split_ifs with hcloned
    · exact hsilent _ rfl rfl
    · exact hsilent _ rfl rfl
  | receiving id =>
    refine hsilent _ rfl ?_
    simp only [servePeer, moved_pc]
    cases io.received with
    | packet packet =>
      simp only [nextFrame]
      split
      · rfl
      · rfl
    | _ => rfl
  | handling id frame => exact handleFrame_speaks state id io frame
  | replying id frame =>
    refine hsilent _ (sends_call ..) ?_
    simp only [servePeer, sends_pc]
    split
    · rfl
    · rfl
  | dispatching id events =>
    cases events with
    | nil => exact hsilent _ rfl rfl
    | cons event events =>
      refine hsilent _ rfl ?_
      simp only [servePeer, dispatches_pc]
      split
      · rfl
      · rfl
  | refusing id code message => exact hsilent _ (sends_call ..) (by simp [servePeer, Pc.stage])
  | unregistering id result => exact hsilent _ rfl rfl
  | disconnecting id result =>
    refine .performs id (.disconnect id) rfl rfl ?_
    simp only [servePeer, moved_pc]
    split
    · rfl
    · rfl
  | flushing id events result =>
    cases events with
    | nil => exact hsilent _ rfl rfl
    | cons event events =>
      refine hsilent _ rfl ?_
      simp only [servePeer, dispatches_pc]
      split
      · rfl
      · rfl
  | returned assigned result => exact hsilent _ rfl rfl

theorem assigned_of_caller (broker : Broker P) {op : Op} {id : PeerId} (h : op.caller = some id) :
    (exec broker op).2.assigned = none := by
  cases op with
  | connect credentials hello => cases h
  | _ => rfl

/-- Only a call that joins adds to the peers. -/
theorem peers_of_caller {broker : Broker P} {op : Op} {id id' : PeerId} {peer : Peer} (h : op.caller = some id)
    (hpeer : (exec broker op).1.peers.get? id' = some peer) : broker.peers.get? id' = some peer := by
  by_cases hgone : ∃ peer, op = .disconnect peer
  · obtain ⟨gone, rfl⟩ := hgone
    rcases disconnectWithEvents_cases broker gone with ⟨-, hc⟩ | ⟨-, hc⟩
    · simp only [exec, hc] at hpeer
      exact hpeer
    · simp only [exec, hc] at hpeer
      change (broker.peers.erase gone).get? id' = some peer at hpeer
      rw [OrdMap.get?_erase] at hpeer
      split_ifs at hpeer
      exact hpeer
  · have hsame := exec_samePeers broker (fun credentials hello heq => by rw [heq] at h; cases h)
      fun peer heq => hgone ⟨peer, heq⟩
    rwa [hsame.peers] at hpeer

theorem servePeer_assigned (state : State P) (connection : Connection) (io : Io) {pc : Pc} {id : PeerId}
    (h : pc.stage.assigned = some id) : (servePeer state connection io pc).pc.stage.assigned = some id := by
  have hspeaks := servePeer_speaks state connection io pc
  generalize (servePeer state connection io pc).call = call at hspeaks
  cases hspeaks with
  | silent hsame => rw [hsame, h]
  | joins credentials hello hpc _ =>
    rw [hpc] at h
    cases h
  | performs id' op hid _ hsame => rw [hsame, ← hid, h]

theorem Pc.assigned_of_credentials {pc : Pc} {credentials : Credentials} (h : pc.credentials = some credentials) :
    pc.stage.assigned = none := by
  cases pc with
  | awaitHello _ => rfl
  | connecting _ _ => rfl
  | _ => cases h

theorem servePeer_credentials (state : State P) (connection : Connection) (io : Io) {pc : Pc}
    {credentials : Credentials} (h : (servePeer state connection io pc).pc.credentials = some credentials) :
    (pc = .start ∧ io.credentials = some credentials) ∨ pc.credentials = some credentials := by
  -- once a call has an identity it has handed its credentials on
  have hkept : ∀ id, pc.stage.assigned ≠ some id := by
    intro id hid
    have hafter := servePeer_assigned state connection io hid
    rw [Pc.assigned_of_credentials h] at hafter
    cases hafter
  cases pc with
  | start =>
    simp only [servePeer] at h
    cases hread : io.credentials with
    | none =>
      rw [hread] at h
      cases h
    | some read =>
      rw [hread] at h
      exact .inl ⟨rfl, h⟩
  | awaitHello read =>
    refine .inr ?_
    simp only [servePeer] at h
    cases hreceived : io.received with
    | packet packet =>
      rw [hreceived] at h
      simp only [moved_pc, firstFrame] at h
      split at h
      · exact h
      · cases h
      · cases h
    | _ =>
      rw [hreceived] at h
      cases h
  | connecting read hello =>
    simp only [servePeer, moved_pc] at h
    split at h
    · cases h
    · cases h
  | rejecting code message =>
    simp only [servePeer, sends_pc] at h
    cases h
  | returned assigned result => cases h
  | _ => exact absurd rfl (hkept _)

/-! ## The identity of a connection -/

/-- What the history of a run says of the threads and of the peers in the broker. -/
structure Bound (start : State P) (history : List (Turn × Output)) (state : State P) : Prop where
  identity : ∀ c, (state.stageOf c).assigned.toList = identities history c
  unread : ∀ c : Connection, state.threads[c]? = none ∨ state.threads[c]? = some .start →
    credentialsOf start history c = []
  credentials : ∀ (c : Connection) pc credentials, state.threads[c]? = some pc → pc.credentials = some credentials →
    credentialsOf start history c = [credentials]
  peers : ∀ id peer, state.broker.peers.get? id = some peer →
    ∃ c, identities history c = [id] ∧ credentialsOf start history c = [peer.credentials]

theorem bound_initial (broker : Broker P) (limits : FrameLimits) (hempty : broker.peers = ∅) :
    Bound (State.initial broker limits) [] (State.initial broker limits) := by
  refine ⟨fun c => rfl, fun c _ => rfl, fun c pc credentials hpc => ?_, fun id peer hpeer => ?_⟩
  · cases hpc
  · change broker.peers.get? id = some peer at hpeer
    rw [hempty] at hpeer
    cases hpeer

theorem threads_serve {io : Io} {pc : Pc} (h : state.threads[connection]? = some pc) (c : Connection) :
    (step state (.serve connection io)).1.threads[c]? =
      if c = connection then some (servePeer state connection io pc).pc else state.threads[c]? := by
  obtain ⟨hlt, -⟩ := List.getElem?_eq_some_iff.mp h
  simp only [step, h]
  split_ifs with heq
  · rw [heq, List.getElem?_set_self hlt]
  · rw [List.getElem?_set_ne (Ne.symm heq)]

theorem servePeer_ne_start (state : State P) (connection : Connection) (io : Io) (pc : Pc) :
    (servePeer state connection io pc).pc ≠ .start := by
  intro hstart
  have hkept : ∀ id, pc.stage.assigned ≠ some id := by
    intro id hid
    have hafter := servePeer_assigned state connection io hid
    rw [hstart] at hafter
    cases hafter
  cases pc with
  | start =>
    simp only [servePeer] at hstart
    cases hread : io.credentials with
    | none =>
      rw [hread] at hstart
      cases hstart
    | some read =>
      rw [hread] at hstart
      cases hstart
  | awaitHello read =>
    simp only [servePeer] at hstart
    cases hreceived : io.received with
    | packet packet =>
      rw [hreceived] at hstart
      simp only [moved_pc, firstFrame] at hstart
      split at hstart
      · cases hstart
      · cases hstart
      · cases hstart
    | _ =>
      rw [hreceived] at hstart
      cases hstart
  | connecting read hello =>
    simp only [servePeer, moved_pc] at hstart
    split at hstart
    · cases hstart
    · cases hstart
  | rejecting code message =>
    simp only [servePeer, sends_pc] at hstart
    cases hstart
  | returned assigned result => cases hstart
  | _ => exact absurd rfl (hkept _)

theorem credentialsOf_snoc (hrun : Run step start history state) (turn : Turn) (output : Output) (c : Connection) :
    credentialsOf start (history ++ [(turn, output)]) c = credentialsOf start history c ++ readCredentials c state turn :=
  hrun.written_snoc turn output

theorem Bound.identity_serve (h : Bound start history state) {io : Io} {pc : Pc}
    (hpc : state.threads[connection]? = some pc) (c : Connection) :
    ((step state (.serve connection io)).1.stageOf c).assigned.toList =
      identities (history ++ [(.serve connection io, (step state (.serve connection io)).2)]) c := by
  rw [identities_snoc, stageOf_serve hpc, ← h.identity c]
  by_cases heq : c = connection
  · subst heq
    have hspeaks := servePeer_speaks state c io pc
    rw [Function.update_self, if_pos (show (Turn.serve c io).thread = some c from rfl), stageOf_eq hpc]
    simp only [step, hpc]
    generalize (servePeer state c io pc).pc = pc' at hspeaks ⊢
    generalize (servePeer state c io pc).call = call at hspeaks ⊢
    cases hspeaks with
    | silent hsame =>
      rw [hsame]
      exact (List.append_nil _).symm
    | joins credentials hello hjoins hafter =>
      rw [hafter, hjoins]
      rfl
    | performs id op hid hop hafter =>
      have hnone := assigned_of_caller state.broker hop
      rw [hid, hafter, Option.bind_some, hnone]
      exact (List.append_nil _).symm
  · have hother : (Turn.serve connection io).thread ≠ some c := fun hthread => heq (Option.some.inj hthread).symm
    rw [Function.update_of_ne heq, if_neg hother, List.append_nil]

/-- A call that joins has its own credentials put into the broker; other calls put nobody there. -/
theorem servePeer_peers (state : State P) (connection : Connection) (io : Io) (pc : Pc) {id : PeerId} {peer : Peer}
    (h : (servePeer state connection io pc).broker.peers.get? id = some peer) :
    state.broker.peers.get? id = some peer ∨
      pc.credentials = some peer.credentials ∧ pc.stage.assigned = none ∧
        (servePeer state connection io pc).pc.stage.assigned = some id := by
  have hspeaks := servePeer_speaks state connection io pc
  have hcalls := servePeer_calls state connection io pc
  generalize (servePeer state connection io pc).broker = broker at h hcalls
  generalize (servePeer state connection io pc).call = call at hspeaks hcalls
  rcases hcalls with ⟨-, rfl⟩ | ⟨op, hcall, rfl⟩
  · exact .inl h
  cases hspeaks with
  | silent _ => cases hcall
  | performs id' op' _ hop _ =>
    cases hcall
    exact .inl (peers_of_caller hop h)
  | joins credentials hello hpc hafter =>
    cases hcall
    rcases connectSession_cases state.broker credentials hello with ⟨error, hc⟩ | ⟨capabilities, nextPeer, -, hc⟩
    · simp only [exec, hc] at h
      exact .inl h
    · simp only [exec, hc] at h hafter
      change (state.broker.peers.insert (.new state.broker.nextPeer) _).get? id = some peer at h
      rw [OrdMap.get?_insert] at h
      split_ifs at h with hid
      · cases h
        refine .inr ⟨by rw [hpc]; rfl, by rw [hpc]; rfl, ?_⟩
        rw [hafter, hid]
        rfl
      · exact .inl h

omit [Policy P] in
theorem readCredentials_of_ne {io : Io} {c : Connection} (h : c ≠ connection) :
    readCredentials c state (.serve connection io) = [] :=
  if_neg fun hread => h hread.1.symm

omit [Policy P] in
theorem readCredentials_of_not_start {io : Io} {pc : Pc} (hpc : state.threads[connection]? = some pc)
    (h : pc ≠ .start) (c : Connection) : readCredentials c state (.serve connection io) = [] := by
  refine if_neg fun hread => h ?_
  rw [hpc] at hread
  exact Option.some.inj hread.2

theorem Bound.serve (h : Bound start history state) (hrun : Run step start history state) {io : Io} {pc : Pc}
    (hpc : state.threads[connection]? = some pc) :
    Bound start (history ++ [(.serve connection io, (step state (.serve connection io)).2)])
      (step state (.serve connection io)).1 := by
  have hidentity : ∀ c, ((step state (.serve connection io)).1.stageOf c).assigned.toList =
      identities (history ++ [(.serve connection io, (step state (.serve connection io)).2)]) c :=
    fun c => h.identity_serve hpc c
  have hthreads : ∀ c : Connection, (step state (.serve connection io)).1.threads[c]? =
      if c = connection then some (servePeer state connection io pc).pc else state.threads[c]? :=
    fun c => threads_serve hpc c
  have hread := fun c => credentialsOf_snoc hrun (.serve connection io) (step state (.serve connection io)).2 c
  -- a call with credentials or with an identity has started
  have hstarted : ∀ credentials, pc.credentials = some credentials → pc ≠ .start := by
    rintro credentials hcredentials rfl
    cases hcredentials
  refine ⟨hidentity, fun c hc => ?_, fun c pc' credentials hc hcredentials => ?_, fun id peer hpeer => ?_⟩
  · rw [hthreads] at hc
    rw [hread]
    split_ifs at hc with heq
    · rcases hc with hc | hc
      · cases hc
      · exact absurd (Option.some.inj hc) (servePeer_ne_start state connection io pc)
    · rw [readCredentials_of_ne heq, h.unread c hc]
      rfl
  · rw [hthreads] at hc
    rw [hread]
    split_ifs at hc with heq
    · subst heq
      obtain rfl := Option.some.inj hc
      rcases servePeer_credentials state c io hcredentials with ⟨rfl, hio⟩ | hbefore
      · rw [h.unread c (.inr hpc), readCredentials, if_pos ⟨rfl, hpc⟩, hio]
        rfl
      · rw [h.credentials c pc credentials hpc hbefore, readCredentials_of_not_start hpc (hstarted _ hbefore)]
        rfl
    · rw [readCredentials_of_ne heq, h.credentials c pc' credentials hc hcredentials]
      rfl
  · simp only [step, hpc] at hpeer
    rcases servePeer_peers state connection io pc hpeer with hold | ⟨hcredentials, -, hassigned⟩
    · obtain ⟨c, hc, hcredentials⟩ := h.peers id peer hold
      refine ⟨c, ?_, ?_⟩
      · rw [← hidentity, stageOf_serve hpc]
        by_cases heq : c = connection
        · subst heq
          rw [← h.identity, stageOf_eq hpc, Option.toList_eq_singleton_iff] at hc
          rw [Function.update_self, servePeer_assigned state c io hc]
          rfl
        · rw [Function.update_of_ne heq, h.identity, hc]
      · rw [hread, hcredentials]
        by_cases heq : c = connection
        · subst heq
          have hnotstart : pc ≠ .start := by
            rintro rfl
            rw [← h.identity, stageOf_eq hpc] at hc
            cases hc
          rw [readCredentials_of_not_start hpc hnotstart]
          rfl
        · rw [readCredentials_of_ne heq]
          rfl
    · refine ⟨connection, ?_, ?_⟩
      · rw [← hidentity, stageOf_serve hpc, Function.update_self, hassigned]
        rfl
      · rw [hread, h.credentials connection pc peer.credentials hpc hcredentials,
          readCredentials_of_not_start hpc (hstarted _ hcredentials)]
        rfl

theorem Bound.other (h : Bound start history state) (hrun : Run step start history state) {turn : Turn}
    (hquiet : ∀ c, turn.thread = some c → (step state turn).2.call = none)
    (hread : ∀ c, readCredentials c state turn = [])
    (hstage : (step state turn).1.stageOf = state.stageOf)
    (hthreads : ∀ c : Connection, (step state turn).1.threads[c]? = state.threads[c]? ∨
      state.threads[c]? = none ∧ (step state turn).1.threads[c]? = some .start)
    (hpeers : (step state turn).1.broker.peers = state.broker.peers) :
    Bound start (history ++ [(turn, (step state turn).2)]) (step state turn).1 := by
  have hidentities : ∀ c, identities (history ++ [(turn, (step state turn).2)]) c = identities history c := by
    intro c
    rw [identities_snoc]
    split_ifs with hthread
    · rw [hquiet c hthread]
      exact List.append_nil _
    · exact List.append_nil _
  have hcredentials : ∀ c, credentialsOf start (history ++ [(turn, (step state turn).2)]) c =
      credentialsOf start history c := by
    intro c
    rw [credentialsOf_snoc hrun, hread, List.append_nil]
  refine ⟨fun c => ?_, fun c hc => ?_, fun c pc credentials hpc hpending => ?_, fun id peer hpeer => ?_⟩
  · rw [hstage, hidentities, h.identity]
  · rw [hcredentials]
    rcases hthreads c with hsame | ⟨hnone, -⟩
    · exact h.unread c (hsame ▸ hc)
    · exact h.unread c (.inl hnone)
  · rw [hcredentials]
    rcases hthreads c with hsame | ⟨-, hnew⟩
    · exact h.credentials c pc credentials (hsame ▸ hpc) hpending
    · obtain rfl := Option.some.inj (hnew.symm.trans hpc)
      cases hpending
  · rw [hpeers] at hpeer
    obtain ⟨c, hc, hcred⟩ := h.peers id peer hpeer
    exact ⟨c, (hidentities c).trans hc, (hcredentials c).trans hcred⟩

theorem threads_accept (state : State P) (c : Connection) :
    (step state .accept).1.threads[c]? = state.threads[c]? ∨
      state.threads[c]? = none ∧ (step state .accept).1.threads[c]? = some .start := by
  simp only [step]
  rcases lt_trichotomy c state.threads.length with hlt | heq | hgt
  · exact .inl (List.getElem?_append_left hlt)
  · rw [heq, List.getElem?_concat_length]
    exact .inr ⟨List.getElem?_eq_none (le_refl _), rfl⟩
  · refine .inl ?_
    rw [List.getElem?_eq_none (by simpa using Nat.succ_le_of_lt hgt), List.getElem?_eq_none hgt.le]

theorem Bound.step (h : Bound start history state) (hrun : Run Daemon.step start history state) (turn : Turn) :
    Bound start (history ++ [(turn, (Daemon.step state turn).2)]) (Daemon.step state turn).1 := by
  cases turn with
  | accept =>
    exact h.other hrun (fun _ _ => rfl) (fun _ => rfl) (stageOf_accept state) (threads_accept state) rfl
  | serve connection io =>
    cases hpc : state.threads[connection]? with
    | some pc => exact h.serve hrun hpc
    | none =>
      have hread : ∀ c, readCredentials c state (.serve connection io) = [] := by
        refine fun c => if_neg fun hread => ?_
        rw [hpc] at hread
        cases hread.2
      have hsame : Daemon.step state (.serve connection io) = (state, ⟨[], none⟩) := by
        simp only [Daemon.step, hpc]
      refine h.other hrun (fun _ _ => ?_) hread ?_ (fun c => .inl ?_) ?_
      all_goals rw [hsame]
  | tick nowMs =>
    have hstep : (Daemon.step state (.tick nowMs)).1.threads = state.threads ∧
        (Daemon.step state (.tick nowMs)).1.broker.peers = state.broker.peers := by
      simp only [Daemon.step]
      split_ifs
      · exact ⟨rfl, (tick_sameRegistry state.broker nowMs).peers⟩
      · exact ⟨rfl, rfl⟩
    refine h.other hrun (fun c hc => by cases hc) (fun _ => rfl) ?_ (fun c => .inl (by rw [hstep.1])) hstep.2
    funext c
    simp only [State.stageOf, hstep.1]
  | dispatch io =>
    have hstep : (Daemon.step state (.dispatch io)).1.threads = state.threads ∧
        (Daemon.step state (.dispatch io)).1.broker = state.broker := by
      simp only [Daemon.step]
      split
      · exact ⟨rfl, rfl⟩
      · exact ⟨rfl, rfl⟩
    refine h.other hrun (fun c hc => by cases hc) (fun _ => rfl) ?_ (fun c => .inl (by rw [hstep.1]))
      (by rw [hstep.2])
    funext c
    simp only [State.stageOf, hstep.1]

theorem run_bound {broker : Broker P} {limits : FrameLimits} (hempty : broker.peers = ∅)
    (hrun : Run step (State.initial broker limits) history state) :
    Bound (State.initial broker limits) history state := by
  generalize hstart : State.initial broker limits = start at hrun ⊢
  induction hrun with
  | nil =>
    subst hstart
    exact bound_initial broker limits hempty
  | @snoc s s' history turn output hbefore hstep ih =>
    have hafter := ih.step hbefore turn
    rwa [hstep] at hafter

theorem run_listed {broker : Broker P} {limits : FrameLimits}
    (hrun : Run step (State.initial broker limits) history state) : state.Listed :=
  hrun.invariant step_listed (initial_listed broker limits)

/-- Whose call it is, given the history before the turn in which it is made. -/
inductive MadeBy (start : State P) (history : List (Turn × Output)) : Turn → Op → Prop
  | clock (nowMs : UInt64) : MadeBy start history (.tick nowMs) (.tick nowMs)
  /-- the attempt of a connection without identity to join, with the credentials that the kernel names for it -/
  | joins (connection : Connection) (io : Io) (credentials : Credentials) (hello : ClientHello)
      (hidentity : identities history connection = [])
      (hcredentials : credentialsOf start history connection = [credentials]) :
      MadeBy start history (.serve connection io) (.connect credentials hello)
  /-- a call in the name of the identity that the connection was assigned -/
  | performs (connection : Connection) (io : Io) (id : PeerId) (op : Op)
      (hidentity : identities history connection = [id]) (hcaller : op.caller = some id) :
      MadeBy start history (.serve connection io) op

theorem Bound.madeBy (h : Bound start history state) {turn : Turn} {op : Op} {reply : Reply}
    (hcall : (Daemon.step state turn).2.call = some (op, reply)) : MadeBy start history turn op := by
  cases turn with
  | accept => cases hcall
  | serve connection io =>
    cases hpc : state.threads[connection]? with
    | none =>
      simp only [Daemon.step, hpc] at hcall
      cases hcall
    | some pc =>
      have hspeaks := servePeer_speaks state connection io pc
      simp only [Daemon.step, hpc] at hcall
      rw [hcall] at hspeaks
      cases hspeaks with
      | joins credentials hello hjoins _ =>
        refine .joins connection io credentials hello ?_ ?_
        · rw [← h.identity, stageOf_eq hpc, hjoins]
          rfl
        · exact h.credentials connection pc credentials hpc (by rw [hjoins]; rfl)
      | performs id op hid hop _ =>
        refine .performs connection io id op ?_ hop
        rw [← h.identity, stageOf_eq hpc, hid]
        rfl
  | tick nowMs =>
    simp only [Daemon.step] at hcall
    split_ifs at hcall
    cases hcall
    exact .clock nowMs
  | dispatch io =>
    simp only [Daemon.step] at hcall
    split at hcall
    · cases hcall
    · cases hcall

/-- In every run of a new daemon, under any interleaving of its threads: every call of the broker is made by the clock,
by a connection that joins with its own credentials, or by a connection in the name of the identity it was assigned;
no connection has two identities and no identity two connections; and the broker knows each peer by the credentials of
its own connection. -/
theorem session_identity {policy : P} {limits : Limits} {capabilities : Capabilities} {frameLimits : FrameLimits}
    (hrun : Run step (State.initial (Broker.empty policy limits capabilities) frameLimits) history state) :
    (∀ before turn output after op reply, history = before ++ (turn, output) :: after →
        output.call = some (op, reply) →
        MadeBy (State.initial (Broker.empty policy limits capabilities) frameLimits) before turn op) ∧
      (∀ c, (identities history c).length ≤ 1) ∧
      (∀ c c' id, id ∈ identities history c → id ∈ identities history c' → c' = c) ∧
      ∀ id peer, state.broker.peers.get? id = some peer → ∃ c, identities history c = [id] ∧
        credentialsOf (State.initial (Broker.empty policy limits capabilities) frameLimits) history c =
          [peer.credentials] := by
  have hbound := run_bound rfl hrun
  have hlisted := run_listed hrun
  have hmem : ∀ c id, id ∈ identities history c → (state.stageOf c).assigned = some id := by
    intro c id hid
    rw [← hbound.identity] at hid
    exact Option.mem_toList.mp hid
  refine ⟨fun before turn output after op reply heq hcall => ?_, fun c => ?_, fun c c' id hc hc' => ?_, hbound.peers⟩
  · rw [heq] at hrun
    obtain ⟨s, hbefore, houtput⟩ := hrun.step_at
    rw [houtput] at hcall
    exact (run_bound rfl hbefore).madeBy hcall
  · rw [← hbound.identity]
    cases (state.stageOf c).assigned with
    | none => exact Nat.zero_le _
    | some id => exact le_refl _
  · exact hlisted.distinct c c' id (hmem c id hc) (hmem c' id hc')

/-- Two clients join, and the second one claims a namespace. -/
def secondClaims : List (Turn × Output) × State AllowAll :=
  run step openDaemon ([.accept, .accept] ++ joins 0 ++ joins 1 ++ submits 1 (.claim plainNamespace ∅))

theorem session_identity_secondClaims :
    identities secondClaims.1 0 = [.new 1] ∧ identities secondClaims.1 1 = [.new 2] ∧
      secondClaims.2.broker.namespaces.get? plainNamespace = some (.new 2) ∧
      ∀ c, .new 2 ∈ identities secondClaims.1 c → c = 1 := by
  have hsecond : identities secondClaims.1 1 = [.new 2] := by decide +kernel
  refine ⟨by decide +kernel, hsecond, by decide +kernel, fun c hc => ?_⟩
  have hmem : .new 2 ∈ identities secondClaims.1 1 := by rw [hsecond]; exact List.mem_singleton_self _
  exact (session_identity (run_spec _ _)).2.2.1 1 c (.new 2) hmem hc

end Busd.Daemon
