import Busd.Broker.Authorization
import Busd.Broker.Boundaries
import Busd.Daemon.Packets

/-!
# Where a forwarded message comes from

From the packet that leaves back to the connection on which it came in: across all threads, a message that the daemon
forwards was submitted by one connection, in the name of its own identity, and the policy permitted it on the
credentials that the kernel names for that connection.

* `split_of_calls` : a call of the broker, and the turn in which it was made;
* `Provenance` : the connection, the identity and the permission behind a message;
* `message_provenance` : every message in a packet has one;
* `Requested` : the connection of the peer that asked for a response, to which alone the response goes.
-/

namespace Busd.Daemon

open Words Machine Busd.Protocol Busd.Policy Busd.Broker

variable {P : Type} [Policy P] {state start : State P} {history : List (Turn × Output)}

theorem split_of_calls {earlier later : List (Op × Reply)} {call : Op × Reply}
    (h : calls history = earlier ++ call :: later) :
    ∃ before turn output after, history = before ++ (turn, output) :: after ∧ output.call = some call ∧
      calls before = earlier := by
  obtain ⟨before, rest, rfl, hbefore, hrest⟩ := List.filterMap_eq_append_iff.mp h
  obtain ⟨silent, e, after, rfl, hsilent, hcall, -⟩ := List.filterMap_eq_cons_iff.mp hrest
  refine ⟨before ++ silent, e.1, e.2, after, by rw [List.append_assoc], hcall, ?_⟩
  unfold calls
  rw [List.filterMap_append, hbefore, List.filterMap_eq_nil_iff.mpr hsilent, List.append_nil]

/-- The connection that submitted a message, the identity under which it did, and why it could. -/
inductive Provenance (policy : P) (start : State P) (history : List (Turn × Output)) (m : Message) : Prop
  | submitted (origin : Connection) (io : Io) (sender : PeerId) (original : Message) (nowMs : UInt64) (reply : Reply)
      (peer : Peer) (action : Action) (earlier later : List (Turn × Output)) (output : Output)
      (hhistory : history = earlier ++ (.serve origin io, output) :: later)
      (hcall : output.call = some (.beginDelivery sender (.message original) nowMs, reply))
      (hidentity : identities earlier origin = [sender])
      (hcredentials : credentialsOf start earlier origin = [peer.credentials])
      (haction : sendAction m.destination = some action)
      (hpermits : Policy.permits policy ⟨peer.credentials, peer.hello.clientId, peer.hello.headers, action⟩ = true)
      (hmessage : m = stamped sender original) : Provenance policy start history m

section Runs

variable {policy : P} {limits : Limits} {capabilities : Capabilities} {frameLimits : FrameLimits}

theorem provenance_of_sendable
    (hrun : Run step (State.initial (Broker.empty policy limits capabilities) frameLimits) history state)
    {sender : PeerId} {original : Message}
    (h : Sendable policy (Broker.empty policy limits capabilities) (calls history) sender original) :
    Provenance policy (State.initial (Broker.empty policy limits capabilities) frameLimits) history
      (stamped sender original) := by
  obtain ⟨earlier, nowMs, reply, later, b, heq, hcalls, action, haction, peer, hpeer, hpermits⟩ := h
  obtain ⟨before, turn, output, after, rfl, hcall, rfl⟩ := split_of_calls heq
  obtain ⟨s, hbefore, houtput⟩ := hrun.step_at
  obtain rfl := (run_calls hbefore).unique hcalls
  have hbound := run_bound rfl hbefore
  have hmade := hbound.madeBy (houtput ▸ hcall)
  generalize hop : Op.beginDelivery sender (.message original) nowMs = op at hmade
  cases hmade with
  | clock => cases hop
  | joins => cases hop
  | performs origin io id op hidentity hcaller =>
    subst hop
    obtain rfl := Option.some.inj hcaller
    obtain ⟨c, hc, hcredentials⟩ := hbound.peers _ peer hpeer
    have hassigned : ∀ d, identities before d = [sender] → (s.stageOf d).assigned = some sender := by
      intro d hd
      have hlist := hbound.identity d
      rw [hd] at hlist
      exact Option.mem_toList.mp (hlist ▸ List.mem_singleton_self sender)
    obtain rfl := (run_listed hbefore).distinct _ _ sender (hassigned _ hidentity) (hassigned _ hc)
    exact .submitted _ io sender original nowMs reply peer action before after output rfl hcall hidentity hcredentials
      haction hpermits rfl

theorem sendable_of_returned {brokerHistory : List (Op × Reply)} {broker : Broker P}
    (hrun : Run exec (Broker.empty policy limits capabilities) brokerHistory broker) {call : Op × Reply}
    (hcall : call ∈ brokerHistory) {sender : PeerId} {recipients : List PeerId} {m : Message}
    (hevent : .deliver sender recipients (.message m) ∈ call.2.events) (hkind : m.kind ≠ .response) :
    Sendable policy (Broker.empty policy limits capabilities) brokerHistory sender m := by
  obtain ⟨earlier, later, rfl⟩ := List.append_of_mem hcall
  obtain ⟨b, hbefore, hreply⟩ := hrun.step_at
  rw [hreply] at hevent
  obtain ⟨m', heq, hsendable, -⟩ := (run_justified hbefore).deliver hbefore hevent
  obtain rfl := Frame.message.inj heq
  have hcalled := (hsendable hkind).mono later
  rwa [← hreply, List.append_assoc] at hcalled

theorem message_of_dispatched {event : DeliveryEvent} {m : Message} (h : (dispatched event).2 = .message m) :
    ∃ sender recipients original, event = .deliver sender recipients (.message original) ∧
      m = stamped sender original := by
  cases event with
  | deliver sender recipients frame =>
    cases frame with
    | message original => exact ⟨sender, recipients, original, rfl, (Frame.message.inj h).symm⟩
    | _ => cases h
  | result sender messageId outcome => cases h

/-- An answer of a session to its own client carries no message. -/
theorem not_message_of_answer {packet : List UInt8} {m : Message} (h : IsAnswer frameLimits packet) :
    Frame.decodeWithLimits packet frameLimits ≠ .ok (.message m) := by
  intro hdecode
  obtain ⟨frame, hreply, hencode⟩ := h
  have hframe : frame = .message m := by
    rcases hencode with hencode | hencode
    · exact (decodeWithLimits_unique hencode hdecode).symm
    · exact (decodeWithLimits_unique hencode hdecode).symm
  rw [hframe] at hreply
  cases hreply

theorem run_provenance {before after : List (Turn × Output)} {turn : Turn} {output : Output}
    (hrun : Run step (State.initial (Broker.empty policy limits capabilities) frameLimits)
      (before ++ (turn, output) :: after) state)
    {c : Connection} {packet : List UInt8} (hmem : (c, packet) ∈ output.packets) {m : Message}
    (hdecode : Frame.decodeWithLimits packet frameLimits = .ok (.message m)) (hkind : m.kind ≠ .response) :
    Provenance policy (State.initial (Broker.empty policy limits capabilities) frameLimits) before m := by
  obtain ⟨s, hbefore, -⟩ := hrun.split
  cases run_destined hrun hmem with
  | answer c io packet hanswer => exact absurd hdecode (not_message_of_answer hanswer)
  | event turn c packet event id hreturned hidentity hrecipient hencodes =>
    obtain ⟨sender, recipients, original, rfl, rfl⟩ :=
      message_of_dispatched (decodeWithLimits_unique hencodes hdecode).symm
    obtain ⟨call, hcall, hevent⟩ := hreturned
    exact provenance_of_sendable hbefore (sendable_of_returned (run_calls hbefore) hcall hevent hkind)

/-- Before some call of the broker, the peer of this connection had a request pending under this identifier. -/
def Requested (start : State P) (history : List (Turn × Output)) (c : Connection) (id : MessageId) : Prop :=
  ∃ requester earlier later broker, identities history c = [requester] ∧ calls history = earlier ++ later ∧
    Run exec start.broker earlier broker ∧ Asked broker requester id

theorem run_requested {before after : List (Turn × Output)} {turn : Turn} {output : Output}
    (hrun : Run step (State.initial (Broker.empty policy limits capabilities) frameLimits)
      (before ++ (turn, output) :: after) state)
    {c : Connection} {packet : List UInt8} (hmem : (c, packet) ∈ output.packets) {m : Message}
    (hdecode : Frame.decodeWithLimits packet frameLimits = .ok (.message m)) (hkind : m.kind = .response) :
    Requested (State.initial (Broker.empty policy limits capabilities) frameLimits) before c m.correlationId := by
  obtain ⟨s, hbefore, -⟩ := hrun.split
  cases run_destined hrun hmem with
  | answer c io packet hanswer => exact absurd hdecode (not_message_of_answer hanswer)
  | event turn c packet event id hreturned hidentity hrecipient hencodes =>
    obtain ⟨sender, recipients, original, rfl, rfl⟩ :=
      message_of_dispatched (decodeWithLimits_unique hencodes hdecode).symm
    obtain ⟨call, hcall, hevent⟩ := hreturned
    obtain ⟨earlier, later, heq⟩ := List.append_of_mem hcall
    have hcalls := run_calls hbefore
    rw [heq] at hcalls
    obtain ⟨broker, hearlier, hreply⟩ := hcalls.step_at
    rw [hreply] at hevent
    have hsound := run_sound hearlier (sound_empty policy limits capabilities)
    rcases deliver_connected hsound hevent id hrecipient with ⟨hother, -⟩ | ⟨-, hasked⟩
    · exact absurd hkind hother
    · exact ⟨id, earlier, call :: later, broker, hidentity, heq, hearlier, hasked⟩

end Runs

end Busd.Daemon
