import Busd.Client.Server
import Busd.Daemon.Cleanup

/-!
# Replies and what arrives before them

Replies and deliveries share one connection, and the threads of the daemon put them there in any order. The
client takes the first frame it reads for the reply.

* `Carries` : the frames in a queue;
* `perform_carries`, `resolveNamespace_carries`, `request_carries` : what each call makes of a queue;
* `replies_matched_iff` : a call returns the broker's answer and loses no `MESSAGE` exactly when nothing it does
  not expect stands before the reply.
-/

namespace Busd.Client

open Machine Busd.Protocol Busd.Policy Busd.Broker Busd.Daemon

/-! ## Queues of frames -/

/-- The frames that the client will read off a queue. -/
def Carries (limits : FrameLimits) (queue : List Received) (frames : List Frame) : Prop :=
  queue.map (receivedFrame limits) = frames.map fun frame => .ok (some frame)

section Queue

variable {limits : FrameLimits} {queue : List Received} {frame : Frame} {frames : List Frame}

theorem Carries.cons (h : Carries limits queue (frame :: frames)) :
    ∃ received unread, queue = received :: unread ∧ receivedFrame limits received = .ok (some frame) ∧
      Carries limits unread frames := by
  obtain ⟨received, unread, rfl, hhead, htail⟩ := List.map_eq_cons_iff.mp h
  exact ⟨received, unread, rfl, hhead, htail⟩

end Queue

/-- What the daemon sends to a peer whose call is not yet answered: deliveries, and the refusals of messages and
acknowledgements that the peer sent before without waiting. -/
def unsolicited : Frame → Bool
  | .message _ | .deliveryResult .. | .protocolError .. => true
  | _ => false

def isMessage : Frame → Bool
  | .message _ => true
  | _ => false

/-- A call has taken no `MESSAGE` that stood before the reply off the queue. -/
def Keeps (before : List Frame) (queue unread : List Received) : Prop :=
  ∀ frame ∈ before.take (queue.length - unread.length), isMessage frame = false

/-! ## Control operations and resolutions -/

section Calls

variable {σ : Type} {wire : Wire σ} {bus : Bus} {link sent : Link σ} {frame : Frame} {frames : List Frame}

theorem perform_carries {control : Control} (hsend : bus.sendFrame wire control.frame link = some (.ok (), sent))
    (hqueue : Carries bus.frameLimits sent.unread (frame :: frames)) :
    bus.perform wire control link =
      some (Bus.controlAnswer control.operation (some frame), { sent with unread := sent.unread.tail }) := by
  obtain ⟨far, queue⟩ := sent
  obtain ⟨received, unread, rfl, hframe, -⟩ := hqueue.cons
  rw [Bus.perform_eq, Bus.sendControl, Bus.sendFrame, send_receive hsend, hframe]
  rfl

theorem resolveNamespace_carries {ns : Namespace}
    (hsend : bus.sendFrame wire (.resolveNamespace ns) link = some (.ok (), sent))
    (hqueue : Carries bus.frameLimits sent.unread (frame :: frames)) :
    bus.resolveNamespace wire ns link =
      some (Bus.resolveAnswer ns (some frame), { sent with unread := sent.unread.tail }) := by
  obtain ⟨far, queue⟩ := sent
  obtain ⟨received, unread, rfl, hframe, -⟩ := hqueue.cons
  rw [Bus.resolveNamespace, Bus.sendFrame, send_receive hsend, hframe]
  rfl

/-! ## Requests -/

/-- A `DELIVERY_RESULT` that tells how the request is getting on. -/
def progress (messageId : MessageId) : Frame → Bool
  | .deliveryResult resultId .accepted | .deliveryResult resultId .received
  | .deliveryResult resultId .processed => resultId = messageId
  | _ => false

/-- The frame is about the request: a response to it, or a `DELIVERY_RESULT` of it. -/
def concerns (messageId : MessageId) : Frame → Bool
  | .message m => m.kind = .response && m.correlationId = messageId
  | .deliveryResult resultId _ => resultId = messageId
  | _ => false

/-- The frames that end a request, and what the call then has to return. -/
inductive Answer (messageId : MessageId) : Frame → Except Error Frame → Prop
  | response {m : Message} (hkind : m.kind = .response) (hcorrelation : m.correlationId = messageId) :
      Answer messageId (.message m) (.ok (.message m))
  | outcome {outcome : DeliveryOutcome} (h : progress messageId (.deliveryResult messageId outcome) = false) :
      Answer messageId (.deliveryResult messageId outcome) (.error (.delivery outcome))
  | refused (code : ProtocolErrorCode) (text : String) :
      Answer messageId (.protocolError code text) (.error (.rejected code text))

variable {messageId : MessageId} {answer : Except Error Frame}

theorem requestAnswer_progress (h : progress messageId frame = true) :
    Bus.requestAnswer messageId (some frame) = none := by
  unfold progress at h
  split at h <;> simp_all [Bus.requestAnswer]

theorem Answer.requestAnswer (h : Answer messageId frame answer) :
    Bus.requestAnswer messageId (some frame) = some answer := by
  cases h with
  | response hkind hcorrelation => simp [Bus.requestAnswer, hkind, hcorrelation]
  | @outcome outcome h => cases outcome <;> simp_all [Bus.requestAnswer, progress]
  | refused code text => rfl

/-- Any other frame ends the call, with an answer that is the frame's own only if that is a refusal. -/
theorem requestAnswer_unrelated (hunsolicited : unsolicited frame = true) (h : concerns messageId frame = false) :
    ∃ error, Bus.requestAnswer messageId (some frame) = some (.error error) ∧
      ∀ reply, Answer messageId reply (.error error) → reply = frame := by
  cases frame with
  | message m =>
    have hnot : ¬ (m.kind = .response ∧ m.correlationId = messageId) := by simpa [concerns] using h
    refine ⟨_, if_neg hnot, ?_⟩
    rintro reply ⟨⟩
  | deliveryResult resultId outcome =>
    have hnot : ¬ resultId = messageId := by simpa [concerns] using h
    refine ⟨_, if_neg hnot, ?_⟩
    rintro reply ⟨⟩
  | protocolError code text =>
    refine ⟨_, rfl, ?_⟩
    rintro reply ⟨⟩
    rfl
  | _ => cases hunsolicited

/-- The loop reads up to the first frame that is not a progress report. -/
theorem awaitResponse_carries {limits : FrameLimits} {queue : List Received} {skipped : List Frame}
    (hskipped : ∀ f ∈ skipped, progress messageId f = true)
    (hanswer : Bus.requestAnswer messageId (some frame) = some answer)
    (hqueue : Carries limits queue (skipped ++ frame :: frames)) :
    ∃ unread, Bus.awaitResponse limits messageId queue = some (answer, unread) ∧
      queue.length = unread.length + (skipped.length + 1) := by
  induction skipped generalizing queue with
  | nil =>
    obtain ⟨received, unread, rfl, hframe, -⟩ := hqueue.cons
    exact ⟨unread, by simp only [Bus.awaitResponse, hframe, hanswer], rfl⟩
  | cons f skipped ih =>
    obtain ⟨received, unread, rfl, hframe, htail⟩ := hqueue.cons
    obtain ⟨last, hawait, hlength⟩ := ih (fun f' hmem => hskipped f' (List.mem_cons_of_mem _ hmem)) htail
    have hreads : Bus.requestAnswer messageId (some f) = none :=
      requestAnswer_progress (hskipped f List.mem_cons_self)
    refine ⟨last, ?_, ?_⟩
    · simp only [Bus.awaitResponse, hframe, hreads]
      exact hawait
    · simp only [List.length_cons] at hlength ⊢
      omega

theorem request_carries {m : Message} {skipped : List Frame} (hkind : m.kind = .request)
    (hsend : bus.sendFrame wire (.message m) link = some (.ok (), sent))
    (hskipped : ∀ f ∈ skipped, progress m.messageId f = true)
    (hanswer : Bus.requestAnswer m.messageId (some frame) = some answer)
    (hqueue : Carries bus.frameLimits sent.unread (skipped ++ frame :: frames)) :
    ∃ unread, bus.request wire (.message m) link = some (answer, { sent with unread }) ∧
      sent.unread.length = unread.length + (skipped.length + 1) := by
  obtain ⟨unread, hawait, hlength⟩ := awaitResponse_carries hskipped hanswer hqueue
  refine ⟨unread, ?_, hlength⟩
  simp only [Bus.request, hkind, if_true]
  rw [bind_of_ok (show bus.sendMessage wire (.message m) link = some (.ok (), sent) from hsend), hawait]
  rfl

end Calls

/-! ## Matching -/

section Matching

variable {σ : Type} {wire : Wire σ} {bus : Bus} {link sent : Link σ} {before rest : List Frame}

/-- What a control operation answers when the daemon's reply comes first. -/
theorem controlAnswer_reply (control : Control) (result : Except Broker.Error Unit) :
    Bus.controlAnswer control.operation (some (controlReply control.operation result)) = .ok () ↔
      result = .ok () := by
  cases result with
  | ok u => simp [controlReply, Bus.controlAnswer]
  | error error => simp [controlReply, Bus.controlAnswer]

theorem controlAnswer_unsolicited {operation : ControlOperation} {frame : Frame} (h : unsolicited frame = true) :
    ∃ error, Bus.controlAnswer operation (some frame) = .error error := by
  cases frame <;> first | exact ⟨_, rfl⟩ | cases h

theorem resolveAnswer_unsolicited {ns : Namespace} {frame : Frame} (h : unsolicited frame = true) :
    ∃ error, Bus.resolveAnswer ns (some frame) = .error error := by
  cases frame <;> first | exact ⟨_, rfl⟩ | cases h

theorem keeps_nil (queue unread : List Received) : Keeps [] queue unread := by
  intro frame hmem
  simp at hmem

theorem keeps_tail {frame : Frame} {limits : FrameLimits} {queue : List Received} {frames : List Frame}
    (hqueue : Carries limits queue (frame :: frames)) :
    Keeps (frame :: before) queue queue.tail ↔ isMessage frame = false := by
  obtain ⟨received, unread, rfl, -⟩ := hqueue.cons
  simp [Keeps]

theorem isMessage_eq_false {frame : Frame} : isMessage frame = false ↔ ∀ m, frame ≠ .message m := by
  cases frame <;> simp [isMessage]

theorem perform_matched_iff {control : Control} {result : Except Broker.Error Unit}
    (hbefore : ∀ frame ∈ before, unsolicited frame = true)
    (hsend : bus.sendFrame wire control.frame link = some (.ok (), sent))
    (hqueue : Carries bus.frameLimits sent.unread (before ++ controlReply control.operation result :: rest)) :
    (∃ answer after, bus.perform wire control link = some (answer, after) ∧
        (answer = .ok () ↔ result = .ok ()) ∧ Keeps before sent.unread after.unread) ↔
      before = [] ∨ result ≠ .ok () ∧ ∀ m, before.head? ≠ some (.message m) := by
  cases before with
  | nil =>
    rw [perform_carries hsend hqueue]
    exact ⟨fun _ => .inl rfl, fun _ => ⟨_, _, rfl, controlAnswer_reply control result, keeps_nil _ _⟩⟩
  | cons first before =>
    obtain ⟨error, herror⟩ := @controlAnswer_unsolicited control.operation _ (hbefore first List.mem_cons_self)
    rw [perform_carries hsend hqueue, herror]
    have hkept := @keeps_tail before _ _ _ _ hqueue
    constructor
    · rintro ⟨answer, after, h, hiff, hkeeps⟩
      cases h
      refine .inr ⟨fun hok => (nomatch hiff.mpr hok), fun m hfirst => ?_⟩
      exact isMessage_eq_false.mp (hkept.mp hkeeps) m (Option.some.inj hfirst)
    · rintro (hnil | ⟨hrefused, hfirst⟩)
      · cases hnil
      · refine ⟨_, _, rfl, ⟨fun h => (nomatch h), fun hok => absurd hok hrefused⟩, hkept.mpr ?_⟩
        exact isMessage_eq_false.mpr fun m heq => hfirst m (congrArg some heq)

theorem resolveNamespace_matched_iff {ns : Namespace} {owner : Option PeerId}
    (hbefore : ∀ frame ∈ before, unsolicited frame = true)
    (hsend : bus.sendFrame wire (.resolveNamespace ns) link = some (.ok (), sent))
    (hqueue : Carries bus.frameLimits sent.unread (before ++ .namespaceResolved ns owner :: rest)) :
    (∃ after, bus.resolveNamespace wire ns link = some (.ok owner, after) ∧
        Keeps before sent.unread after.unread) ↔ before = [] := by
  cases before with
  | nil =>
    rw [resolveNamespace_carries hsend hqueue]
    have hanswer : Bus.resolveAnswer ns (some (.namespaceResolved ns owner)) = .ok owner := if_pos rfl
    exact ⟨fun _ => rfl, fun _ => ⟨_, by rw [hanswer], keeps_nil _ _⟩⟩
  | cons first before =>
    obtain ⟨error, herror⟩ := @resolveAnswer_unsolicited ns _ (hbefore first List.mem_cons_self)
    rw [resolveNamespace_carries hsend hqueue, herror]
    constructor
    · rintro ⟨after, h, -⟩
      cases h
    · intro hnil
      cases hnil

theorem request_matched_iff {m : Message} {reply : Frame} {answer : Except Error Frame} (hkind : m.kind = .request)
    (hanswer : Answer m.messageId reply answer) (hbefore : ∀ frame ∈ before, unsolicited frame = true)
    (hother : ∀ frame ∈ before, concerns m.messageId frame = true → progress m.messageId frame = true)
    (hreply : reply ∉ before) (hsend : bus.sendFrame wire (.message m) link = some (.ok (), sent))
    (hqueue : Carries bus.frameLimits sent.unread (before ++ reply :: rest)) :
    (∃ after, bus.request wire (.message m) link = some (answer, after) ∧
        Keeps before sent.unread after.unread) ↔
      ∀ frame ∈ before, progress m.messageId frame = true := by
  constructor
  · rintro ⟨after, hrequest, -⟩ frame hmem
    by_contra hnot
    -- the first frame that is no progress report ends the call
    obtain ⟨first, skipped, more, rfl, hfirst, hskipped⟩ : ∃ first skipped more, before = skipped ++ first :: more ∧
        progress m.messageId first ≠ true ∧ ∀ f ∈ skipped, progress m.messageId f = true := by
      have hsome : (before.find? fun f => !progress m.messageId f).isSome = true :=
        List.find?_isSome.mpr ⟨frame, hmem, by simpa using hnot⟩
      obtain ⟨first, hfind⟩ := Option.isSome_iff_exists.mp hsome
      obtain ⟨hfirst, skipped, more, heq, hskipped⟩ := List.find?_eq_some_iff_append.mp hfind
      exact ⟨first, skipped, more, heq, by simpa using hfirst, by simpa using hskipped⟩
    have hin : first ∈ skipped ++ first :: more := List.mem_append_right _ List.mem_cons_self
    have hunrelated : concerns m.messageId first = false := by
      by_contra hconcerns
      exact hfirst (hother first hin (by simpa using hconcerns))
    rw [List.append_assoc, List.cons_append] at hqueue
    obtain ⟨error, herror, honly⟩ := requestAnswer_unrelated (hbefore first hin) hunrelated
    obtain ⟨unread, hends, -⟩ := request_carries hkind hsend hskipped herror hqueue
    rw [hends] at hrequest
    cases hrequest
    exact hreply (honly reply hanswer ▸ hin)
  · intro hprogress
    obtain ⟨unread, hrequest, -⟩ := request_carries hkind hsend hprogress hanswer.requestAnswer hqueue
    refine ⟨_, hrequest, fun frame hmem => isMessage_eq_false.mpr fun m' heq => ?_⟩
    have hreport := hprogress frame (List.mem_of_mem_take hmem)
    rw [heq] at hreport
    cases hreport

/-- Calls get the broker's answer, and lose no `MESSAGE`, exactly when nothing but the reports on the progress of
a request comes before the reply. A control operation that the broker has refused fails in any case; it loses a
`MESSAGE` only if that comes first. -/
theorem replies_matched_iff (wire : Wire σ) (bus : Bus) (link sent : Link σ) (before rest : List Frame)
    (hbefore : ∀ frame ∈ before, unsolicited frame = true) :
    (∀ (control : Control) (result : Except Broker.Error Unit),
      bus.sendFrame wire control.frame link = some (.ok (), sent) →
      Carries bus.frameLimits sent.unread (before ++ controlReply control.operation result :: rest) →
      ((∃ answer after, bus.perform wire control link = some (answer, after) ∧
          (answer = .ok () ↔ result = .ok ()) ∧ Keeps before sent.unread after.unread) ↔
        before = [] ∨ result ≠ .ok () ∧ ∀ m, before.head? ≠ some (.message m))) ∧
    (∀ (ns : Namespace) (owner : Option PeerId),
      bus.sendFrame wire (.resolveNamespace ns) link = some (.ok (), sent) →
      Carries bus.frameLimits sent.unread (before ++ .namespaceResolved ns owner :: rest) →
      ((∃ after, bus.resolveNamespace wire ns link = some (.ok owner, after) ∧
          Keeps before sent.unread after.unread) ↔ before = [])) ∧
    ∀ (m : Message) (reply : Frame) (answer : Except Error Frame), m.kind = .request →
      Answer m.messageId reply answer →
      (∀ frame ∈ before, concerns m.messageId frame = true → progress m.messageId frame = true) → reply ∉ before →
      bus.sendFrame wire (.message m) link = some (.ok (), sent) →
      Carries bus.frameLimits sent.unread (before ++ reply :: rest) →
      ((∃ after, bus.request wire (.message m) link = some (answer, after) ∧
          Keeps before sent.unread after.unread) ↔
        ∀ frame ∈ before, progress m.messageId frame = true) :=
  ⟨fun _ _ hsend hqueue => perform_matched_iff hbefore hsend hqueue,
    fun _ _ hsend hqueue => resolveNamespace_matched_iff hbefore hsend hqueue,
    fun _ _ _ hkind hanswer hother hreply hsend hqueue =>
      request_matched_iff hkind hanswer hbefore hother hreply hsend hqueue⟩

end Matching

def newsSignal : Message :=
  { plainRequest (numberedId 1) .none .none .exact (.channel plainChannel) with kind := .signal, deadlineMs := 0 }

def publishedRun : List (Turn × Output) × State AllowAll :=
  run step openDaemon ([.accept, .accept] ++ joins 0 ++ joins 1 ++
    submits 0 (.subscribe plainChannel []) ++ [.serve 0 calmIo] ++ submits 1 (.message newsSignal) ++ [.serve 1 calmIo])

def sentTo (connection : Connection) (history : List (Turn × Output)) : List Received :=
  history.flatMap fun e =>
    e.2.packets.filterMap fun sent => if sent.1 = connection then some (.packet sent.2) else none

/-- The connection of the first client, which has read the replies to its `HELLO` and its subscription. -/
def subscriberLink : Link (Server AllowAll) :=
  ⟨⟨.default, publishedRun.2.broker, .receiving (.new 1), []⟩, (sentTo 0 publishedRun.1).drop 2⟩

/-- The client claims a namespace, and the signal is there first. The broker gives it the namespace, the call
returns an error, and the signal is gone. -/
theorem channelMessage_lost :
    publishedRun.2.threads[0]? = some (.receiving (.new 1)) ∧
      subscriberLink.unread.map (receivedFrame .default) = [.ok (some (.message (stamped (.new 2) newsSignal)))] ∧
      (Bus.claim Server.wire ⟨.default, .new 1, ∅⟩ plainNamespace subscriberLink).map
          (fun r => (r.1, r.2.far.broker.namespaceOwner plainNamespace, r.2.unread.map (receivedFrame .default))) =
        some (.error (.handshake "broker sent an unexpected control frame"), some (.new 1),
          [.ok (some (.controlResult .claim))]) := by
  decide +kernel

def arriving (frames : List Frame) : List Received := frames.map fun frame => .packet (packetOf frame)

/-- A broker that sends the same frames whatever it receives. -/
def sends (frames : List Frame) : Wire Unit := fun _ _ => some ((), arriving frames)

def plainBus : Bus := ⟨.default, .new 1, ∅⟩

/-- A request to the second peer, and its response. -/
def plainQuestion : Message := plainRequest (numberedId 1) .none .none .exact (.peer (.new 2))

def plainResponse : Message :=
  { plainQuestion with
    kind := .response, destination := .peer (.new 1), messageId := numberedId 2, correlationId := numberedId 1
    deadlineMs := 0 }

/-- The broker has accepted the request, and then the second peer has answered. -/
def plainReplies : List Frame := [.deliveryResult (numberedId 1) .accepted, .message plainResponse]

theorem replies_matched_iff_alone :
    (∃ answer after, plainBus.perform (sends [.controlResult .claim]) (.claim plainNamespace) ⟨(), []⟩ =
        some (answer, after) ∧
      (answer = .ok () ↔ (.ok () : Except Broker.Error Unit) = .ok ()) ∧
      Keeps [] (arriving [.controlResult .claim]) after.unread) ∧
    (∃ after, plainBus.resolveNamespace (sends [.namespaceResolved plainNamespace none]) plainNamespace ⟨(), []⟩ =
        some (.ok none, after) ∧
      Keeps [] (arriving [.namespaceResolved plainNamespace none]) after.unread) ∧
    ∃ after, plainBus.request (sends plainReplies) (.message plainQuestion) ⟨(), []⟩ =
        some (.ok (.message plainResponse), after) ∧
      Keeps [.deliveryResult (numberedId 1) .accepted] (arriving plainReplies) after.unread := by
  refine ⟨?_, ?_, ?_⟩
  · exact ((replies_matched_iff (sends [.controlResult .claim]) plainBus ⟨(), []⟩
      ⟨(), arriving [.controlResult .claim]⟩ [] [] (by simp)).1 (.claim plainNamespace) (.ok ())
      (by decide +kernel) (by unfold Carries; decide +kernel)).mpr (.inl rfl)
  · exact ((replies_matched_iff (sends [.namespaceResolved plainNamespace none]) plainBus ⟨(), []⟩
      ⟨(), arriving [.namespaceResolved plainNamespace none]⟩ [] [] (by simp)).2.1 plainNamespace none
      (by decide +kernel) (by unfold Carries; decide +kernel)).mpr rfl
  · exact ((replies_matched_iff (sends plainReplies) plainBus ⟨(), []⟩ ⟨(), arriving plainReplies⟩
      [.deliveryResult (numberedId 1) .accepted] [] (by simp [unsolicited])).2.2 plainQuestion (.message plainResponse)
      (.ok (.message plainResponse)) rfl (.response rfl rfl) (by decide +kernel) (by decide +kernel)
      (by decide +kernel) (by unfold Carries; decide +kernel)).mpr (by decide +kernel)

end Busd.Client
