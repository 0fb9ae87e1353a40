import Busd.Broker.Registry

/-!
# Reliable delivery

`begin_delivery`, `acknowledge`, `tick` and `complete_response`: a tracked message is retained from
the call that accepts it until it is acknowledged, answered, expired or abandoned.
-/

namespace Busd.Broker

open Words Busd.Protocol Busd.Policy

variable {P : Type} [Policy P]

/-! ## Responses -/

/-- Whether a response with `status` completes a request that now has `responses` of `recipients`. -/
def responseCompletes (requestPolicy : RequestPolicy) (status : Status) (responses recipients : Nat) : Bool :=
  match requestPolicy with
  | .exact | .first => true
  | .firstSuccess => status = .success || responses = recipients
  | .all => responses = recipients

/-- The response forwarded to the requester; `responses` holds `message` already. -/
def responseForwarded (requestPolicy : RequestPolicy) (status : Status) (completed : Bool)
    (responses : OrdMap PeerId Frame) (message : Frame) : Option Frame :=
  match requestPolicy with
  | .exact | .first | .all => some message
  | .firstSuccess =>
    if status = .success then some message
    else if completed then responses.values.head?
    else none

def completeResponse (broker : Broker P) (sender : PeerId) (message : Frame) :
    Outcome P (List DeliveryEvent) :=
  match message with
  | .message response =>
    match broker.deliveries.get? response.correlationId with
    | none => (broker, .error (.unknownDelivery response.correlationId))
    | some pending =>
      match pending.message with
      | .message request =>
        if request.kind ≠ .request then (broker, .error (.unexpectedResponse response.correlationId))
        else if !pending.recipients.contains sender || pending.responses.contains sender then
          (broker, .error (.unexpectedResponse response.correlationId))
        else
          let responses := pending.responses.insert sender message
          let completed := responseCompletes request.requestPolicy response.status responses.size
            pending.recipients.size
          let forward := responseForwarded request.requestPolicy response.status completed responses message
          ({ broker with
              deliveries :=
                if completed then broker.deliveries.erase response.correlationId
                else broker.deliveries.insert response.correlationId { pending with responses } },
            .ok (forward.toList.map fun message => .deliver sender [pending.sender] message))
      | _ => (broker, .error (.unexpectedResponse response.correlationId))
  | _ => (broker, .error .invalidDelivery)

/-! ## New messages -/

def isTracked (m : Message) : Bool := m.kind = .request || m.ackPolicy.byRecipient

/-- The counters and the monitor record written once recipients are known. -/
def recordRouting (broker : Broker P) (sender : PeerId) (m : Message) (recipients : OrdSet PeerId) : Broker P :=
  let count := UInt64.ofNat recipients.size
  let payload := UInt64.ofNat m.payload.length
  let counted := { broker with
    metrics := { broker.metrics with
      messagesRouted := saturatingAdd broker.metrics.messagesRouted count
      bytesRouted := saturatingAdd broker.metrics.bytesRouted (saturatingMul payload count) } }
  let recorded := counted.recordMonitor (if recipients.isEmpty then .droppedSignal else .delivered) sender
    (some (destinationLabel m.destination)) (some m.messageId) m.payload.length
  if recipients.isEmpty ∧ m.kind = .signal then
    { recorded with
      metrics := { recorded.metrics with
        droppedSignals := saturatingAdd recorded.metrics.droppedSignals 1 } }
  else recorded

def acceptedEvents (sender : PeerId) (m : Message) (recipients : OrdSet PeerId) : List DeliveryEvent :=
  .deliver sender recipients.keys (.message m) ::
    if m.ackPolicy = .accepted then [.result sender m.messageId .accepted] else []

def newPending (sender : PeerId) (m : Message) (recipients : OrdSet PeerId) (deadlineMs nowMs : UInt64)
    (priority : UInt8) : PendingDelivery where
  sender := sender
  message := .message m
  recipients := recipients
  acknowledgements := ∅
  responses := ∅
  acknowledgementComplete := false
  deadlineMs := deadlineMs
  attempts := 1
  nextRetryMs := retryNext m.retry nowMs 1
  priority := priority

/-- The part of `begin_delivery` after a successful route. -/
def deliverRouted (broker : Broker P) (sender : PeerId) (m : Message) (recipients : OrdSet PeerId)
    (priority : UInt8) (nowMs : UInt64) : Outcome P (List DeliveryEvent) :=
  let broker := broker.recordRouting sender m recipients
  if recipients.isEmpty ∧ isTracked m then
    (broker, .ok [.result sender m.messageId .noRecipient])
  else if !requirementPossible m.ackRequirement recipients.size then
    (broker, .ok [.result sender m.messageId .noRecipient])
  else if isTracked m then
    broker.orReturn (broker.ensureDeliveryCapacity sender (.message m) (m.kind = .request)) fun _ =>
    match checkedAdd nowMs m.deadlineMs.toUInt64 with
    | none => (broker, .error .deadlineOverflow)
    | some deadlineMs =>
      ({ broker with
          deliveries := broker.deliveries.insert m.messageId
            (newPending sender m recipients deadlineMs nowMs priority) },
        .ok (acceptedEvents sender m recipients))
  else (broker, .ok (acceptedEvents sender m recipients))

def beginDelivery (broker : Broker P) (sender : PeerId) (message : Frame) (nowMs : UInt64) :
    Outcome P (List DeliveryEvent) :=
  match message with
  | .message m =>
    broker.orReturn (broker.credentials sender) fun _ =>
    broker.orReturn (validateMessageHeaders m.headers) fun _ =>
    broker.orReturn (messagePriority m.headers) fun priority =>
    if m.kind = .response then broker.completeResponse sender message
    else if broker.deliveries.contains m.messageId then (broker, .error (.duplicateMessage m.messageId))
    else
      match broker.route sender m.destination m.headers with
      | .ok recipients => broker.deliverRouted sender m (OrdSet.ofList recipients) priority nowMs
      | .error .noRecipient => (broker, .ok [.result sender m.messageId .noRecipient])
      | .error error => (broker, .error error)
  | _ => (broker, .error .invalidDelivery)

/-! ## Acknowledgements -/

def ackOutcome : AckPolicy → Option DeliveryOutcome
  | .received => some .received
  | .processed => some .processed
  | .none | .accepted => none

/-- Whether the acknowledgement by `peer` is the one that meets the requirement. -/
def ackCompletes (pending : PendingDelivery) (m : Message) (peer : PeerId) : Bool :=
  !pending.acknowledgementComplete &&
    requirementMet m.ackRequirement (OrdSet.add pending.acknowledgements peer).size pending.recipients.size

def recordAck (pending : PendingDelivery) (m : Message) (peer : PeerId) : PendingDelivery :=
  { pending with
    acknowledgements := OrdSet.add pending.acknowledgements peer
    acknowledgementComplete := pending.acknowledgementComplete || ackCompletes pending m peer }

def acknowledge (broker : Broker P) (peer : PeerId) (messageId : MessageId) (policy : AckPolicy) :
    Outcome P (List DeliveryEvent) :=
  broker.orReturn (broker.authorize peer .acknowledge) fun _ =>
  match broker.deliveries.get? messageId with
  | none => (broker, .error (.unknownDelivery messageId))
  | some pending =>
    match pending.message with
    | .message m =>
      if !pending.recipients.contains peer || !acknowledgementSatisfies m.ackPolicy policy then
        (broker, .error (.unexpectedAcknowledgement messageId))
      else
        match ackOutcome m.ackPolicy with
        | none =>
          -- the acknowledgement is recorded before this check in the source
          ({ broker with
              deliveries := broker.deliveries.insert messageId
                { pending with acknowledgements := OrdSet.add pending.acknowledgements peer } },
            .error (.unexpectedAcknowledgement messageId))
        | some outcome =>
          let recorded := { broker with
              deliveries := broker.deliveries.insert messageId (recordAck pending m peer) }.recordMonitor
            .acknowledged peer none (some messageId) 0
          if !ackCompletes pending m peer then (recorded, .ok [])
          else if m.kind ≠ .request then
            ({ recorded with deliveries := recorded.deliveries.erase messageId },
              .ok [.result pending.sender messageId outcome])
          else (recorded, .ok [.result pending.sender messageId outcome])
    | _ => (broker, .error .invalidDelivery)

/-! ## Deadlines and retries -/

/-- The accumulators of the loop of `tick`. -/
structure TickState (P : Type) where
  broker : Broker P
  events : List DeliveryEvent
  retries : List (UInt8 × DeliveryEvent)

/-- The body of the loop of `tick`. -/
def tickStep (nowMs : UInt64) (state : TickState P) (messageId : MessageId) : TickState P :=
  match state.broker.deliveries.get? messageId with
  | none => state
  | some pending =>
    if pending.deadlineMs ≤ nowMs then
      let expired := { state.broker with
        deliveries := state.broker.deliveries.erase messageId
        metrics := { state.broker.metrics with
          timeouts := saturatingAdd state.broker.metrics.timeouts 1 } }
      { state with
        broker := expired.recordMonitor .timedOut pending.sender none (some messageId) 0
        events := state.events ++ [.result pending.sender messageId .timeout] }
    else
      match pending.nextRetryMs with
      | none => state
      | some nextRetryMs =>
        if nowMs < nextRetryMs then state
        else
          match frameRetry pending.message with
          | .none => state
          | .exponential initialBackoffMs maxAttempts =>
            if maxAttempts ≤ pending.attempts then
              { state with
                broker := { state.broker with deliveries := state.broker.deliveries.erase messageId }
                events := state.events ++ [.result pending.sender messageId .deliveryFailed] }
            else
              let attempts := pending.attempts + 1
              let retried := { state.broker with
                deliveries := state.broker.deliveries.insert messageId { pending with
                  attempts
                  nextRetryMs := retryNext (.exponential initialBackoffMs maxAttempts) nowMs attempts }
                metrics := { state.broker.metrics with
                  retries := saturatingAdd state.broker.metrics.retries 1 } }
              { state with
                broker := retried.recordMonitor .retried pending.sender none (some messageId)
                  (deliveryBytes pending.message)
                retries := state.retries ++ [(pending.priority, .deliver pending.sender
                  (OrdSet.difference pending.recipients pending.acknowledgements).keys pending.message)] }

/-- `retries.sort_by(|(left, _), (right, _)| right.cmp(left))`, a stable sort. -/
def sortRetries (retries : List (UInt8 × DeliveryEvent)) : List (UInt8 × DeliveryEvent) :=
  retries.insertionSort fun left right => right.1 ≤ left.1

def tick (broker : Broker P) (nowMs : UInt64) : Broker P × List DeliveryEvent :=
  let state := broker.deliveries.keys.foldl (tickStep nowMs) ⟨broker, [], []⟩
  (state.broker, state.events ++ (sortRetries state.retries).map Prod.snd)

end Busd.Broker
