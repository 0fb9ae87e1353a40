import Busd.Broker.Lifecycle
import Busd.Broker.Ticks
import Busd.Daemon.Answers
import Busd.Daemon.Sessions
import Busd.Lib.Fair
import Mathlib.Data.Prod.Lex
import Mathlib.Order.Filter.Finite
import Mathlib.Order.Interval.Finset.Nat

/-!
# What the daemon gets done

Endless runs of the daemon, in which the threads in question get a turn again and again. This takes for granted that
every send returns: the sockets block, and a client that does not read stops the thread that sends to it, be it the
clock, which then gets no further turn.

* `Pc.rank` : how far a `serve_peer` call is from its end, if nothing arrives any more;
* `session_ends` : the call of a client that falls silent returns, and its peer is gone for good;
* `delivery_resolved` : a retained delivery is completed, at the latest after its deadline;
* `Idle` : nobody is connected, and nothing is left of those who were;
* `daemon_empties` : when all clients have hung up, the daemon becomes idle and stays so.
-/

namespace Busd.Daemon

open Filter Words Machine Busd.Protocol Busd.Policy Busd.Broker

variable {P : Type} {state start : State P} {connection : Connection} {turns : ℕ → Turn}

/-! ## A `serve_peer` call without further packets -/

/-- Nothing arrives on this connection in this turn: it is closed, or fails. -/
def Turn.Silent (connection : Connection) (turn : Turn) : Prop :=
  ∀ io packet, turn = .serve connection io → io.received ≠ .packet packet

def Pc.Returned (pc : Pc) : Prop := ∃ assigned result, pc = .returned assigned result

/-- The phases of a call, the last one first. -/
def Pc.phase : Pc → ℕ
  | .returned .. => 0
  | .flushing .. | .rejecting .. => 1
  | .disconnecting .. => 2
  | .unregistering .. => 3
  | .refusing .. => 4
  | .receiving _ => 5
  | .replying .. | .dispatching .. => 6
  | .handling .. => 7
  | .registering _ => 8
  | .welcoming _ => 9
  | .connecting .. => 10
  | .awaitHello _ => 11
  | .start => 12

/-- The phase, and within it the events that wait. -/
def Pc.rank (pc : Pc) : ℕ ×ₗ ℕ := toLex (pc.phase, pc.events.length)

theorem rank_lt_of_phase {pc pc' : Pc} (h : pc'.phase < pc.phase) : pc'.rank < pc.rank :=
  Prod.Lex.toLex_lt_toLex.mpr (.inl h)

theorem handleFrame_phase [Policy P] (state : State P) (id : PeerId) (nowMs : UInt64) (frame : Frame) :
    (handleFrame state id nowMs frame).pc.phase < 7 := by
  cases frame with
  | claim ns headers =>
    simp only [handleFrame]
    split_ifs with hempty
    · exact Nat.lt_succ_self 6
    · exact Nat.lt_of_lt_of_le (Nat.lt_succ_self 4) (by omega)
  | message m =>
    simp only [handleFrame, moved_pc]
    cases (state.broker.beginDelivery id (.message m) nowMs).2 with
    | ok events => exact Nat.lt_succ_self 6
    | error error => exact Nat.lt_succ_self 6
  | acknowledge messageId policy =>
    simp only [handleFrame, moved_pc]
    cases (state.broker.acknowledge id messageId policy).2 with
    | ok events => exact Nat.lt_succ_self 6
    | error error => exact Nat.lt_succ_self 6
  | _ => simp [handleFrame, Pc.phase]

theorem dispatches_rank (state : State P) {pc : Pc} (event : DeliveryEvent) (io : DispatchIo)
    {next : Except Failure Unit → Pc} (hok : (next (.ok ())).rank < pc.rank)
    (herror : ∀ failure, (next (.error failure)).phase < pc.phase) :
    (state.dispatches event io next).pc.rank < pc.rank := by
  rw [dispatches_pc]
  cases (dispatchEvent state.sessions state.limits event io).2 with
  | ok => exact hok
  | error failure => exact rank_lt_of_phase (herror failure)

variable [Policy P]

/-- A call to which nothing arrives comes closer to its end with every step of its own. -/
theorem servePeer_rank (state : State P) (connection : Connection) {io : Io}
    (hsilent : ∀ packet, io.received ≠ .packet packet) {pc : Pc} (hpc : ¬ pc.Returned) :
    (servePeer state connection io pc).pc.rank < pc.rank := by
  have hsends : ∀ limits frame next, (∀ result, (next result).phase < pc.phase) →
      (state.sends connection limits frame io.sent next).pc.rank < pc.rank := by
    intro limits frame next hnext
    rw [sends_pc]
    exact rank_lt_of_phase (hnext _)
  cases pc with
  | start =>
    simp only [servePeer]
    cases io.credentials with
    | none => exact rank_lt_of_phase (Nat.zero_lt_succ 11)
    | some credentials => exact rank_lt_of_phase (Nat.lt_succ_self 11)
  | awaitHello credentials =>
    simp only [servePeer]
    cases hreceived : io.received with
    | packet packet => exact absurd hreceived (hsilent packet)
    | _ => exact rank_lt_of_phase (by simp [Pc.phase])
  | connecting credentials hello =>
    simp only [servePeer, moved_pc]
    cases (state.broker.connectSession credentials hello).2 with
    | ok session => exact rank_lt_of_phase (Nat.lt_succ_self 9)
    | error error => exact rank_lt_of_phase (by simp [Pc.phase])
  | rejecting code message => exact hsends _ _ _ fun _ => Nat.zero_lt_one
  | welcoming session =>
    refine hsends _ _ _ fun result => ?_
    cases result with
    | ok => exact Nat.lt_succ_self 8
    | error failure => exact Nat.zero_lt_succ 8
  | registering id =>
    simp only [servePeer]
    split_ifs with hcloned
    · exact rank_lt_of_phase (by simp [Pc.phase])
    · exact rank_lt_of_phase (by simp [Pc.phase])
  | receiving id =>
    simp only [servePeer, moved_pc]
    cases hreceived : io.received with
    | packet packet => exact absurd hreceived (hsilent packet)
    | _ => exact rank_lt_of_phase (by simp [nextFrame, Pc.phase])
  | handling id frame => exact rank_lt_of_phase (handleFrame_phase state id io.nowMs frame)
  | replying id frame =>
    refine hsends _ _ _ fun result => ?_
    cases result with
    | ok => exact Nat.lt_succ_self 5
    | error failure => simp [Pc.phase]
  | dispatching id events =>
    cases events with
    | nil => exact rank_lt_of_phase (Nat.lt_succ_self 5)
    | cons event events =>
      refine dispatches_rank state event io.dispatch ?_ fun failure => by simp [Pc.phase]
      exact Prod.Lex.toLex_lt_toLex.mpr (.inr ⟨rfl, Nat.lt_succ_self _⟩)
  | refusing id code message => exact hsends _ _ _ fun _ => Nat.lt_succ_self 3
  | unregistering id result => exact rank_lt_of_phase (Nat.lt_succ_self 2)
  | disconnecting id result =>
    simp only [servePeer, moved_pc]
    cases (state.broker.disconnectWithEvents id).2 with
    | ok events => exact rank_lt_of_phase (Nat.lt_succ_self 1)
    | error error => exact rank_lt_of_phase (Nat.zero_lt_succ 1)
  | flushing id events result =>
    cases events with
    | nil => exact rank_lt_of_phase Nat.zero_lt_one
    | cons event events =>
      refine dispatches_rank state event io.dispatch ?_ fun failure => Nat.zero_lt_one
      exact Prod.Lex.toLex_lt_toLex.mpr (.inr ⟨rfl, Nat.lt_succ_self _⟩)
  | returned assigned result => exact absurd ⟨assigned, result, rfl⟩ hpc

theorem thread_step {pc : Pc} (h : state.threads[connection]? = some pc) (turn : Turn) :
    (turn.thread ≠ some connection ∧ (step state turn).1.threads[connection]? = some pc) ∨
      ∃ io, turn = .serve connection io ∧
        (step state turn).1.threads[connection]? = some (servePeer state connection io pc).pc := by
  cases turn with
  | accept =>
    rcases threads_accept state connection with hsame | ⟨hnone, -⟩
    · exact .inl ⟨by simp [Turn.thread], hsame.trans h⟩
    · rw [h] at hnone
      cases hnone
  | serve c io =>
    by_cases heq : c = connection
    · subst heq
      exact .inr ⟨io, rfl, by rw [threads_serve h, if_pos rfl]⟩
    · refine .inl ⟨fun hthread => heq (Option.some.inj hthread), ?_⟩
      cases hc : state.threads[c]? with
      | none => simp only [step, hc, h]
      | some pc' => rw [threads_serve hc, if_neg (Ne.symm heq), h]
  | tick nowMs =>
    refine .inl ⟨by simp [Turn.thread], ?_⟩
    simp only [step]
    split_ifs with hidle
    · exact h
    · exact h
  | dispatch io =>
    refine .inl ⟨by simp [Turn.thread], ?_⟩
    simp only [step]
    cases state.scheduler with
    | nil => exact h
    | cons event events => exact h

variable {n : ℕ}

/-- In an endless run a call to which nothing arrives any more returns, if its thread gets turns again and again. -/
theorem thread_returns {pc : Pc} (haccepted : (stateAt step start turns n).threads[connection]? = some pc)
    (hfair : ∃ᶠ m in atTop, (turns m).thread = some connection) (hsilent : ∀ m ≥ n, (turns m).Silent connection) :
    ∃ assigned result, ∃ m ≥ n, ∀ k ≥ m,
      (stateAt step start turns k).threads[connection]? = some (.returned assigned result) := by
  have hexists : ∀ m ≥ n, ∃ pc, (stateAt step start turns m).threads[connection]? = some pc := by
    refine forall_ge_of_kept (fun m _ ⟨pc, hpc⟩ => ?_) ⟨pc, haccepted⟩
    rcases thread_step hpc (turns m) with ⟨-, hsame⟩ | ⟨io, -, hmoved⟩
    · exact ⟨pc, hsame⟩
    · exact ⟨_, hmoved⟩
  -- a turn of the thread brings the call closer to its end
  have hcloser : ∀ m ≥ n, ∀ pc io, (stateAt step start turns m).threads[connection]? = some pc →
      (¬ ∃ assigned result,
        (stateAt step start turns m).threads[connection]? = some (.returned assigned result)) →
      turns m = .serve connection io →
      (servePeer (stateAt step start turns m) connection io pc).pc.rank < pc.rank := by
    intro m hm pc io hpc hrunning hturn
    refine servePeer_rank _ _ (fun packet => hsilent m hm io packet hturn) ?_
    rintro ⟨assigned, result, rfl⟩
    exact hrunning ⟨assigned, result, hpc⟩
  have hreturns : ∃ m ≥ n, ∃ assigned result,
      (stateAt step start turns m).threads[connection]? = some (.returned assigned result) := by
    refine exists_of_rank
      (fun m => ((stateAt step start turns m).threads[connection]?).elim (toLex (0, 0)) Pc.rank) ?_ ?_ hfair
    · intro m hm hrunning
      obtain ⟨pc, hpc⟩ := hexists m hm
      rcases thread_step hpc (turns m) with ⟨-, hsame⟩ | ⟨io, hturn, hmoved⟩
      · exact .inr (le_of_eq (by rw [stateAt, hsame, hpc]))
      · refine .inr (le_of_lt ?_)
        rw [stateAt, hmoved, hpc]
        exact hcloser m hm pc io hpc hrunning hturn
    · intro m hm hrunning hthread
      obtain ⟨pc, hpc⟩ := hexists m hm
      rcases thread_step hpc (turns m) with ⟨hother, -⟩ | ⟨io, hturn, hmoved⟩
      · exact absurd hthread hother
      · refine .inr ?_
        rw [stateAt, hmoved, hpc]
        exact hcloser m hm pc io hpc hrunning hturn
  obtain ⟨m, hm, assigned, result, hreturned⟩ := hreturns
  refine ⟨assigned, result, m, hm, forall_ge_of_kept (fun k _ hk => ?_) hreturned⟩
  rcases thread_step hk (turns k) with ⟨-, hsame⟩ | ⟨io, -, hmoved⟩
  · exact hsame
  · exact hmoved

theorem tidy_stateAt {policy : P} {limits : Limits} {capabilities : Capabilities} {frameLimits : FrameLimits}
    (hstart : start = State.initial (Broker.empty policy limits capabilities) frameLimits)
    (hgo : ∀ m, HandshakeGoesOn (stateAt step start turns m) (turns m)) (m : ℕ) :
    Tidy (stateAt step start turns m).broker (stateAt step start turns m).sessions
      (stateAt step start turns m).stageOf := by
  refine stateAt_invariant (I := fun s : State P => Tidy s.broker s.sessions s.stageOf) ?_
    (fun k hk => step_tidy hk (hgo k)) m
  subst hstart
  refine ⟨fun _ _ h => ?_, fun _ _ _ h => ?_, fun id => ⟨fun h => ?_, fun ⟨_, h⟩ => ?_⟩,
    fun id => ⟨fun h => ?_, fun ⟨_, h⟩ => ?_⟩⟩
  all_goals cases h

/-- The `serve_peer` call of a client that falls silent returns for good; if no call breaks off its handshake, its peer
is then in neither map. -/
theorem session_ends {policy : P} {limits : Limits} {capabilities : Capabilities} {frameLimits : FrameLimits} {pc : Pc}
    (hstart : start = State.initial (Broker.empty policy limits capabilities) frameLimits)
    (haccepted : (stateAt step start turns n).threads[connection]? = some pc)
    (hfair : ∃ᶠ m in atTop, (turns m).thread = some connection) (hsilent : ∀ m ≥ n, (turns m).Silent connection) :
    ∃ assigned result, ∃ m ≥ n, ∀ k ≥ m,
      (stateAt step start turns k).threads[connection]? = some (.returned assigned result) ∧
        ((∀ i, HandshakeGoesOn (stateAt step start turns i) (turns i)) → ∀ id, assigned = some id →
          (stateAt step start turns k).broker.peers.contains id = false ∧
            (stateAt step start turns k).sessions.contains id = false) := by
  obtain ⟨assigned, result, m, hm, hreturned⟩ := thread_returns haccepted hfair hsilent
  refine ⟨assigned, result, m, hm, fun k hk => ⟨hreturned k hk, fun hgo id hid => ?_⟩⟩
  subst hid
  exact (clean_of_tidy (tidy_stateAt hstart hgo k)).returned connection id result (hreturned k hk)

/-! ## Retained deliveries -/

theorem scheduler_step (state : State P) (turn : Turn) :
    (step state turn).1.scheduler.length ≤ state.scheduler.length ∨
      ∃ nowMs, turn = .tick nowMs ∧ state.scheduler = [] ∧
        (step state turn).1.broker = (state.broker.tick nowMs).1 ∧
        (step state turn).1.scheduler = (state.broker.tick nowMs).2 := by
  cases turn with
  | accept => exact .inl le_rfl
  | serve c io =>
    simp only [step]
    cases state.threads[c]? with
    | none => exact .inl le_rfl
    | some pc => exact .inl le_rfl
  | tick nowMs =>
    simp only [step]
    split_ifs with hidle
    · exact .inr ⟨nowMs, rfl, List.isEmpty_iff.mp hidle, rfl, rfl⟩
    · exact .inl le_rfl
  | dispatch io =>
    refine .inl ?_
    simp only [step]
    cases hscheduler : state.scheduler with
    | nil => exact (congrArg List.length hscheduler).le
    | cons event events =>
      dsimp only
      split
      · exact Nat.le_succ _
      · exact Nat.zero_le _

theorem scheduler_dispatch {io : DispatchIo} (h : state.scheduler ≠ []) :
    (step state (.dispatch io)).1.scheduler.length < state.scheduler.length := by
  simp only [step]
  cases hscheduler : state.scheduler with
  | nil => exact absurd hscheduler h
  | cons event events =>
    dsimp only
    split
    · exact Nat.lt_succ_self _
    · exact Nat.zero_lt_succ _

/-- A scheduler that gets turns again and again finishes what it has to dispatch. -/
theorem scheduler_idle (hdispatch : ∃ᶠ m in atTop, ∃ io, turns m = .dispatch io) (n : ℕ) :
    ∃ m ≥ n, (stateAt step start turns m).scheduler = [] := by
  refine exists_of_rank (fun m => (stateAt step start turns m).scheduler.length) ?_ ?_ hdispatch
  · intro m _ hbusy
    rcases scheduler_step (stateAt step start turns m) (turns m) with hle | ⟨_, -, hidle, -⟩
    · exact .inr hle
    · exact absurd hidle hbusy
  · rintro m - hbusy ⟨io, hturn⟩
    refine .inr ?_
    rw [stateAt, hturn]
    exact scheduler_dispatch hbusy

theorem scheduler_ticks (hdispatch : ∃ᶠ m in atTop, ∃ io, turns m = .dispatch io)
    (htick : ∃ᶠ m in atTop, ∃ nowMs, turns m = .tick nowMs) (n : ℕ) :
    ∃ m ≥ n, ∃ nowMs, turns m = .tick nowMs ∧
      (stateAt step start turns (m + 1)).broker = ((stateAt step start turns m).broker.tick nowMs).1 := by
  have hidle : ∃ m ≥ n, (stateAt step start turns m).scheduler = [] := scheduler_idle hdispatch n
  obtain ⟨m, hm, hidle⟩ := hidle
  -- nothing but a tick ends the idleness
  have hnext : ∃ k ≥ m, (stateAt step start turns k).scheduler = [] ∧ ∃ nowMs, turns k = .tick nowMs := by
    refine exists_and_of_frequently (fun k _ hempty hother => ?_) hidle htick
    rcases scheduler_step (stateAt step start turns k) (turns k) with hle | ⟨nowMs, hturn, -⟩
    · rw [hempty] at hle
      exact List.length_eq_zero_iff.mp (Nat.le_zero.mp hle)
    · exact absurd ⟨nowMs, hturn⟩ hother
  obtain ⟨k, hk, hempty, nowMs, hturn⟩ := hnext
  refine ⟨k, hm.trans hk, nowMs, hturn, ?_⟩
  rw [stateAt, hturn]
  simp only [step, hempty, List.isEmpty_nil, if_true]

theorem kept_step (hentries : Entries state.broker) {id : MessageId} {pending pending' : PendingDelivery} {turn : Turn}
    (hbefore : state.broker.deliveries.get? id = some pending)
    (hafter : (step state turn).1.broker.deliveries.get? id = some pending') :
    pending'.deadlineMs = pending.deadlineMs := by
  rcases step_calls state turn with ⟨-, hsame⟩ | ⟨op, -, hnext⟩
  · rw [hsame, hbefore] at hafter
    cases hafter
    rfl
  · have heffect := exec_effect hentries op id
    rw [hnext] at hafter
    rw [hbefore, hafter] at heffect
    obtain ⟨m, hmessage, -⟩ := (hentries id pending hbefore).message
    exact (heffect.kept hmessage).deadlineMs

variable {id : MessageId} {pending : PendingDelivery}

/-- A tick at the deadline removes an entry, and until then nothing changes the deadline. -/
theorem delivery_leaves (hentries : ∀ m, Entries (stateAt step start turns m).broker)
    (htick : ∃ᶠ m in atTop, ∃ nowMs, turns m = .tick nowMs) (hdispatch : ∃ᶠ m in atTop, ∃ io, turns m = .dispatch io)
    (hpending : (stateAt step start turns n).broker.deliveries.get? id = some pending)
    (hclock : ∀ᶠ m in atTop, ∀ nowMs, turns m = .tick nowMs → pending.deadlineMs ≤ nowMs) :
    ∃ m ≥ n, ¬ IsPending id (stateAt step start turns m).broker := by
  by_contra hstays
  push Not at hstays
  have hdeadline : ∀ m ≥ n, ∃ pending', (stateAt step start turns m).broker.deliveries.get? id = some pending' ∧
      pending'.deadlineMs = pending.deadlineMs := by
    refine forall_ge_of_kept (fun m hm ⟨before, hbefore, hsame⟩ => ?_) ⟨pending, hpending, rfl⟩
    obtain ⟨after, hafter⟩ := hstays (m + 1) (Nat.le_succ_of_le hm)
    exact ⟨after, hafter, (kept_step (hentries m) hbefore hafter).trans hsame⟩
  obtain ⟨late, hlate⟩ := eventually_atTop.mp hclock
  have hticks : ∃ m ≥ max n late, ∃ nowMs, turns m = .tick nowMs ∧
      (stateAt step start turns (m + 1)).broker = ((stateAt step start turns m).broker.tick nowMs).1 :=
    scheduler_ticks hdispatch htick _
  obtain ⟨m, hm, nowMs, hturn, hbroker⟩ := hticks
  obtain ⟨pending', hget, hsame⟩ := hdeadline m ((le_max_left _ _).trans hm)
  obtain ⟨after, hafter⟩ := hstays (m + 1) (((le_max_left _ _).trans hm).trans (Nat.le_succ m))
  have hexpired : tickResult nowMs pending' = .expire :=
    tickResult_eq_expire_iff.mpr (hsame ▸ hlate m ((le_max_right _ _).trans hm) nowMs hturn)
  rw [hbroker, tick_deliveries, hget, Option.bind_some, afterTick, hexpired] at hafter
  cases hafter

/-- In an endless run in which the clock thread gets turns again and again, so that all its sends return, and its clock
reaches the deadline, a retained delivery is completed. -/
theorem delivery_resolved {policy : P} {limits : Limits} {capabilities : Capabilities} {frameLimits : FrameLimits}
    (hstart : start = State.initial (Broker.empty policy limits capabilities) frameLimits)
    (htick : ∃ᶠ m in atTop, ∃ nowMs, turns m = .tick nowMs) (hdispatch : ∃ᶠ m in atTop, ∃ io, turns m = .dispatch io)
    (hpending : (stateAt step start turns n).broker.deliveries.get? id = some pending)
    (hclock : ∀ᶠ m in atTop, ∀ nowMs, turns m = .tick nowMs → pending.deadlineMs ≤ nowMs) :
    ∃ k life later broker, calls (historyFrom step start turns n k) = life ++ later ∧
      Completed id pending (stateAt step start turns n).broker life broker := by
  have hentries : ∀ m, Entries (stateAt step start turns m).broker := by
    subst hstart
    exact fun m => run_entries (run_calls (run_stateAt m)) (entries_empty policy limits capabilities)
  obtain ⟨m, hm, hleft⟩ := delivery_leaves hentries htick hdispatch hpending hclock
  obtain ⟨k, rfl⟩ := Nat.exists_eq_add_of_le hm
  rcases run_pending (run_calls (run_historyFrom n k)) (hentries n) hpending with
    hpends | ⟨life, later, broker, hcalls, hcompleted, -⟩
  · obtain ⟨pending', hget, -⟩ := hpends.same
    exact absurd ⟨pending', hget⟩ hleft
  · exact ⟨k, life, later, broker, hcalls, hcompleted⟩

/-! ## The daemon without clients -/

/-- Nobody is connected, and nothing is left of those who were. -/
structure Idle (state : State P) : Prop where
  threads : ∀ pc ∈ state.threads, pc.Returned
  scheduler : state.scheduler = []
  sessions : state.sessions = ∅
  peers : state.broker.peers = ∅
  «namespaces» : state.broker.namespaces = ∅
  dbusNames : state.broker.dbusNames = ∅
  subscriptions : state.broker.subscriptions = ∅
  deliveries : state.broker.deliveries = ∅

/-- An endless run in which every thread gets turns again and again, the clock reaches every deadline, and from some
time on nobody connects and nothing arrives. No call breaks off its handshake. -/
structure HangsUp (start : State P) (turns : ℕ → Turn) : Prop where
  accepts : ∀ᶠ n in atTop, turns n ≠ .accept
  silent : ∀ᶠ n in atTop, ∀ connection, (turns n).Silent connection
  serves : ∀ n, ∀ connection < (stateAt step start turns n).threads.length,
    ∃ᶠ m in atTop, (turns m).thread = some connection
  ticks : ∃ᶠ m in atTop, ∃ nowMs, turns m = .tick nowMs
  dispatches : ∃ᶠ m in atTop, ∃ io, turns m = .dispatch io
  clock : ∀ n id pending, (stateAt step start turns n).broker.deliveries.get? id = some pending →
    ∀ᶠ m in atTop, ∀ nowMs, turns m = .tick nowMs → pending.deadlineMs ≤ nowMs
  handshakes : ∀ n, HandshakeGoesOn (stateAt step start turns n) (turns n)

theorem length_threads (state : State P) {turn : Turn} (h : turn ≠ .accept) :
    (step state turn).1.threads.length = state.threads.length := by
  cases turn with
  | accept => exact absurd rfl h
  | serve c io =>
    simp only [step]
    cases state.threads[c]? with
    | none => rfl
    | some pc => exact List.length_set
  | tick nowMs =>
    simp only [step]
    split_ifs with hidle
    · rfl
    · rfl
  | dispatch io =>
    simp only [step]
    cases state.scheduler with
    | nil => rfl
    | cons event events => rfl

theorem threads_return (haccepts : ∀ᶠ n in atTop, turns n ≠ .accept)
    (hsilent : ∀ᶠ n in atTop, ∀ connection, (turns n).Silent connection)
    (hserves : ∀ n, ∀ connection < (stateAt step start turns n).threads.length,
      ∃ᶠ m in atTop, (turns m).thread = some connection) :
    ∀ᶠ n in atTop, ∀ pc ∈ (stateAt step start turns n).threads, pc.Returned := by
  obtain ⟨quiet, hquiet⟩ := eventually_atTop.mp (haccepts.and hsilent)
  have hlength : ∀ m ≥ quiet,
      (stateAt step start turns m).threads.length = (stateAt step start turns quiet).threads.length :=
    forall_ge_of_kept (fun m hm hsame => (length_threads _ (hquiet m hm).1).trans hsame) rfl
  -- the calls are finitely many, so there is a time at which all of them have returned
  have hall : ∀ᶠ n in atTop, ∀ c ∈ Set.Iio (stateAt step start turns quiet).threads.length,
      ∃ pc, (stateAt step start turns n).threads[c]? = some pc ∧ pc.Returned := by
    refine (eventually_all_finite (Set.finite_Iio _)).mpr fun c hc => ?_
    obtain ⟨assigned, result, m, -, hreturned⟩ := thread_returns (List.getElem?_eq_getElem hc) (hserves quiet c hc)
      fun m hm => (hquiet m hm).2 c
    exact eventually_atTop.mpr ⟨m, fun k hk => ⟨_, hreturned k hk, assigned, result, rfl⟩⟩
  filter_upwards [hall, eventually_ge_atTop quiet] with n hn hge pc hpc
  obtain ⟨c, hc⟩ := List.mem_iff_getElem?.mp hpc
  obtain ⟨hlt, -⟩ := List.getElem?_eq_some_iff.mp hc
  obtain ⟨pc', hpc', hreturned⟩ := hn c ((hlength n hge) ▸ hlt)
  rw [hc] at hpc'
  cases hpc'
  exact hreturned

/-- When all calls have returned, the clock is the only one to speak to the broker. -/
theorem broker_step (hall : ∀ pc ∈ state.threads, pc.Returned) (turn : Turn) :
    (step state turn).1.broker = state.broker ∨
      ∃ nowMs, (step state turn).1.broker = (state.broker.tick nowMs).1 := by
  cases turn with
  | accept => exact .inl rfl
  | serve c io =>
    refine .inl ?_
    simp only [step]
    cases hc : state.threads[c]? with
    | none => rfl
    | some pc =>
      obtain ⟨assigned, result, rfl⟩ := hall pc (List.mem_of_getElem? hc)
      rfl
  | tick nowMs =>
    simp only [step]
    split_ifs with hidle
    · exact .inr ⟨nowMs, rfl⟩
    · exact .inl rfl
  | dispatch io =>
    refine .inl ?_
    simp only [step]
    cases state.scheduler with
    | nil => rfl
    | cons event events => rfl

theorem absent_step (hall : ∀ pc ∈ state.threads, pc.Returned) (turn : Turn)
    (h : state.broker.deliveries.get? id = none) : (step state turn).1.broker.deliveries.get? id = none := by
  rcases broker_step hall turn with hsame | ⟨nowMs, hticked⟩
  · rw [hsame, h]
  · rw [hticked, tick_deliveries, h, Option.bind_none]

omit [Policy P] in
/-- When all calls have returned, neither map knows a peer. -/
theorem Tidy.empty (h : Tidy state.broker state.sessions state.stageOf) (hall : ∀ pc ∈ state.threads, pc.Returned) :
    state.broker.peers = ∅ ∧ state.sessions = ∅ := by
  have hnone : ∀ c, (state.stageOf c).inBroker = none := by
    intro c
    unfold State.stageOf
    cases hc : state.threads[c]? with
    | none => rfl
    | some pc =>
      obtain ⟨assigned, result, rfl⟩ := hall pc (List.mem_of_getElem? hc)
      cases assigned with
      | none => rfl
      | some id => rfl
  refine ⟨OrdMap.ext_get? fun id => ?_, OrdMap.ext_get? fun id => ?_⟩
  · refine OrdMap.contains_eq_false_iff.mp (Bool.eq_false_iff.mpr fun hid => ?_)
    obtain ⟨c, hc⟩ := (h.peers id).mp hid
    rw [hnone c] at hc
    cases hc
  · refine OrdMap.contains_eq_false_iff.mp (Bool.eq_false_iff.mpr fun hid => ?_)
    obtain ⟨c, hc⟩ := (h.sessions id).mp hid
    have hin := Stage.inBroker_of_inSessions hc
    rw [hnone c] at hin
    cases hin

omit [Policy P] in
theorem registry_empty {broker : Broker P} (h : Integrity broker) (hpeers : broker.peers = ∅) :
    broker.namespaces = ∅ ∧ broker.dbusNames = ∅ ∧ broker.subscriptions = ∅ := by
  have hnobody : ∀ peer, broker.peers.contains peer ≠ true := by
    intro peer hpeer
    rw [hpeers] at hpeer
    cases hpeer
  refine ⟨OrdMap.ext_get? fun ns => ?_, OrdMap.ext_get? fun name => ?_, OrdMap.ext_get? fun channel => ?_⟩
  · refine Option.eq_none_iff_forall_ne_some.mpr fun owner howner => ?_
    exact hnobody owner (h.namespace ns owner howner)
  · refine Option.eq_none_iff_forall_ne_some.mpr fun owner howner => ?_
    exact hnobody owner (h.dbusName name owner howner)
  · refine Option.eq_none_iff_forall_ne_some.mpr fun subscribers hsubscribers => ?_
    obtain ⟨hsome, hconnected⟩ := h.channel channel subscribers hsubscribers
    have hempty : subscribers.isEmpty = true := OrdMap.isEmpty_iff.mpr fun peer =>
      OrdMap.contains_eq_false_iff.mp (Bool.eq_false_iff.mpr fun hpeer => hnobody peer (hconnected peer hpeer))
    rw [hsome] at hempty
    cases hempty

/-- The deliveries that are retained when all calls have returned are completed, and no others follow. -/
theorem deliveries_end (hentries : ∀ m, Entries (stateAt step start turns m).broker)
    (hreturned : ∀ᶠ n in atTop, ∀ pc ∈ (stateAt step start turns n).threads, pc.Returned)
    (htick : ∃ᶠ m in atTop, ∃ nowMs, turns m = .tick nowMs) (hdispatch : ∃ᶠ m in atTop, ∃ io, turns m = .dispatch io)
    (hclock : ∀ n id pending, (stateAt step start turns n).broker.deliveries.get? id = some pending →
      ∀ᶠ m in atTop, ∀ nowMs, turns m = .tick nowMs → pending.deadlineMs ≤ nowMs) :
    ∀ᶠ n in atTop, (stateAt step start turns n).broker.deliveries = ∅ := by
  obtain ⟨quiet, hquiet⟩ := eventually_atTop.mp hreturned
  have habsent : ∀ m ≥ quiet, ∀ id, (stateAt step start turns m).broker.deliveries.get? id = none →
      ∀ k ≥ m, (stateAt step start turns k).broker.deliveries.get? id = none :=
    fun m hm id hnone => forall_ge_of_kept (fun k hk => absent_step (hquiet k (hm.trans hk)) (turns k)) hnone
  have hall : ∀ᶠ n in atTop, ∀ id ∈ {id | id ∈ (stateAt step start turns quiet).broker.deliveries.keys},
      (stateAt step start turns n).broker.deliveries.get? id = none := by
    refine (eventually_all_finite (List.finite_toSet _)).mpr fun id hid => ?_
    obtain ⟨pending, hpending⟩ := OrdMap.contains_iff.mp (OrdMap.mem_keys_iff.mp hid)
    obtain ⟨m, hm, hleft⟩ := delivery_leaves hentries htick hdispatch hpending (hclock quiet id pending hpending)
    exact eventually_atTop.mpr ⟨m, habsent m hm id (not_isPending_iff.mp hleft)⟩
  filter_upwards [hall, eventually_ge_atTop quiet] with n hn hge
  refine OrdMap.ext_get? fun id => ?_
  by_cases hid : id ∈ (stateAt step start turns quiet).broker.deliveries.keys
  · exact hn id hid
  · refine habsent quiet le_rfl id (Option.eq_none_iff_forall_ne_some.mpr fun pending hpending => ?_) n hge
    exact hid (OrdMap.mem_keys_iff.mpr (OrdMap.contains_iff.mpr ⟨pending, hpending⟩))

theorem scheduler_rests (hempty : ∀ᶠ n in atTop, (stateAt step start turns n).broker.deliveries = ∅)
    (hdispatch : ∃ᶠ m in atTop, ∃ io, turns m = .dispatch io) :
    ∀ᶠ n in atTop, (stateAt step start turns n).scheduler = [] := by
  obtain ⟨quiet, hquiet⟩ := eventually_atTop.mp hempty
  have hidle : ∃ m ≥ quiet, (stateAt step start turns m).scheduler = [] := scheduler_idle hdispatch quiet
  obtain ⟨m, hm, hidle⟩ := hidle
  refine eventually_atTop.mpr ⟨m, forall_ge_of_kept (fun k hk hrests => ?_) hidle⟩
  rcases scheduler_step (stateAt step start turns k) (turns k) with hle | ⟨nowMs, -, -, -, hevents⟩
  · rw [hrests] at hle
    exact List.length_eq_zero_iff.mp (Nat.le_zero.mp hle)
  · have hself : (stateAt step start turns k).broker.tick nowMs = ((stateAt step start turns k).broker, []) := by
      refine tick_eq_self_iff.mpr fun id pending hget => ?_
      rw [hquiet k (hm.trans hk)] at hget
      cases hget
    rw [stateAt, hevents, hself]

/-- When all clients have hung up, the daemon becomes idle: no thread, no registration and no delivery is left, not
even those that a requester left behind. -/
theorem daemon_empties {policy : P} {limits : Limits} {capabilities : Capabilities} {frameLimits : FrameLimits}
    (h : HangsUp (State.initial (Broker.empty policy limits capabilities) frameLimits) turns) :
    ∀ᶠ n in atTop,
      Idle (stateAt step (State.initial (Broker.empty policy limits capabilities) frameLimits) turns n) := by
  generalize hstart : State.initial (Broker.empty policy limits capabilities) frameLimits = start at h ⊢
  have hsound : ∀ m, Sound (stateAt step start turns m).broker := by
    subst hstart
    exact fun m => run_sound (run_calls (run_stateAt m)) (sound_empty policy limits capabilities)
  have hthreads := threads_return h.accepts h.silent h.serves
  have hdeliveries := deliveries_end (fun m => (hsound m).entries) hthreads h.ticks h.dispatches h.clock
  have hscheduler := scheduler_rests hdeliveries h.dispatches
  filter_upwards [hthreads, hdeliveries, hscheduler] with n hreturned hnone hrests
  obtain ⟨hpeers, hsessions⟩ := (tidy_stateAt hstart.symm h.handshakes n).empty hreturned
  obtain ⟨hnamespaces, hnames, hsubscriptions⟩ := registry_empty (hsound n).integrity hpeers
  exact ⟨hreturned, hrests, hsessions, hpeers, hnamespaces, hnames, hsubscriptions, hnone⟩

/-! ## Two clients that hang up -/

/-- Two clients join, and one of them sends the other a request. -/
def requesting : List Turn :=
  [.accept, .accept] ++ joins 0 ++ joins 1 ++ submits 0 (.message acceptedRequest)

def windsDown : ℕ → Turn
  | 0 => .serve 0 calmIo
  | 1 => .serve 1 calmIo
  | 2 => .tick 18446744073709551615
  | _ => .dispatch calmIo.dispatch

def hangingUp (n : ℕ) : Turn := (requesting[n]?).getD (windsDown (n % 4))

theorem hangingUp_late (hn : 14 ≤ n) : hangingUp n = windsDown (n % 4) := by
  unfold hangingUp
  rw [List.getElem?_eq_none (hn.trans' (by decide)), Option.getD_none]

theorem hangingUp_frequently {r : ℕ} (hr : r < 4) : ∃ᶠ m in atTop, hangingUp m = windsDown r := by
  refine frequently_atTop.mpr fun a => ⟨4 * (a + 14) + r, by omega, ?_⟩
  rw [hangingUp_late (by omega), show (4 * (a + 14) + r) % 4 = r by omega]

theorem windsDown_silent (r : ℕ) : windsDown r ≠ .accept ∧ ∀ connection, (windsDown r).Silent connection := by
  unfold windsDown
  split
  all_goals
    refine ⟨by simp, fun connection io packet hturn => ?_⟩
    cases hturn
  all_goals simp [calmIo]

/-- The operating system does in this turn what it is asked for. -/
def Turn.Granted : Turn → Bool
  | .serve _ io => io.sent && io.cloned
  | _ => true

theorem hangingUp_granted (n : ℕ) : (hangingUp n).Granted = true := by
  unfold hangingUp
  cases hturn : requesting[n]? with
  | none =>
    rw [Option.getD_none]
    unfold windsDown
    split
    all_goals rfl
  | some turn =>
    have hall : requesting.all Turn.Granted = true := rfl
    exact List.all_eq_true.mp hall turn (List.mem_of_getElem? hturn)

/-- In a daemon as `run_daemon` sets it up, only the operating system breaks off a handshake. -/
theorem handshakeGoesOn_of_granted {policy : P} {limits : Limits} {frameLimits : FrameLimits}
    {history : List (Turn × Output)} (hsize : 1024 ≤ frameLimits.maximumFrameSize)
    (hrun : Run step (State.initial (.withLimits policy limits) frameLimits) history state) {turn : Turn}
    (h : turn.Granted = true) : HandshakeGoesOn state turn := by
  intro c io pc hturn hpc
  subst hturn
  obtain ⟨hsent, hcloned⟩ := Bool.and_eq_true_iff.mp h
  have hanswering := run_answering hrun
  cases pc with
  | welcoming session =>
    have hready := hanswering.ready _ (List.mem_of_getElem? hpc)
    rw [hanswering.under]
    exact ⟨hsent, answer_encodes hsize hready rfl⟩
  | registering id => exact hcloned
  | _ => trivial

theorem length_threads_hangingUp (n : ℕ) : (stateAt step openDaemon hangingUp n).threads.length ≤ 2 := by
  have hjoined : (stateAt step openDaemon hangingUp 14).threads.length = 2 := by decide +kernel
  rcases le_total 14 n with hlate | hearly
  · refine le_of_eq (forall_ge_of_kept (n := 14)
      (p := fun m => (stateAt step openDaemon hangingUp m).threads.length = 2) (fun m hm hsame => ?_) hjoined n hlate)
    refine (length_threads _ ?_).trans hsame
    rw [hangingUp_late hm]
    exact (windsDown_silent _).1
  · rw [← hjoined]
    refine monotone_nat_of_le_succ (f := fun m => (stateAt step openDaemon hangingUp m).threads.length) (fun m => ?_)
      hearly
    by_cases haccept : hangingUp m = .accept
    · rw [stateAt, haccept]
      simp [step]
    · exact (length_threads _ haccept).ge

theorem hangsUp_hangingUp : HangsUp openDaemon hangingUp where
  accepts := eventually_atTop.mpr ⟨14, fun n hn => hangingUp_late hn ▸ (windsDown_silent _).1⟩
  silent := eventually_atTop.mpr ⟨14, fun n hn => hangingUp_late hn ▸ (windsDown_silent _).2⟩
  serves n c hc := by
    have hlt := hc.trans_le (length_threads_hangingUp n)
    refine (hangingUp_frequently (hlt.trans (by decide))).mono fun m hm => ?_
    rw [hm]
    rcases Nat.le_one_iff_eq_zero_or_eq_one.mp (Nat.le_of_lt_succ hlt) with rfl | rfl
    · rfl
    · rfl
  ticks := (hangingUp_frequently (r := 2) (by decide)).mono fun m hm => ⟨_, hm⟩
  dispatches := (hangingUp_frequently (r := 3) (by decide)).mono fun m hm => ⟨_, hm⟩
  clock n id pending _ := by
    refine eventually_atTop.mpr ⟨14, fun m hm nowMs hturn => ?_⟩
    rw [hangingUp_late hm] at hturn
    obtain rfl : nowMs = 18446744073709551615 := by
      unfold windsDown at hturn
      split at hturn
      all_goals cases hturn
      rfl
    exact UInt64.le_iff_toNat_le.mpr (Nat.le_of_lt_succ pending.deadlineMs.toNat_lt)
  handshakes n := handshakeGoesOn_of_granted (by decide) (run_stateAt n) (hangingUp_granted n)

theorem session_ends_hangingUp :
    ∃ assigned result, ∃ m ≥ 14, ∀ k ≥ m,
      (stateAt step openDaemon hangingUp k).threads[0]? = some (.returned assigned result) ∧
        ((∀ i, HandshakeGoesOn (stateAt step openDaemon hangingUp i) (hangingUp i)) → ∀ id, assigned = some id →
          (stateAt step openDaemon hangingUp k).broker.peers.contains id = false ∧
            (stateAt step openDaemon hangingUp k).sessions.contains id = false) := by
  have haccepted : (stateAt step openDaemon hangingUp 14).threads[0]? = some (.dispatching (.new 1)
      [.deliver (.new 1) [.new 2] (.message acceptedRequest), .result (.new 1) (numberedId 1) .accepted]) := by
    decide +kernel
  refine session_ends rfl haccepted ((hangingUp_frequently (r := 0) (by decide)).mono fun m hm => ?_) fun m hm => ?_
  · rw [hm]
    rfl
  · rw [hangingUp_late hm]
    exact (windsDown_silent _).2 0

theorem delivery_resolved_hangingUp :
    (stateAt step openDaemon hangingUp 14).broker.deliveries.get? (numberedId 1) = some acceptedPending ∧
      ∃ k life later broker, calls (historyFrom step openDaemon hangingUp 14 k) = life ++ later ∧
        Completed (numberedId 1) acceptedPending (stateAt step openDaemon hangingUp 14).broker life broker := by
  have hpending : (stateAt step openDaemon hangingUp 14).broker.deliveries.get? (numberedId 1) =
      some acceptedPending := by decide +kernel
  exact ⟨hpending, delivery_resolved rfl hangsUp_hangingUp.ticks hangsUp_hangingUp.dispatches hpending
    (hangsUp_hangingUp.clock 14 _ _ hpending)⟩

theorem daemon_empties_hangingUp : ∀ᶠ n in atTop, Idle (stateAt step openDaemon hangingUp n) :=
  daemon_empties hangsUp_hangingUp

end Busd.Daemon
