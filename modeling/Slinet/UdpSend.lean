/-
# Sending datagrams

`UdpWriteHalf::send` and `send_datagram` (`src/protocols/udp/stream.rs`) with
their `DataPacer` (`src/protocols/udp/pacing.rs`), as the writer of the task
`send_packets` (`Slinet.Connection`). The peer can be closed, its rate changed
and the connection disconnected between any two steps; the codec, the socket
and the clock are left open.

A dequeued packet is counted by one of three layers: by the writer, as sent,
oversized or refused by the socket; or by the `PendingPacket` of the task, as
closed before delivery, when the write was interrupted or ended with
`ConnectionAborted`. A peer that closes after the socket has failed, and before
the writer looks, falls between the two (`refused_then_closed`); in runs
without that every dequeued packet has one fate (`dequeued_perm_counted`).
-/
import Slinet.Reports
import Mathlib.Data.PNat.Defs

namespace Slinet

variable {P : Type*}

/-- The counters of the handle that speak of dequeued packets. -/
inductive Counter
  | sentDataPackets
  | droppedOversizedPayload
  | droppedSocketSendError
  | droppedClosedBeforeDelivery
  deriving DecidableEq, Repr

/-- `PeerState::disconnected_error`, and the error of a closed pacer. -/
def disconnectedError : IoError := ⟨.connectionAborted, "UDP peer closed"⟩

/-- The nanoseconds between two sends. -/
def spacing (bytes : ℕ) (rate : ℕ+) : ℕ := (bytes * 1000000000 + rate - 1) / rate

/-- `DataPacer`, with its receiver of the rate: the version it has seen. -/
structure DataPacer where
  seen : ℕ
  previous : Option (ℕ × ℕ)
  deriving DecidableEq, Repr

namespace UdpSend

/-- Where `UdpWriteHalf::send` is. -/
inductive Pc
  | idle
  | encoding
  /-- The top of the loop of `DataPacer::wait`. -/
  | pacing (payload : List UInt8)
  /-- Its `select!`, a branch at a time: the peer, the rate, the clock. -/
  | pausing (payload : List UInt8) (deadline : ℕ)
  | rating (payload : List UInt8) (deadline : ℕ)
  | sleeping (payload : List UInt8) (deadline : ℕ)
  /-- The test before the `select!` of `send_datagram`. -/
  | entering (payload : List UInt8)
  /-- That `select!`: the peer, then the socket. -/
  | selecting (payload : List UInt8)
  | socket (payload : List UInt8)
  /-- `send_datagram` has returned. -/
  | returned (bytes : ℕ) (result : Except IoError Unit)
  /-- It has failed, and `is_closed` is next. -/
  | checking (error : IoError)

/-- The packet is counted, and its write has still to return. -/
def Pc.Counted : Pc → Bool
  | returned _ (.ok ()) => true
  | _ => false

end UdpSend

/-- A connection's sending side over a UDP peer. `counted` lists the increments
made for dequeued packets, `unserialized` the packets that could not be
serialized. -/
structure UdpSend (P : Type*) where
  conn : Conn P
  pc : UdpSend.Pc
  closed : Bool
  maxPayloadSize : ℕ
  rate : Option ℕ+
  version : ℕ
  pacer : DataPacer
  now : ℕ
  counted : List (Counter × P)
  unserialized : List (P × String)

namespace UdpSend

def new (o : Outgoing P) (maxPayloadSize : ℕ) (rate : Option ℕ+) : UdpSend P :=
  ⟨Conn.new o, .idle, false, maxPayloadSize, rate, 0, ⟨0, none⟩, 0, [], []⟩

/-- The packet being written. -/
def writing? : Task P → Option P
  | .parked (.writing packet) => some packet
  | .polled (.writing packet) => some packet
  | _ => none

def count (s : UdpSend P) (counter : Counter) (packet : P) : UdpSend P :=
  { s with counted := s.counted ++ [(counter, packet)] }

/-- A step of the task or of its callers. The writer's future begins with the
write and goes with it; only the writer itself returns or waits. -/
def connStep (s : UdpSend P) (a : Conn.Act P) : UdpSend P :=
  match a, s.conn.task with
  | .write _, _ => s
  | .pend, .polled (.writing _) => s
  | .advance, .dequeued _ =>
    { s with conn := s.conn.advance, pc := if s.conn.token then .idle else .encoding }
  | .advance, .breaking (some packet) =>
    { s.count .droppedClosedBeforeDelivery packet with conn := s.conn.advance }
  | a, _ =>
    { s with
      conn := s.conn.step a
      pc := if (writing? (s.conn.step a).task).isSome then s.pc else .idle }

/-- `send` returns to the task. -/
def finish (s : UdpSend P) (result : Except IoError Unit) : UdpSend P :=
  { s with conn := s.conn.write result, pc := .idle }

/-- The writer's future is pending, and will be polled from `pc` on. -/
def pend (s : UdpSend P) (pc : Pc) : UdpSend P := { s with conn := s.conn.pend, pc := pc }

/-- The codec returns. -/
def serialized (s : UdpSend P) (packet : P) (result : Except String (List UInt8)) : UdpSend P :=
  match s.pc with
  | .encoding =>
    match result with
    | .error err =>
      { s with unserialized := s.unserialized ++ [(packet, err)] }.finish (.error ⟨.other, err⟩)
    | .ok payload =>
      if payload.length > s.maxPayloadSize then
        (s.count .droppedOversizedPayload packet).finish (.ok ())
      else { s with pc := .pacing payload }
  | _ => s

/-- The socket is pending, or reports the bytes it sent, or fails. -/
def socketReady (s : UdpSend P) (packet : P) (outcome : Option (Except IoError ℕ)) : UdpSend P :=
  match s.pc with
  | .socket payload =>
    match outcome with
    | none => s.pend (.selecting payload)
    | some (.error err) => { s with pc := .returned payload.length (.error err) }
    | some (.ok sent) =>
      if sent ≠ payload.length then
        { s with pc := .returned payload.length (.error ⟨.writeZero, ""⟩) }
      else
        { s.count .sentDataPackets packet with pc := .returned payload.length (.ok ()) }
  | _ => s

/-- The writer's own next step. -/
def advance (s : UdpSend P) (packet : P) : UdpSend P :=
  match s.pc with
  | .pacing payload =>
    let s := { s with pacer := { s.pacer with seen := s.version } }
    match s.pacer.previous, s.rate with
    | some (sentAt, bytes), some rate =>
      if sentAt + spacing bytes rate ≤ s.now then { s with pc := .entering payload }
      else { s with pc := .pausing payload (sentAt + spacing bytes rate) }
    | _, _ => { s with pc := .entering payload }
  | .pausing payload deadline =>
    if s.closed then s.finish (.error disconnectedError)
    else { s with pc := .rating payload deadline }
  | .rating payload deadline =>
    if s.pacer.seen ≠ s.version then { s with pc := .pacing payload }
    else { s with pc := .sleeping payload deadline }
  | .sleeping payload deadline =>
    if deadline ≤ s.now then { s with pc := .entering payload } else s.pend (.pausing payload deadline)
  | .entering payload =>
    if s.closed then { s with pc := .returned payload.length (.error disconnectedError) }
    else { s with pc := .selecting payload }
  | .selecting payload =>
    if s.closed then { s with pc := .returned payload.length (.error disconnectedError) }
    else { s with pc := .socket payload }
  | .returned bytes result =>
    let s := { s with pacer := { s.pacer with previous := some (s.now, bytes) } }
    match result with
    | .ok () => s.finish (.ok ())
    | .error err => { s with pc := .checking err }
  | .checking err =>
    if s.closed then s.finish (.error err)
    else (s.count .droppedSocketSendError packet).finish (.ok ())
  | _ => s

inductive Act (P : Type*)
  | conn (a : Conn.Act P)
  | serialized (result : Except String (List UInt8))
  | socketReady (outcome : Option (Except IoError ℕ))
  | advance
  /-- `PeerState::close`. -/
  | close
  | setSendRate (rate : Option ℕ+)
  | tick (nanos : ℕ)

/-- The writer runs only in a poll of its task. -/
def step (s : UdpSend P) : Act P → UdpSend P
  | .conn a => s.connStep a
  | .serialized result =>
    match s.conn.task with
    | .polled (.writing packet) => s.serialized packet result
    | _ => s
  | .socketReady outcome =>
    match s.conn.task with
    | .polled (.writing packet) => s.socketReady packet outcome
    | _ => s
  | .advance =>
    match s.conn.task with
    | .polled (.writing packet) => s.advance packet
    | _ => s
  | .close => { s with closed := true }
  | .setSendRate rate => { s with rate := rate, version := s.version + 1 }
  | .tick nanos => { s with now := s.now + nanos }

/-- The dequeued packet of the task that has no fate yet; `counted` says that
the writer has counted the one it writes. -/
def heldBy (counted : Bool) : Task P → List P
  | .dequeued packet => [packet]
  | .parked (.writing packet) => if counted then [] else [packet]
  | .polled (.writing packet) => if counted then [] else [packet]
  | .written packet result => if aborted result then [packet] else []
  | .breaking (some packet) => [packet]
  | _ => []

def held (s : UdpSend P) : List P := heldBy s.pc.Counted s.conn.task

/-- The error of the packet's codec ends the writer. -/
def Ended (s : Conn P) (x : P × String) : Prop :=
  s.task = .written x.1 (.error ⟨.other, x.2⟩) ∨
    ¬ s.task.Running ∧ (.finished (.error ⟨.other, x.2⟩), x.1) ∈ s.log

/-- **One fate for each dequeued packet.** It is counted once, or its
serialization has failed and that error ends the writer, or it is the one the
writer still holds. -/
def Accounted (s : UdpSend P) : Prop :=
  s.conn.dequeued.Perm (s.held ++ s.counted.map Prod.snd ++ s.unserialized.map Prod.fst) ∧
  ∀ x ∈ s.unserialized, Ended s.conn x

/-- The peer is still open when the writer looks at it after a socket failure
that `PendingPacket` will not count. -/
def PeerOpenAtCheck (s : UdpSend P) (a : Act P) : Prop :=
  ∀ err, a = .advance → s.pc = .checking err → err.kind ≠ .connectionAborted → s.closed = false

/-! ### The end of the writer -/

/-- A step that leaves the task where it is, and the log at least as long. -/
theorem Ended.mono {s s' : Conn P} {x : P × String} (h : Ended s x) (ht : s'.task = s.task)
    (hlog : s.log <+: s'.log) : Ended s' x := by
  unfold Ended
  rw [ht]
  exact h.imp id fun hs => ⟨hs.1, hlog.subset hs.2⟩

theorem ended_advance {s : Conn P} {x : P × String} (h : Ended s x) : Ended s.advance x := by
  have hlog := (Conn.frame_advance s).log
  rcases h with ht | ⟨hr, hmem⟩
  · refine Or.inr ?_
    simp [Conn.advance, ht, Task.Running]
  · refine Or.inr ⟨?_, hlog.subset hmem⟩
    cases ht : s.task with
    | breaking pending => simp [Conn.advance, ht, Task.Running]
    | left => simp [Conn.advance, ht, Task.Running]
    | closing => simp [Conn.advance, ht, Task.Running]
    | draining n =>
      cases n with
      | zero =>
        simp only [Conn.advance, ht]
        split <;> simp [Task.Running]
      | succ n => simp [Conn.advance, ht, Task.Running]
    | drained => simp [Conn.advance, ht, Task.Running]
    | gone => simp [Conn.advance, ht, Task.Running]
    | _ => rw [ht] at hr; exact absurd trivial hr

theorem ended_step {s : Conn P} {x : P × String} (h : Ended s x) (a : Conn.Act P) :
    Ended (s.step a) x := by
  by_cases hcaller : a.ofCaller = true
  · have hk := Conn.keeps_of_caller s hcaller
    exact h.mono hk.task hk.log
  have hwait : (∀ stage, s.task ≠ .parked stage) ∧ (∀ stage, s.task ≠ .polled stage) ∧
      s.task ≠ .unstarted := by
    rcases h with ht | ⟨hr, -⟩
    · simp [ht]
    · refine ⟨fun stage ht => ?_, fun stage ht => ?_, fun ht => ?_⟩ <;>
        (rw [ht] at hr; exact hr trivial)
  obtain ⟨hpark, hpoll, hun⟩ := hwait
  cases a with
  | poll =>
    simp only [Conn.step, Conn.poll]
    exact h
  | pend =>
    simp only [Conn.step, Conn.pend]
    exact h
  | write result =>
    simp only [Conn.step, Conn.write]
    split
    · rename_i packet ht; exact absurd ht (hpoll _)
    · exact h
  | abort =>
    simp only [Conn.step, Conn.abort]
    exact h
  | advance => exact ended_advance h
  | _ => exact absurd rfl hcaller

/-! ### One fate for each packet -/

/-- What every step that meets the condition keeps. -/
structure Good (s : UdpSend P) : Prop where
  law : s.conn.dequeued.Perm (s.held ++ s.counted.map Prod.snd ++ s.unserialized.map Prod.fst)
  ended : ∀ x ∈ s.unserialized, Ended s.conn x
  parked : ∀ packet, s.conn.task = .parked (.writing packet) → s.pc.Counted = false

theorem good_new (o : Outgoing P) (maxPayloadSize : ℕ) (rate : Option ℕ+) :
    Good (new o maxPayloadSize rate) :=
  ⟨by simp [new, Conn.new, held, heldBy], by simp [new], by simp [new, Conn.new]⟩

/-- **A step of the task or the writer** dequeues `more`, and what is held
before it or dequeued by it is held after it or has its fate now. -/
theorem Good.move {s s' : UdpSend P} (h : Good s) (more : List P) (counts : List (Counter × P))
    (unserialized : List (P × String)) (hdeq : s'.conn.dequeued = s.conn.dequeued ++ more)
    (hcount : s'.counted = s.counted ++ counts)
    (hun : s'.unserialized = s.unserialized ++ unserialized)
    (hheld : (s.held ++ more).Perm (s'.held ++ counts.map Prod.snd ++ unserialized.map Prod.fst))
    (hended : ∀ x, Ended s.conn x → Ended s'.conn x)
    (hnew : ∀ x ∈ unserialized, Ended s'.conn x)
    (hpark : ∀ packet, s'.conn.task = .parked (.writing packet) → s'.pc.Counted = false) :
    Good s' := by
  refine ⟨perm_of_count fun a => ?_, ?_, hpark⟩
  · have hl := h.law.count_eq a
    have hm := hheld.count_eq a
    simp only [hdeq, hcount, hun, List.map_append, List.count_append] at hl hm ⊢
    omega
  · intro x hx
    rw [hun] at hx
    rcases List.mem_append.mp hx with hx | hx
    · exact hended x (h.ended x hx)
    · exact hnew x hx

/-- The writer moves on within its call. -/
theorem Good.goto {s : UdpSend P} (h : Good s) {packet : P}
    (ht : s.conn.task = .polled (.writing packet)) {pc pc' : Pc} {pacer : DataPacer}
    (hpc : s.pc = pc) (hc : pc'.Counted = pc.Counted) : Good { s with pc := pc', pacer := pacer } := by
  refine h.move [] [] [] (by simp) (by simp) (by simp) ?_ (fun x hx => hx) (by simp) ?_
  · simp [held, heldBy, ht, hc, hpc]
  · intro packet' hp
    rw [ht] at hp
    cases hp

/-- The writer waits. -/
theorem good_pend {s : UdpSend P} (h : Good s) {packet : P}
    (ht : s.conn.task = .polled (.writing packet)) {pc pc' : Pc} (hpc : s.pc = pc)
    (hc : pc.Counted = false) (hc' : pc'.Counted = false) : Good (s.pend pc') := by
  refine h.move [] [] [] (by simp [pend, Conn.pend, ht]) (by simp [pend]) (by simp [pend]) ?_ ?_
    (by simp) (fun _ _ => hc')
  · simp [held, heldBy, pend, Conn.pend, ht, hpc, hc, hc']
  · intro x hx
    exact ended_step hx .pend

/-- **The writer returns**, after the increments `counts`: the packet has its
fate now, unless the `PendingPacket` is to count it. -/
theorem good_finish {s s' : UdpSend P} (h : Good s) {packet : P}
    (ht : s.conn.task = .polled (.writing packet)) (counts : List (Counter × P))
    (unserialized : List (P × String)) {result : Except IoError Unit} (hconn : s'.conn = s.conn)
    (hcount : s'.counted = s.counted ++ counts)
    (hun : s'.unserialized = s.unserialized ++ unserialized)
    (hheld : (if s.pc.Counted then [] else [packet]).Perm
      ((if aborted result then [packet] else []) ++ counts.map Prod.snd ++
        unserialized.map Prod.fst))
    (hnew : ∀ x ∈ unserialized, x.1 = packet ∧ result = .error ⟨.other, x.2⟩) :
    Good (s'.finish result) := by
  have htask : (s'.finish result).conn.task = .written packet result := by
    simp [finish, hconn, Conn.write, ht]
  refine h.move [] counts unserialized (by simp [finish, hconn, Conn.write, ht]) hcount hun ?_ ?_ ?_
    (by simp [htask])
  · have hs : s.held = if s.pc.Counted then [] else [packet] := by simp [held, heldBy, ht]
    have hs' : (s'.finish result).held = if aborted result then [packet] else [] := by
      simp [held, heldBy, htask]
    rw [hs, hs', List.append_nil]
    exact hheld
  · intro x hx
    rw [finish, hconn]
    exact ended_step hx (.write result)
  · intro x hx
    obtain ⟨rfl, rfl⟩ := hnew x hx
    exact Or.inl htask

theorem good_serialized {s : UdpSend P} (h : Good s) {packet : P}
    (ht : s.conn.task = .polled (.writing packet)) (result : Except String (List UInt8)) :
    Good (s.serialized packet result) := by
  unfold serialized
  split
  · rename_i hpc
    split
    · rename_i err
      exact good_finish h ht [] [(packet, err)] rfl (by simp) rfl (by simp [hpc, Pc.Counted, aborted]) (by simp)
    · split
      · exact good_finish h ht [(.droppedOversizedPayload, packet)] [] rfl rfl (by simp [count])
          (by simp [hpc, Pc.Counted, aborted]) (by simp)
      · exact h.goto ht hpc rfl
  · exact h

theorem good_socketReady {s : UdpSend P} (h : Good s) {packet : P}
    (ht : s.conn.task = .polled (.writing packet)) (outcome : Option (Except IoError ℕ)) :
    Good (s.socketReady packet outcome) := by
  unfold socketReady
  split
  · rename_i payload hpc
    split
    · exact good_pend h ht hpc rfl rfl
    · exact h.goto ht hpc rfl
    · split
      · exact h.goto ht hpc rfl
      · -- the datagram is out, and counted before the call returns
        refine h.move [] [(.sentDataPackets, packet)] [] (by simp [count]) rfl (by simp [count]) ?_
          (fun x hx => hx) (by simp) ?_
        · simp [held, heldBy, count, ht, hpc, Pc.Counted]
        · intro packet' hp
          simp [count, ht] at hp
  · exact h

/-- The writer's own steps, under the condition on the check after a socket
failure. -/
theorem good_advance {s : UdpSend P} (h : Good s) {packet : P}
    (ht : s.conn.task = .polled (.writing packet)) (hopen : PeerOpenAtCheck s .advance) :
    Good (s.advance packet) := by
  cases hpc : s.pc with
  | pacing payload =>
    simp only [advance, hpc]
    split
    · split
      · exact h.goto ht hpc rfl
      · exact h.goto ht hpc rfl
    · exact h.goto ht hpc rfl
  | pausing payload deadline =>
    simp only [advance, hpc]
    split
    · exact good_finish h ht [] [] rfl (by simp) (by simp)
        (by simp [hpc, Pc.Counted, aborted, disconnectedError]) (by simp)
    · exact h.goto ht hpc rfl
  | rating payload deadline =>
    simp only [advance, hpc]
    split
    · exact h.goto ht hpc rfl
    · exact h.goto ht hpc rfl
  | sleeping payload deadline =>
    simp only [advance, hpc]
    split
    · exact h.goto ht hpc rfl
    · exact good_pend h ht hpc rfl rfl
  | entering payload =>
    simp only [advance, hpc]
    split
    · exact h.goto ht hpc rfl
    · exact h.goto ht hpc rfl
  | selecting payload =>
    simp only [advance, hpc]
    split
    · exact h.goto ht hpc rfl
    · exact h.goto ht hpc rfl
  | returned bytes result =>
    simp only [advance, hpc]
    cases result with
    | ok =>
      exact good_finish h ht [] [] rfl (by simp) (by simp) (by simp [hpc, Pc.Counted, aborted])
        (by simp)
    | error err => exact h.goto ht hpc rfl
  | checking err =>
    simp only [advance, hpc]
    split
    · rename_i hclosed
      have hkind : err.kind = .connectionAborted := by
        by_contra hne
        rw [hopen err rfl hpc hne] at hclosed
        cases hclosed
      exact good_finish h ht [] [] rfl (by simp) (by simp) (by simp [hpc, Pc.Counted, aborted, hkind]) (by simp)
    · exact good_finish h ht [(.droppedSocketSendError, packet)] [] rfl rfl (by simp [count])
        (by simp [hpc, Pc.Counted, aborted]) (by simp)
  | _ =>
    simp only [advance, hpc]
    exact h

/-! ### The task -/

/-- Where nothing is written, the writer's place does not matter. -/
theorem heldBy_of_not_writing {task : Task P} (h : writing? task = none) (b b' : Bool) :
    heldBy b task = heldBy b' task := by
  cases task with
  | parked stage =>
    cases stage with
    | receiving => rfl
    | writing packet => cases h
  | polled stage =>
    cases stage with
    | receiving => rfl
    | writing packet => cases h
  | breaking pending => cases pending <;> rfl
  | _ => rfl

/-- A step of the task that dequeues nothing; the writer's place stands as long
as there is a write. -/
theorem Good.task {s : UdpSend P} (h : Good s) {a : Conn.Act P}
    (hdeq : (s.conn.step a).dequeued = s.conn.dequeued)
    (hheld : heldBy s.pc.Counted (s.conn.step a).task = heldBy s.pc.Counted s.conn.task)
    (hpark : ∀ packet, (s.conn.step a).task = .parked (.writing packet) →
      s.conn.task = .parked (.writing packet)) :
    Good { s with
      conn := s.conn.step a
      pc := if (writing? (s.conn.step a).task).isSome then s.pc else .idle } := by
  refine h.move [] [] [] (by simpa using hdeq) (by simp) (by simp) ?_ (fun x hx => ended_step hx a)
    (by simp) ?_
  · simp only [held, ← hheld, List.append_nil, List.map_nil]
    cases hw : writing? (s.conn.step a).task with
    | some packet => simp
    | none => rw [heldBy_of_not_writing hw]
  · intro packet hp
    have hc := h.parked packet (hpark packet hp)
    simp [show (s.conn.step a).task = _ from hp, writing?, hc]

/-- The task stays where it is. -/
theorem Good.still {s : UdpSend P} (h : Good s) {a : Conn.Act P}
    (htask : (s.conn.step a).task = s.conn.task)
    (hdeq : (s.conn.step a).dequeued = s.conn.dequeued) :
    Good { s with
      conn := s.conn.step a
      pc := if (writing? (s.conn.step a).task).isSome then s.pc else .idle } :=
  h.task hdeq (by rw [htask]) (fun packet hp => htask ▸ hp)

/-- The callers do not touch the task. -/
theorem good_caller {s : UdpSend P} (h : Good s) {a : Conn.Act P} (ha : a.ofCaller = true) :
    Good (s.connStep a) := by
  have hk := Conn.keeps_of_caller s.conn ha
  have hstep : s.connStep a = { s with
      conn := s.conn.step a
      pc := if (writing? (s.conn.step a).task).isSome then s.pc else .idle } := by
    cases a <;> first | rfl | cases ha
  rw [hstep]
  exact h.still hk.task hk.dequeued

theorem good_poll {s : UdpSend P} (h : Good s) : Good (s.connStep .poll) := by
  simp only [connStep]
  refine h.task ?_ ?_ ?_
  · simp only [Conn.step, Conn.poll]
    split
    · split <;> rfl
    · rename_i stage ht
      split
      · cases stage <;> rfl
      · rfl
    · rfl
  · simp only [Conn.step, Conn.poll]
    split
    · rename_i ht
      rw [ht]
      split <;> rfl
    · rename_i stage ht
      rw [ht]
      cases stage with
      | receiving => split <;> rfl
      | writing packet =>
        -- a parked write is not counted yet, so the `PendingPacket` holds it
        have hc := h.parked packet ht
        split
        · simp [Conn.interrupt, heldBy, hc]
        · rfl
    · rfl
  · intro packet
    simp only [Conn.step, Conn.poll]
    split
    · split <;> simp [Conn.interrupt]
    · rename_i stage ht
      split
      · cases stage <;> simp [Conn.interrupt]
      · simp
    · exact id

theorem good_abort {s : UdpSend P} (h : Good s) : Good (s.connStep .abort) := by
  simp only [connStep]
  refine h.task ?_ ?_ ?_
  · simp only [Conn.step, Conn.abort]
    split
    · rfl
    · rename_i stage ht
      cases stage <;> rfl
    · rfl
  · simp only [Conn.step, Conn.abort]
    split
    · rename_i ht
      rw [ht]
      rfl
    · rename_i stage ht
      rw [ht]
      cases stage with
      | receiving => rfl
      | writing packet =>
        have hc := h.parked packet ht
        simp [Conn.interrupt, heldBy, hc]
    · rfl
  · intro packet
    simp only [Conn.step, Conn.abort]
    split
    · simp
    · rename_i stage ht
      cases stage <;> simp [Conn.interrupt]
    · exact id

theorem good_connPend {s : UdpSend P} (h : Good s) : Good (s.connStep .pend) := by
  cases ht : s.conn.task with
  | polled stage =>
    cases stage with
    | receiving =>
      simp only [connStep, ht]
      refine h.task ?_ ?_ ?_ <;> simp [Conn.step, Conn.pend, ht, heldBy]
    | writing packet => simpa [connStep, ht] using h
  | _ =>
    simp only [connStep, ht]
    refine h.still ?_ ?_ <;> simp [Conn.step, Conn.pend, ht]

/-- The task's own steps: the packet it takes is held, and what it still holds
when its loop is left is counted by the `PendingPacket`. -/
theorem good_connAdvance {s : UdpSend P} (h : Good s) : Good (s.connStep .advance) := by
  have hend : ∀ x, Ended s.conn x → Ended s.conn.advance x := fun x hx => ended_advance hx
  cases ht : s.conn.task with
  | polled stage =>
    cases stage with
    | receiving =>
      simp only [connStep, ht]
      rcases s.conn.queue.recv_spec with ⟨packet, o', he, -⟩ | ⟨e, he, -⟩
      · refine h.move [packet] [] [] ?_ (by simp) (by simp) ?_ hend (by simp) ?_
        · simp [Conn.step, Conn.advance, ht, he]
        · simp [held, heldBy, Conn.step, Conn.advance, ht, he]
        · simp [Conn.step, Conn.advance, ht, he]
      · cases e <;>
        · refine h.task ?_ ?_ ?_ <;> simp [Conn.step, Conn.advance, ht, he, heldBy]
    | writing packet =>
      simp only [connStep, ht]
      refine h.still ?_ ?_ <;> simp [Conn.step, Conn.advance, ht]
  | dequeued packet =>
    simp only [connStep, ht]
    refine h.move [] [] [] ?_ (by simp) (by simp) ?_ hend (by simp) ?_
    · simp only [Conn.advance, ht]
      split <;> simp [Conn.interrupt]
    · simp only [held, Conn.advance, ht]
      split <;> simp [Conn.interrupt, heldBy, Pc.Counted]
    · intro packet'
      simp only [Conn.advance, ht]
      split <;> simp [Conn.interrupt]
  | written packet result =>
    simp only [connStep, ht]
    cases result with
    | ok => refine h.task ?_ ?_ ?_ <;> simp [Conn.step, Conn.advance, ht, heldBy, aborted]
    | error err =>
      refine h.task ?_ ?_ ?_
      · simp [Conn.step, Conn.advance, ht]
      · cases hb : aborted (.error err) <;> simp [Conn.step, Conn.advance, ht, heldBy, hb]
      · simp [Conn.step, Conn.advance, ht]
  | breaking pending =>
    cases pending with
    | none =>
      simp only [connStep, ht]
      refine h.task ?_ ?_ ?_ <;> simp [Conn.step, Conn.advance, ht, heldBy]
    | some packet =>
      simp only [connStep, ht]
      refine h.move [] [(.droppedClosedBeforeDelivery, packet)] [] ?_ rfl (by simp [count]) ?_ hend
        (by simp) ?_
      · simp [Conn.advance, ht]
      · simp [held, heldBy, Conn.advance, ht]
      · simp [Conn.advance, ht]
  | draining n =>
    simp only [connStep, ht]
    cases n with
    | zero =>
      refine h.task ?_ ?_ ?_
      · simp only [Conn.step, Conn.advance, ht]
        split <;> rfl
      · simp only [Conn.step, Conn.advance, ht]
        split <;> rfl
      · intro packet
        simp only [Conn.step, Conn.advance, ht]
        split <;> simp
    | succ n => refine h.task ?_ ?_ ?_ <;> simp [Conn.step, Conn.advance, ht, heldBy]
  | _ =>
    simp only [connStep, ht]
    refine h.task ?_ ?_ ?_ <;> simp [Conn.step, Conn.advance, ht, heldBy]

theorem good_connStep {s : UdpSend P} (h : Good s) (a : Conn.Act P) : Good (s.connStep a) := by
  by_cases hcaller : a.ofCaller = true
  · exact good_caller h hcaller
  cases a with
  | poll => exact good_poll h
  | pend => exact good_connPend h
  | write result => exact h
  | abort => exact good_abort h
  | advance => exact good_connAdvance h
  | _ => exact absurd rfl hcaller

theorem good_step {s : UdpSend P} (h : Good s) {a : Act P} (hopen : PeerOpenAtCheck s a) :
    Good (s.step a) := by
  cases a with
  | conn a => exact good_connStep h a
  | serialized result =>
    simp only [step]
    split
    · rename_i packet ht
      exact good_serialized h ht result
    · exact h
  | socketReady outcome =>
    simp only [step]
    split
    · rename_i packet ht
      exact good_socketReady h ht outcome
    · exact h
  | advance =>
    simp only [step]
    split
    · rename_i packet ht
      exact good_advance h ht hopen
    · exact h
  | close => exact ⟨h.law, h.ended, h.parked⟩
  | setSendRate rate => exact ⟨h.law, h.ended, h.parked⟩
  | tick nanos => exact ⟨h.law, h.ended, h.parked⟩

/-- **Send accounting.** In every run in which the peer is open whenever the
writer looks at it after a socket failure of another kind than
`ConnectionAborted`, every dequeued packet has exactly one fate. -/
theorem dequeued_perm_counted (o : Outgoing P) (maxPayloadSize : ℕ) (rate : Option ℕ+)
    (as : List (Act P)) (hopen : Meets step PeerOpenAtCheck (new o maxPayloadSize rate) as) :
    Accounted (run step (new o maxPayloadSize rate) as) := by
  have h : Good (run step (new o maxPayloadSize rate) as) :=
    run_inv_of_meets (I := Good) (fun _ _ hc h => good_step h hc) as hopen
      (good_new o maxPayloadSize rate)
  exact ⟨h.law, h.ended⟩

/-- A packet is dequeued and its datagram refused by the socket; the writer has
not looked at the peer yet. -/
def refusedActs : List (Act ℕ) :=
  [.conn (.send 7), .conn (.proceed 0), .conn .poll, .conn .advance, .conn .advance,
    .serialized (.ok [1]), .advance, .advance, .advance,
    .socketReady (some (.error ⟨.connectionRefused, "refused"⟩)), .advance]

/-- The peer is open at the check, and closes later. -/
theorem dequeued_perm_counted_refused :
    Accounted (run step (new (.channel .bits64 4 .dropNewest true) 1024 none)
      (refusedActs ++ [.advance, .close, .conn .advance])) := by
  have hopen : Meets step PeerOpenAtCheck (new (.channel .bits64 4 .dropNewest true) 1024 none)
      (refusedActs ++ [.advance, .close, .conn .advance]) := by
    refine ⟨?_, ?_, ?_, ?_, ?_, ?_, ?_, ?_, ?_, ?_, ?_, ?_, ?_, ?_, trivial⟩
    all_goals first | (intro err ha; cases ha; done) | (intro err _ _ _; decide +kernel)
  exact dequeued_perm_counted (.channel .bits64 4 .dropNewest true) 1024 none _ hopen

/-- **The defect.** The peer closes between the refusal and the check: the
writer returns the refusal, which the `PendingPacket` leaves to the writer, and
the packet is counted nowhere. -/
theorem refused_then_closed :
    let s := run step (new (.channel .bits64 4 .dropNewest true) 1024 none)
      (refusedActs ++ [.close, .advance, .conn .advance, .conn .advance])
    s.conn.dequeued = [7] ∧ s.held = [] ∧ s.counted = [] ∧ s.unserialized = [] ∧ ¬ Accounted s := by
  refine ⟨by decide +kernel, by decide +kernel, by decide +kernel, by decide +kernel, fun h => ?_⟩
  exact absurd h.1.length_eq (by decide +kernel)

end UdpSend
end Slinet
