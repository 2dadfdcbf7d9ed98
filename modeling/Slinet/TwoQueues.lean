/-
# The queue of a stream and the queue of a datagram connection

`src/connection/queue/mod.rs` has every operation of `OutgoingSender` and
`OutgoingReceiver` twice: over tokio's channel, and over the lossy queue. `Handles`
is a queue with the handles on it: the clones of its sender, its receiver, the
transport handle that the receiver may have, and the calls of `record_drop`
that were made. An operation needs its handle, and answers with a `Reply`.

Under `DropNewest` the lossy queue is a channel in which every packet weighs one
byte: its state is that of the channel, weighed (`Mpsc.weighed`), and every
operation keeps it so, with one answer and the same records on both sides
(`alike_step`). The byte limit never binds, since no queue has more slots than
there are bytes. So no sequence of operations tells the two apart
(`outgoing_queues_agree`).
-/
import Slinet.Outgoing
import Slinet.Run

namespace Slinet

variable {T H : Type*}

/-! ### The handles -/

/-- An outgoing queue and its handles. `senders` counts the clones that are
alive, `records` lists the calls of `record_drop`, each with its handle. -/
structure Handles (T H : Type*) where
  queue : Outgoing T
  senders : ℕ
  receiver : Bool
  transport : Option H
  records : List (H × QueueDropReason)

namespace Handles

/-- `NetworkQueueSettings::outgoing_channel` returns both ends. -/
def new (queue : Outgoing T) : Handles T H := ⟨queue, 1, true, none, []⟩

/-- The operations. `recv` is one poll of the call. -/
inductive Op (T H : Type*)
  | clone
  | dropSender
  | trySend (packet : T) (transport : H)
  | isClosed
  | snapshot
  | setTransport (transport : H)
  | recv
  | dropReceiver
  deriving DecidableEq, Repr

/-- Whether the operation is one of a sender. -/
def Op.ofSender : Op T H → Bool
  | clone => true
  | dropSender => true
  | trySend _ _ => true
  | isClosed => true
  | snapshot => true
  | _ => false

/-- What an operation answers: `none` from `recv` ends the packets, `pending` is
a call that waits, and `absent` that there is no handle to call it on. -/
inductive Reply (T : Type*)
  | done
  | sent (result : Except (SendError T) Unit)
  | closed (isClosed : Bool)
  | queue (snapshot : QueueSnapshot)
  | received (packet : Option T)
  | pending
  | absent
  deriving DecidableEq, Repr

/-- What a look at the queue gives the call of `recv`. -/
def Reply.ofRecv : Except TryRecvError T → Reply T
  | .ok packet => received (some packet)
  | .error .disconnected => received none
  | .error .empty => pending

/-- An operation on a handle that is there. -/
def call (s : Handles T H) : Op T H → Reply T × Handles T H
  | .clone => (.done, { s with queue := s.queue.clone, senders := s.senders + 1 })
  | .dropSender => (.done, { s with queue := s.queue.dropSender, senders := s.senders - 1 })
  | .trySend packet transport =>
    match s.queue.trySendRecorded packet with
    | (result, reasons, queue) =>
      (.sent result,
        { s with queue := queue, records := s.records ++ reasons.map (Prod.mk transport) })
  | .isClosed => (.closed s.queue.isClosed, s)
  | .snapshot => (.queue s.queue.snapshot, s)
  | .setTransport transport => (.done, { s with transport := some transport })
  | .recv =>
    match s.queue.recv with
    | (result, queue) => (.ofRecv result, { s with queue := queue })
  | .dropReceiver =>
    match s.queue.dropReceiver s.transport with
    | (records, queue) =>
      (.done, { s with queue := queue, receiver := false, records := s.records ++ records })

def step (s : Handles T H) (op : Op T H) : Reply T × Handles T H :=
  if (if op.ofSender then s.senders ≠ 0 else s.receiver = true) then s.call op else (.absent, s)

def next (s : Handles T H) (op : Op T H) : Handles T H := (s.step op).2

end Handles

/-! ### The channel, weighed -/

namespace Mpsc

/-- The lossy state that holds what the channel holds, one byte for a packet. -/
def weighed (ch : Mpsc T) : Lossy.State T where
  items := ch.items.map fun packet => (packet, 1)
  bytes := ch.items.length
  senders := ch.senders
  receiverOpen := ch.receiverOpen

@[simp] theorem values_weighed (ch : Mpsc T) : ch.weighed.values = ch.items := by
  simp [weighed, Lossy.State.values, Function.comp_def]

/-- The lossy queue takes a packet when the channel does: its weight fits
wherever there is a slot for it. -/
theorem weighed_trySend {q : Lossy.Limits} {ch : Mpsc T} (hpolicy : q.policy = .dropNewest)
    (hitems : q.maxItems = ch.capacity) (hbytes : ch.capacity ≤ q.maxBytes)
    (hreserved : ch.reserved = 0) (packet : T) :
    Lossy.trySend q ch.weighed packet 1 =
      (((ch.trySend packet).1.map fun _ => []), (ch.trySend packet).2.weighed) := by
  unfold Lossy.trySend Lossy.trySendWhere
  rw [show ch.weighed.receiverOpen = ch.receiverOpen from rfl]
  rcases ch.trySend_cases packet with ⟨he, hopen⟩ | ⟨he, hopen⟩ | ⟨he, hopen, hfull⟩
  · have hroom := room_of_trySend he
    have hlimits : ¬ (q.maxItems = 0 ∨ 1 > q.maxBytes) := by omega
    have hcheck : ¬ (ch.weighed.items.length ≥ q.maxItems ∨ ch.weighed.bytes > q.maxBytes - 1) := by
      simp only [weighed, List.length_map]
      omega
    rw [he, if_neg (by simp [hopen]), if_neg hlimits, hpolicy]
    simp only [Lossy.pushBack, if_neg hcheck]
    simp [weighed, Except.map]
  · rw [he, if_pos hopen]
    rfl
  · rw [he, if_neg (by simp [hopen])]
    by_cases hlimits : q.maxItems = 0 ∨ 1 > q.maxBytes
    · rw [if_pos hlimits]
      rfl
    · have hcheck : ch.weighed.items.length ≥ q.maxItems ∨ ch.weighed.bytes > q.maxBytes - 1 := by
        left
        simp only [weighed, List.length_map]
        omega
      rw [if_neg hlimits, hpolicy]
      simp only [Lossy.pushBack, if_pos hcheck]
      rfl

theorem weighed_tryRecv {ch : Mpsc T} (hreserved : ch.reserved = 0) :
    Lossy.tryRecv ch.weighed = ((ch.tryRecv).1, (ch.tryRecv).2.weighed) := by
  unfold Lossy.tryRecv Lossy.tryRecvIf tryRecv
  cases hitems : ch.items with
  | nil =>
    by_cases hend : ch.senders = 0 ∨ ch.receiverOpen = false
    · simp [weighed, hitems, hreserved, hend]
    · simp [weighed, hitems, hreserved, hend]
  | cons packet rest => simp [weighed, hitems]

end Mpsc

namespace Outgoing

/-- A channel between two calls, and a lossy queue that drops the newest, with
as many slots, bytes for all of them, and the packets of the channel. -/
inductive Alike : Outgoing T → Outgoing T → Prop
  | intro {ch : Mpsc T} {q : Lossy.Limits} {queue : Lossy.Queue q T} :
    q.policy = .dropNewest → q.maxItems = ch.capacity → ch.capacity ≤ q.maxBytes →
    ch.reserved = 0 → queue.state = ch.weighed → Alike (reliable ch) (lossy q queue)

variable {o o' : Outgoing T}

/-- What `outgoing_channel` makes of one setting for the two kinds of transport. -/
theorem alike_channel {t : Target} {sendCapacity : ℕ} (hcap : sendCapacity < t.usize)
    (overflow : OverflowPolicy) :
    Alike (channel t sendCapacity overflow false : Outgoing T)
      (channel t sendCapacity .dropNewest true) := by
  have husize := t.sixteen_lt_usize
  have hbytes : max sendCapacity 1 ≤ t.usize - 1 := by omega
  exact .intro rfl rfl hbytes rfl rfl

theorem Alike.clone (h : Alike o o') : Alike o.clone o'.clone := by
  obtain ⟨hpolicy, hitems, hbytes, hreserved, hstate⟩ := h
  refine .intro hpolicy hitems hbytes hreserved ?_
  simp only [Lossy.Queue.clone, Lossy.State.clone, hstate]
  rfl

theorem Alike.dropSender (h : Alike o o') : Alike o.dropSender o'.dropSender := by
  obtain ⟨hpolicy, hitems, hbytes, hreserved, hstate⟩ := h
  refine .intro hpolicy hitems hbytes hreserved ?_
  simp only [Lossy.Queue.dropSender, Lossy.State.dropSender, hstate]
  rfl

theorem Alike.isClosed (h : Alike o o') : o.isClosed = o'.isClosed := by
  obtain ⟨-, -, -, -, hstate⟩ := h
  simp only [Outgoing.isClosed, Lossy.Queue.isClosed, hstate]
  rfl

/-- The channel counts its free slots and the lossy queue its items. -/
theorem Alike.snapshot (h : Alike o o') : o.snapshot = o'.snapshot := by
  obtain ⟨-, hitems, -, hreserved, hstate⟩ := h
  rename_i ch q queue
  have hlen : queue.state.items.length = ch.items.length := by
    rw [hstate]
    simp [Mpsc.weighed]
  have hle : ch.items.length ≤ ch.capacity := by
    have := queue.inv.items_le
    omega
  simp only [Outgoing.snapshot, Lossy.Queue.snapshot, Mpsc.available, hlen, hitems, hreserved]
  congr 1
  omega

theorem Alike.trySendRecorded (h : Alike o o') (packet : T) :
    (o.trySendRecorded packet).1 = (o'.trySendRecorded packet).1 ∧
      (o.trySendRecorded packet).2.1 = (o'.trySendRecorded packet).2.1 ∧
      Alike (o.trySendRecorded packet).2.2 (o'.trySendRecorded packet).2.2 := by
  obtain ⟨hpolicy, hitems, hbytes, hreserved, hstate⟩ := h
  rename_i ch q queue
  have hlossy : ((queue.trySend packet 1).1, (queue.trySend packet 1).2.state) =
      Lossy.trySend q ch.weighed packet 1 := by
    rw [← hstate]
    rfl
  rw [Mpsc.weighed_trySend hpolicy hitems hbytes hreserved] at hlossy
  simp only [Outgoing.trySendRecorded, trySend]
  rcases hq : queue.trySend packet 1 with ⟨result, queue'⟩
  rw [hq] at hlossy
  rcases ch.trySend_cases packet with ⟨hch, -⟩ | ⟨hch, -⟩ | ⟨hch, -⟩
  all_goals
    rw [hch] at hlossy ⊢
    obtain ⟨rfl, hstate'⟩ := Prod.mk.inj hlossy
    exact ⟨rfl, rfl, .intro hpolicy hitems hbytes hreserved hstate'⟩

theorem Alike.recv (h : Alike o o') : o.recv.1 = o'.recv.1 ∧ Alike o.recv.2 o'.recv.2 := by
  obtain ⟨hpolicy, hitems, hbytes, hreserved, hstate⟩ := h
  rename_i ch q queue
  have hlossy : ((queue.tryRecv).1, (queue.tryRecv).2.state) = Lossy.tryRecv ch.weighed := by
    rw [← hstate]
    rfl
  rw [Mpsc.weighed_tryRecv hreserved] at hlossy
  obtain ⟨hresult, hstate'⟩ := Prod.mk.inj hlossy
  have hsame : (ch.tryRecv).2.capacity = ch.capacity ∧ (ch.tryRecv).2.reserved = ch.reserved := by
    unfold Mpsc.tryRecv
    split <;> exact ⟨rfl, rfl⟩
  obtain ⟨hcap, hres⟩ := hsame
  exact ⟨hresult.symm, .intro hpolicy (hitems.trans hcap.symm) (hcap.trans_le hbytes)
    (hres.trans hreserved) hstate'⟩

/-- The backlog is counted once on either side: packet by packet from the
channel, at one go from the lossy queue. -/
theorem Alike.dropReceiver (h : Alike o o') (transport : Option H) :
    (o.dropReceiver transport).1 = (o'.dropReceiver transport).1 ∧
      Alike (o.dropReceiver transport).2 (o'.dropReceiver transport).2 := by
  obtain ⟨hpolicy, hitems, hbytes, hreserved, hstate⟩ := h
  rename_i ch q queue
  have hvalues : queue.state.values = ch.items := by rw [hstate, Mpsc.values_weighed]
  have hsenders : queue.state.senders = ch.senders := by rw [hstate]; rfl
  have hempty : Alike (reliable { ch.close with items := [] }) (lossy q (queue.closeAndDrain).2) := by
    refine .intro hpolicy hitems hbytes hreserved ?_
    simp [Lossy.Queue.closeAndDrain, Lossy.closeAndDrain, Mpsc.weighed, Mpsc.close, hsenders]
  cases transport with
  | none => exact ⟨rfl, hempty⟩
  | some transport =>
    simp only [Outgoing.dropReceiver, Mpsc.drain_eq]
    refine ⟨?_, hempty⟩
    simp only [Lossy.Queue.closeAndDrain, Lossy.closeAndDrain, hvalues]
    rfl

end Outgoing

/-! ### Every sequence of operations -/

namespace Handles

/-- The same handles on queues that are alike, with the same calls of
`record_drop` so far. -/
structure Alike (s s' : Handles T H) : Prop where
  queue : s.queue.Alike s'.queue
  senders : s.senders = s'.senders
  receiver : s.receiver = s'.receiver
  transport : s.transport = s'.transport
  records : s.records = s'.records

variable {s s' : Handles T H}

theorem alike_new {o o' : Outgoing T} (h : o.Alike o') : Alike (new o : Handles T H) (new o') :=
  ⟨h, rfl, rfl, rfl, rfl⟩

theorem alike_call (h : Alike s s') (op : Op T H) :
    (s.call op).1 = (s'.call op).1 ∧ Alike (s.call op).2 (s'.call op).2 := by
  obtain ⟨hq, hs, hr, ht, hrec⟩ := h
  cases op with
  | clone => exact ⟨rfl, hq.clone, congrArg (· + 1) hs, hr, ht, hrec⟩
  | dropSender => exact ⟨rfl, hq.dropSender, congrArg (· - 1) hs, hr, ht, hrec⟩
  | trySend packet transport =>
    obtain ⟨hresult, hreasons, hq'⟩ := hq.trySendRecorded packet
    simp only [call, hresult, hreasons, hrec]
    exact ⟨trivial, hq', hs, hr, ht, rfl⟩
  | isClosed => exact ⟨congrArg Reply.closed hq.isClosed, hq, hs, hr, ht, hrec⟩
  | snapshot => exact ⟨congrArg Reply.queue hq.snapshot, hq, hs, hr, ht, hrec⟩
  | setTransport transport => exact ⟨rfl, hq, hs, hr, rfl, hrec⟩
  | recv =>
    obtain ⟨hresult, hq'⟩ := hq.recv
    exact ⟨congrArg Reply.ofRecv hresult, hq', hs, hr, ht, hrec⟩
  | dropReceiver =>
    obtain ⟨hmade, hq'⟩ := hq.dropReceiver s.transport
    simp only [call, ← ht, ← hmade, hrec]
    exact ⟨trivial, hq', hs, rfl, rfl, rfl⟩

/-- **One operation** has one answer, and leaves the two alike. -/
theorem alike_step (h : Alike s s') (op : Op T H) :
    (s.step op).1 = (s'.step op).1 ∧ Alike (s.step op).2 (s'.step op).2 := by
  unfold step
  rw [← h.senders, ← h.receiver]
  by_cases hhandle : if op.ofSender then s.senders ≠ 0 else s.receiver = true
  · simp only [if_pos hhandle]
    exact alike_call h op
  · simp only [if_neg hhandle]
    exact ⟨trivial, h⟩

end Handles

/-- **The two outgoing queues agree.** For every capacity, the queue of a stream
and the queue of a datagram connection that drops the newest answer every
sequence of operations alike, and make the same calls of `record_drop`. -/
theorem outgoing_queues_agree (t : Target) (sendCapacity : ℕ) (hcap : sendCapacity < t.usize)
    (overflow : OverflowPolicy) (ops : List (Handles.Op T H)) :
    let stream : Handles T H := .new (Outgoing.channel t sendCapacity overflow false)
    let datagram : Handles T H := .new (Outgoing.channel t sendCapacity .dropNewest true)
    replies Handles.step stream ops = replies Handles.step datagram ops ∧
      (run Handles.next stream ops).records = (run Handles.next datagram ops).records := by
  intro stream datagram
  have halike : Handles.Alike stream datagram :=
    Handles.alike_new (Outgoing.alike_channel hcap overflow)
  obtain ⟨hreplies, hlast⟩ :=
    replies_eq_of_related (R := Handles.Alike) (fun _ _ op h => Handles.alike_step h op) ops halike
  exact ⟨hreplies, hlast.records⟩

/-- One slot, for a capacity of zero: a packet too many, a backlog that the drop
of the receiver counts, and a packet that comes after. -/
theorem outgoing_queues_agree_backlog :
    let ops : List (Handles.Op ℕ ℕ) := [.setTransport 5, .trySend 1 5, .clone, .trySend 2 5, .snapshot,
      .recv, .recv, .trySend 3 5, .dropReceiver, .isClosed, .trySend 4 5, .snapshot, .recv]
    let stream : Handles ℕ ℕ := .new (Outgoing.channel .bits64 0 .dropOldest false)
    let datagram : Handles ℕ ℕ := .new (Outgoing.channel .bits64 0 .dropNewest true)
    replies Handles.step stream ops = replies Handles.step datagram ops ∧
      replies Handles.step datagram ops = [.done, .sent (.ok ()), .done, .sent (.error (.full 2)),
        .queue ⟨1, 1⟩, .received (some 1), .pending, .sent (.ok ()), .done, .closed true,
        .sent (.error (.closed 4)), .queue ⟨0, 1⟩, .absent] ∧
      (run Handles.next stream ops).records = (run Handles.next datagram ops).records ∧
      (run Handles.next datagram ops).records =
        [(5, .outgoingQueueFull), (5, .closedBeforeDelivery)] := by
  intro ops stream datagram
  obtain ⟨hreplies, hrecords⟩ := outgoing_queues_agree .bits64 0 (by decide) .dropOldest ops
  exact ⟨hreplies, by decide +kernel, hrecords, by decide +kernel⟩

end Slinet
