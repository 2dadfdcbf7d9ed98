/-
# The outgoing queue of a connection

`src/connection/queue/mod.rs`: a stream connection queues its packets in
tokio's bounded channel, a datagram connection in a lossy queue, in which
every packet weighs one byte. `try_send` on a lossy queue is one step, under
its lock. On the channel it takes a slot (`Mpsc.tryReserve`) and then publishes
the packet in it (`Mpsc.publish`); the receiver can be closed, drained and
dropped between the two. Both are one `Outgoing` queue here, whose operations
do to the queued packets what `start_spec`, `publish_spec`, `recv_spec`,
`close_spec` and `dropInner_spec` say.
-/
import Slinet.Lossy
import Slinet.Packet

namespace Slinet

variable {T H : Type*}

/-- Why a packet was not queued. -/
inductive SendError (T : Type*)
  | full (packet : T)
  | closed (packet : T)
  deriving DecidableEq, Repr

/-- tokio's bounded channel. Of its slots, `reserved` are taken by calls that
have not published their packets yet. -/
structure Mpsc (T : Type*) where
  capacity : ℕ
  items : List T
  reserved : ℕ
  senders : ℕ
  receiverOpen : Bool

namespace Mpsc

def new (capacity : ℕ) : Mpsc T := ⟨capacity, [], 0, 1, true⟩

/-- The first half of `try_send` takes a slot, which it finds only in a channel
whose receiver is open. -/
def tryReserve (ch : Mpsc T) (packet : T) : Except (TrySendError T) Unit × Mpsc T :=
  if ch.receiverOpen = false then (.error (.closed packet), ch)
  else if ch.capacity ≤ ch.items.length + ch.reserved then (.error (.full packet), ch)
  else (.ok (), { ch with reserved := ch.reserved + 1 })

/-- The second half puts the packet there, whatever the receiver is by then. -/
def publish (ch : Mpsc T) (packet : T) : Mpsc T :=
  { ch with items := ch.items ++ [packet], reserved := ch.reserved - 1 }

/-- Both halves of `try_send`, or of `send` once there is room, at one go. This
is enough where the drop of the receiver discards what it finds and counts
nothing: nobody can tell the call from one that took its slot just then. -/
def trySend (ch : Mpsc T) (packet : T) : Except (TrySendError T) Unit × Mpsc T :=
  match ch.tryReserve packet with
  | (.ok (), ch) => (.ok (), ch.publish packet)
  | (.error err, ch) => (.error err, ch)

/-- `try_recv`, and one look of `recv`. A closed channel is still drained, and
ends when no slot is taken any more. -/
def tryRecv (ch : Mpsc T) : Except TryRecvError T × Mpsc T :=
  match ch.items with
  | packet :: rest => (.ok packet, { ch with items := rest })
  | [] =>
    (.error (if ch.senders = 0 ∨ (ch.receiverOpen = false ∧ ch.reserved = 0) then .disconnected
      else .empty), ch)

def close (ch : Mpsc T) : Mpsc T := { ch with receiverOpen := false }

/-- `Sender::capacity`: the slots that are free. -/
def available (ch : Mpsc T) : ℕ := ch.capacity - (ch.items.length + ch.reserved)

theorem length_tryRecv {ch rest : Mpsc T} {packet : T} (h : ch.tryRecv = (.ok packet, rest)) :
    rest.items.length < ch.items.length := by
  unfold tryRecv at h
  split at h
  · rename_i items hitems
    cases h
    simp [hitems]
  · cases h

/-- `while rx.try_recv().is_ok()`: the packets taken, and the channel after. -/
def drain (ch : Mpsc T) : List T × Mpsc T :=
  match _h : ch.tryRecv with
  | (.ok packet, rest) => (packet :: rest.drain.1, rest.drain.2)
  | (.error _, rest) => ([], rest)
termination_by ch.items.length
decreasing_by all_goals exact length_tryRecv ‹_›

/-- The loop takes all there is. -/
theorem drain_eq (ch : Mpsc T) : ch.drain = (ch.items, { ch with items := [] }) := by
  obtain ⟨capacity, items, reserved, senders, receiverOpen⟩ := ch
  induction items with
  | nil => rw [drain]; rfl
  | cons packet items ih =>
    rw [drain]
    simp only [tryRecv, ih]

theorem tryReserve_cases (ch : Mpsc T) (packet : T) :
    (ch.tryReserve packet = (.ok (), { ch with reserved := ch.reserved + 1 }) ∧
      ch.receiverOpen = true) ∨
    (ch.tryReserve packet = (.error (.closed packet), ch) ∧ ch.receiverOpen = false) ∨
    (ch.tryReserve packet = (.error (.full packet), ch) ∧ ch.receiverOpen = true ∧
      ch.capacity ≤ ch.items.length + ch.reserved) := by
  unfold tryReserve
  by_cases hopen : ch.receiverOpen = false
  · exact Or.inr (Or.inl ⟨by rw [if_pos hopen], hopen⟩)
  have hopen' : ch.receiverOpen = true := by simpa using hopen
  rw [if_neg hopen]
  by_cases hfull : ch.capacity ≤ ch.items.length + ch.reserved
  · exact Or.inr (Or.inr ⟨by rw [if_pos hfull], hopen', hfull⟩)
  · exact Or.inl ⟨by rw [if_neg hfull], hopen'⟩

theorem trySend_cases (ch : Mpsc T) (packet : T) :
    (ch.trySend packet = (.ok (), { ch with items := ch.items ++ [packet] }) ∧
      ch.receiverOpen = true) ∨
    (ch.trySend packet = (.error (.closed packet), ch) ∧ ch.receiverOpen = false) ∨
    (ch.trySend packet = (.error (.full packet), ch) ∧ ch.receiverOpen = true ∧
      ch.capacity ≤ ch.items.length + ch.reserved) := by
  unfold trySend
  rcases ch.tryReserve_cases packet with ⟨he, hopen⟩ | ⟨he, hopen⟩ | ⟨he, hopen, hfull⟩
  · exact Or.inl ⟨by rw [he]; rfl, hopen⟩
  · exact Or.inr (Or.inl ⟨by rw [he], hopen⟩)
  · exact Or.inr (Or.inr ⟨by rw [he], hopen, hfull⟩)

/-- A packet is taken only where there is room for it. -/
theorem room_of_trySend {ch ch' : Mpsc T} {packet : T} (h : ch.trySend packet = (.ok (), ch')) :
    ch.items.length + ch.reserved < ch.capacity := by
  by_contra hfull
  unfold trySend tryReserve at h
  by_cases hopen : ch.receiverOpen = false
  · simp [hopen] at h
  · simp [hopen, Nat.le_of_not_lt hfull] at h

end Mpsc

/-- An outgoing queue, with both its endpoints. -/
inductive Outgoing (T : Type*)
  | reliable (ch : Mpsc T)
  | lossy (q : Lossy.Limits) (queue : Lossy.Queue q T)

namespace Outgoing

/-- `NetworkQueueSettings::outgoing_channel`. -/
def channel (t : Target) (sendCapacity : ℕ) (overflow : OverflowPolicy) (datagram : Bool) :
    Outgoing T :=
  if datagram then .lossy ⟨max sendCapacity 1, t.usize - 1, overflow⟩ Lossy.Queue.new
  else .reliable (Mpsc.new (max sendCapacity 1))

/-- The queued packets, oldest first. -/
def values : Outgoing T → List T
  | reliable ch => ch.items
  | lossy _ queue => queue.values

def receiverOpen : Outgoing T → Bool
  | reliable ch => ch.receiverOpen
  | lossy _ queue => queue.state.receiverOpen

def senders : Outgoing T → ℕ
  | reliable ch => ch.senders
  | lossy _ queue => queue.state.senders

def IsReliable : Outgoing T → Prop
  | reliable _ => True
  | lossy _ _ => False

def clone : Outgoing T → Outgoing T
  | reliable ch => reliable { ch with senders := ch.senders + 1 }
  | lossy q queue => lossy q queue.clone

def dropSender : Outgoing T → Outgoing T
  | reliable ch => reliable { ch with senders := ch.senders - 1 }
  | lossy q queue => lossy q queue.dropSender

/-- The first step of the queue's `try_send`. A lossy queue takes the packet and
answers with what it evicted; a channel only has a slot for it (`none`). -/
def start (packet : T) : Outgoing T → Except (TrySendError T) (Option (List T)) × Outgoing T
  | reliable ch =>
    match ch.tryReserve packet with
    | (.ok (), ch) => (.ok none, reliable ch)
    | (.error err, ch) => (.error err, reliable ch)
  | lossy q queue =>
    match queue.trySend packet 1 with
    | (result, queue) => (result.map some, lossy q queue)

/-- The packet that has a slot is published; a lossy queue has no slots. -/
def publish (packet : T) : Outgoing T → Option (Outgoing T)
  | reliable ch => some (reliable (ch.publish packet))
  | lossy _ _ => none

/-- The queue's part of `OutgoingSender::try_send`, with no other step between:
what a success evicted, or the packet with the reason it was not taken. -/
def trySend (packet : T) : Outgoing T → Except (TrySendError T) (List T) × Outgoing T
  | reliable ch =>
    match ch.trySend packet with
    | (.ok (), ch) => (.ok [], reliable ch)
    | (.error err, ch) => (.error err, reliable ch)
  | lossy q queue =>
    match queue.trySend packet 1 with
    | (result, queue) => (result, lossy q queue)

/-- One look of `OutgoingReceiver::recv`: a packet, the end of the packets, or
`empty`, on which the call waits. -/
def recv : Outgoing T → Except TryRecvError T × Outgoing T
  | reliable ch => ((ch.tryRecv).1, reliable (ch.tryRecv).2)
  | lossy q queue => ((queue.tryRecv).1, lossy q (queue.tryRecv).2)

/-- The first act of `OutgoingReceiver::drop`: what a lossy queue hands over
to be counted. The packets of a channel stay in it and are taken one by one. -/
def close : Outgoing T → List T × Outgoing T
  | reliable ch => ([], reliable ch.close)
  | lossy q queue => ((queue.closeAndDrain).1, lossy q (queue.closeAndDrain).2)

/-- The loop of `OutgoingReceiver::drop`, which only a channel has. -/
def drainOne : Outgoing T → Option T × Outgoing T
  | reliable ch =>
    match ch.tryRecv with
    | (.ok packet, ch) => (some packet, reliable ch)
    | (.error _, ch) => (none, reliable ch)
  | lossy q queue => (none, lossy q queue)

/-- The drop of the inner receiver, after `OutgoingReceiver::drop`: it closes
and empties the queue once more, and counts nothing. -/
def dropInner : Outgoing T → List T × Outgoing T
  | reliable ch => (ch.items, reliable { ch.close with items := [] })
  | lossy q queue => ((queue.closeAndDrain).1, lossy q (queue.closeAndDrain).2)

def isClosed : Outgoing T → Bool
  | reliable ch => !ch.receiverOpen
  | lossy _ queue => queue.isClosed

def snapshot : Outgoing T → QueueSnapshot
  | reliable ch => ⟨ch.capacity - ch.available, ch.capacity⟩
  | lossy _ queue => queue.snapshot

/-- `OutgoingSender::try_send`, with the reasons it records, in order. -/
def trySendRecorded (packet : T) (o : Outgoing T) :
    Except (SendError T) Unit × List QueueDropReason × Outgoing T :=
  match o.trySend packet with
  | (.ok evicted, o) => (.ok (), evicted.map fun _ => .outgoingQueueEvicted, o)
  | (.error (.full packet), o) => (.error (.full packet), [.outgoingQueueFull], o)
  | (.error (.closed packet), o) => (.error (.closed packet), [], o)

/-- The whole of `OutgoingReceiver::drop`: a record on the transport handle, if
there is one, for each packet left, and then the drop of the inner receiver. -/
def dropReceiver : Option H → Outgoing T → List (H × QueueDropReason) × Outgoing T
  | none, o => ([], o.dropInner.2)
  | some transport, reliable ch =>
    match ch.close.drain with
    | (taken, ch) =>
      (taken.map fun _ => (transport, .closedBeforeDelivery), (reliable ch).dropInner.2)
  | some transport, lossy q queue =>
    match queue.closeAndDrain with
    | (pending, queue) =>
      (pending.map fun _ => (transport, .closedBeforeDelivery), (lossy q queue).dropInner.2)

/-! ### What the operations do to the packets -/

@[simp] theorem values_clone (o : Outgoing T) : o.clone.values = o.values := by
  cases o <;> rfl

@[simp] theorem receiverOpen_clone (o : Outgoing T) : o.clone.receiverOpen = o.receiverOpen := by
  cases o <;> rfl

@[simp] theorem senders_clone (o : Outgoing T) : o.clone.senders = o.senders + 1 := by
  cases o <;> rfl

@[simp] theorem senders_dropSender (o : Outgoing T) : o.dropSender.senders = o.senders - 1 := by
  cases o <;> rfl

@[simp] theorem values_dropSender (o : Outgoing T) : o.dropSender.values = o.values := by
  cases o <;> rfl

@[simp] theorem receiverOpen_dropSender (o : Outgoing T) :
    o.dropSender.receiverOpen = o.receiverOpen := by
  cases o <;> rfl

/-- **The first step of `try_send`.** A lossy queue takes the packet at its back
and evicts from its front; a channel holds what it held; and a closed queue, or
a full one, refuses. -/
theorem start_spec (o : Outgoing T) (packet : T) :
    (∃ evicted o', o.start packet = (.ok (some evicted), o') ∧ o.receiverOpen = true ∧
      o'.receiverOpen = true ∧ o'.senders = o.senders ∧ (o'.IsReliable ↔ o.IsReliable) ∧
      (o.IsReliable → evicted = []) ∧ evicted ++ o'.values = o.values ++ [packet]) ∨
    (∃ o', o.start packet = (.ok none, o') ∧ o.receiverOpen = true ∧ o'.receiverOpen = true ∧
      o'.senders = o.senders ∧ (o'.IsReliable ↔ o.IsReliable) ∧ o'.values = o.values ∧
      o.IsReliable) ∨
    (o.start packet = (.error (.closed packet), o) ∧ o.receiverOpen = false) ∨
    (o.start packet = (.error (.full packet), o) ∧ o.receiverOpen = true) := by
  cases o with
  | reliable ch =>
    simp only [start]
    rcases ch.tryReserve_cases packet with ⟨he, ho⟩ | ⟨he, ho⟩ | ⟨he, ho, -⟩
    · rw [he]
      exact Or.inr (Or.inl ⟨_, rfl, ho, ho, rfl, Iff.rfl, rfl, trivial⟩)
    · rw [he]
      exact Or.inr (Or.inr (Or.inl ⟨rfl, ho⟩))
    · rw [he]
      exact Or.inr (Or.inr (Or.inr ⟨rfl, ho⟩))
  | lossy q queue =>
    simp only [start]
    rcases queue.trySend_spec packet 1 with
      ⟨evicted, queue', he, ho, ho', hs, hv, -⟩ | ⟨he, ho⟩ | ⟨he, ho⟩
    · rw [he]
      exact Or.inl ⟨evicted, lossy q queue', rfl, ho, ho', hs, Iff.rfl, fun h => h.elim, hv⟩
    · rw [he]
      exact Or.inr (Or.inr (Or.inl ⟨rfl, ho⟩))
    · rw [he]
      exact Or.inr (Or.inr (Or.inr ⟨rfl, ho⟩))

/-- **The second step**, on a channel: the packet joins the back, also behind a
closed receiver. -/
theorem publish_spec (o : Outgoing T) (packet : T) :
    (∃ o', o.publish packet = some o' ∧ o'.receiverOpen = o.receiverOpen ∧ o'.senders = o.senders ∧
      (o'.IsReliable ↔ o.IsReliable) ∧ o'.values = o.values ++ [packet]) ∨
    o.publish packet = none := by
  cases o with
  | reliable ch => exact Or.inl ⟨_, rfl, rfl, rfl, Iff.rfl, rfl⟩
  | lossy q queue => exact Or.inr rfl

/-- **`recv`.** It takes the oldest packet or leaves the queue as it was, and
it ends only when no sender is left or the receiver has closed. -/
theorem recv_spec (o : Outgoing T) :
    (∃ packet o', o.recv = (.ok packet, o') ∧ packet :: o'.values = o.values ∧
      o'.receiverOpen = o.receiverOpen ∧ o'.senders = o.senders ∧
      (o'.IsReliable ↔ o.IsReliable)) ∨
    (∃ e, o.recv = (.error e, o) ∧ o.values = [] ∧
      (e = .disconnected → o.senders = 0 ∨ o.receiverOpen = false)) := by
  cases o with
  | reliable ch =>
    simp only [recv, Mpsc.tryRecv]
    cases hi : ch.items with
    | cons packet rest =>
      exact Or.inl ⟨packet, _, rfl, by simp [values, hi], rfl, rfl, Iff.rfl⟩
    | nil =>
      refine Or.inr ⟨_, rfl, by simp [values, hi], ?_⟩
      by_cases h : ch.senders = 0 ∨ (ch.receiverOpen = false ∧ ch.reserved = 0)
      · exact fun _ => h.imp_right And.left
      · simp [h]
  | lossy q queue =>
    simp only [recv, Lossy.Queue.tryRecv, Lossy.Queue.tryRecvIf]
    rcases Lossy.tryRecvIf_spec queue.inv (fun _ => true) with
      ⟨packet, s', he, hi, -, ho, hs, hv⟩ | ⟨e, he, hdis⟩
    · refine Or.inl ⟨packet, lossy q ⟨s', hi⟩, by simp [he], hv, ho, hs, Iff.rfl⟩
    · refine Or.inr ⟨e, by simp [he], ?_, ?_⟩
      · -- the test accepts every item, so only an empty queue refuses
        unfold Lossy.tryRecvIf at he
        split at he
        · simp at he
        · rename_i hitems
          simp [values, Lossy.Queue.values, Lossy.State.values, hitems]
      · unfold Lossy.tryRecvIf at he
        split at he
        · simp at he
        · intro hend
          exact (hdis.mp hend).2

/-- **`close`.** Nothing is lost by it, and a lossy queue has handed over all
it held. -/
theorem close_spec (o : Outgoing T) :
    o.close.1 ++ o.close.2.values = o.values ∧ o.close.2.receiverOpen = false ∧
      o.close.2.senders = o.senders ∧ (o.close.2.IsReliable ↔ o.IsReliable) := by
  cases o with
  | reliable ch => exact ⟨rfl, rfl, rfl, Iff.rfl⟩
  | lossy q queue => exact ⟨List.append_nil _, rfl, rfl, Iff.rfl⟩

/-- **The drain.** It takes the oldest packet, and it stops only at an empty
queue. -/
theorem drainOne_spec (o : Outgoing T) (hclosed : o.receiverOpen = false) :
    (∃ packet o', o.drainOne = (some packet, o') ∧ packet :: o'.values = o.values ∧
      o'.receiverOpen = false ∧ o'.senders = o.senders ∧ (o'.IsReliable ↔ o.IsReliable)) ∨
    (o.drainOne = (none, o) ∧ o.values = []) := by
  cases o with
  | reliable ch =>
    simp only [drainOne, Mpsc.tryRecv]
    cases hi : ch.items with
    | cons packet rest => exact Or.inl ⟨packet, _, rfl, by simp [values, hi], hclosed, rfl, Iff.rfl⟩
    | nil => exact Or.inr ⟨rfl, by simp [values, hi]⟩
  | lossy q queue =>
    refine Or.inr ⟨rfl, ?_⟩
    have hempty := queue.inv.closed_empty hclosed
    simp [values, Lossy.Queue.values, Lossy.State.values, hempty]

@[simp] theorem senders_drainOne (o : Outgoing T) : o.drainOne.2.senders = o.senders := by
  cases o with
  | reliable ch =>
    simp only [drainOne, Mpsc.tryRecv]
    split
    · rename_i ch' he
      split at he <;> simp only [Prod.mk.injEq] at he
      · obtain ⟨-, rfl⟩ := he
        rfl
      · simp at he
    · rename_i ch' he
      split at he <;> simp only [Prod.mk.injEq] at he
      · simp at he
      · obtain ⟨-, rfl⟩ := he
        rfl
  | lossy q queue => rfl

theorem dropInner_spec (o : Outgoing T) :
    o.dropInner.1 = o.values ∧ o.dropInner.2.values = [] ∧ o.dropInner.2.receiverOpen = false ∧
      o.dropInner.2.senders = o.senders ∧ (o.dropInner.2.IsReliable ↔ o.IsReliable) := by
  cases o with
  | reliable ch => exact ⟨rfl, rfl, rfl, rfl, Iff.rfl⟩
  | lossy q queue => exact ⟨rfl, rfl, rfl, rfl, Iff.rfl⟩

end Outgoing
end Slinet
