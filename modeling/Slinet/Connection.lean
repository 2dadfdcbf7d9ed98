/-
# The sending side of a connection

`EcsConnection::send` (`src/connection/mod.rs`) on any number of clones, the
outgoing queue, and the task `send_packets` (`src/connection/tasks.rs`) that
takes the packets from it and hands them to the transport's writer, whose
results are left open. A call of `send` reads the token in one step and goes to
the queue in the next; on a channel it first has a slot there and publishes its
packet in a step more. The task is suspended and polled, and each poll looks at
the token before it goes on (`tokio::select!` with `biased`). The task can be
dropped wherever it waits, and the queue's receiver can be dropped before any
task has it.

Every packet passed to `send` is in one place, and every discarded one has one
record on the transport handle, but for those published when the drain of the
queue is over (`good_run`).
-/
import Slinet.Ledger
import Slinet.Outgoing

namespace Slinet

variable {P : Type*}

/-- tokio's one-shot channel for the error that ended the writer. -/
inductive Oneshot
  | waiting
  | sent (error : IoError)
  | taken
  | dropped
  deriving DecidableEq, Repr

namespace Oneshot

def publish (error : IoError) : Oneshot → Oneshot
  | waiting => sent error
  | o => o

/-- The sender is dropped; a value it has sent stays. -/
def dropSender : Oneshot → Oneshot
  | waiting => dropped
  | o => o

end Oneshot

/-- `PendingPacket::finish` leaves the drop record armed. -/
def aborted : Except IoError Unit → Bool
  | .error err => err.kind = .connectionAborted
  | .ok () => false

/-- Where a packet ended: handed back by `send`, finished by the writer,
evicted, counted by the drop of the receiver, dequeued by a writer that was
stopped, or discarded without a record. -/
inductive Fate
  | full
  | closed
  | finished (result : Except IoError Unit)
  | evicted
  | drained
  | interrupted
  | lost

/-- The record a packet with this fate must leave. -/
def Fate.record : Fate → Option QueueDropReason
  | full => some .outgoingQueueFull
  | closed => none
  | finished result => if aborted result then some .closedBeforeDelivery else none
  | evicted => some .outgoingQueueEvicted
  | drained => some .closedBeforeDelivery
  | interrupted => some .closedBeforeDelivery
  | lost => none

def Fate.isLost : Fate → Bool
  | lost => true
  | _ => false

/-- A call of `EcsConnection::send` between two of its steps: it has read the
token; it has a slot in the channel; the queue was full; the packet is in and
`n` evictions are still to be recorded. -/
inductive Call (P : Type*)
  | checked (packet : P)
  | reserved (packet : P)
  | rejected (packet : P)
  | evicting (n : ℕ)

def Call.packets : Call P → List P
  | checked packet => [packet]
  | reserved packet => [packet]
  | rejected packet => [packet]
  | evicting _ => []

def Call.owed : Call P → List QueueDropReason
  | checked _ => []
  | reserved _ => []
  | rejected _ => []
  | evicting n => List.replicate n .outgoingQueueEvicted

/-- Where the future `sending` of `send_packets` waits. -/
inductive Stage (P : Type*)
  | receiving
  | writing (packet : P)

/-- The task `send_packets`. -/
inductive Task (P : Type*)
  /-- Not polled yet; the raw connection or its parts may still own the state. -/
  | unstarted
  | parked (stage : Stage P)
  /-- The poll has found the token uncancelled. -/
  | polled (stage : Stage P)
  | dequeued (packet : P)
  | written (packet : P) (result : Except IoError Unit)
  /-- The loop is left; a `PendingPacket` that is still to be counted stands for `pending`. -/
  | breaking (pending : Option P)
  /-- `sending` is gone, the drop guard is next. -/
  | left
  /-- `packets_rx` is next. -/
  | closing
  | draining (owed : ℕ)
  | drained
  | gone

def Task.inFlight : Task P → List P
  | parked (.writing packet) => [packet]
  | polled (.writing packet) => [packet]
  | dequeued packet => [packet]
  | written packet _ => [packet]
  | _ => []

def Task.owed : Task P → List QueueDropReason
  | breaking (some _) => [.closedBeforeDelivery]
  | draining n => List.replicate n .closedBeforeDelivery
  | _ => []

/-- The receiver has been closed. -/
def Task.Shut : Task P → Prop
  | draining _ => True
  | drained => True
  | gone => True
  | _ => False

/-- `OutgoingReceiver::drop` looks at the queue no more. -/
def Task.isOver : Task P → Bool
  | drained => true
  | gone => true
  | _ => false

/-- One connection's sending side, with the packets passed to it, those its
queue accepted and those the task dequeued, in order, the fates, the records
the transport handle received, and the packets published when the drain of the
queue was over. -/
structure Conn (P : Type*) where
  queue : Outgoing P
  token : Bool
  sendError : Oneshot
  task : Task P
  calls : List (Call P)
  passed : List P
  accepted : List P
  dequeued : List P
  log : List (Fate × P)
  records : List QueueDropReason
  late : List P

namespace Conn

/-- A connection on the queue `o`; what `o` may hold counts as passed. -/
def new (o : Outgoing P) : Conn P :=
  ⟨o, false, .waiting, .unstarted, [], o.values, o.values, [], [], [], []⟩

/-- The packets of the calls in progress. -/
def calling (s : Conn P) : List P := s.calls.flatMap Call.packets

/-- The records that the calls and the drops in progress still owe. -/
def owed (s : Conn P) : List QueueDropReason := s.calls.flatMap Call.owed ++ s.task.owed

/-! ### The steps -/

/-- `send` is called on some clone, and reads the token. -/
def send (s : Conn P) (packet : P) : Conn P :=
  if s.queue.senders = 0 then s
  else if s.token then
    { s with passed := s.passed ++ [packet], log := s.log ++ [(.closed, packet)] }
  else { s with passed := s.passed ++ [packet], calls := s.calls ++ [.checked packet] }

/-- The call `k` takes its next step: `OutgoingSender::try_send`, which on a
channel is two, its records, its return. -/
def proceed (s : Conn P) (k : ℕ) : Conn P :=
  match s.calls[k]? with
  | none => s
  | some (.checked packet) =>
    match s.queue.start packet with
    | (.ok (some evicted), queue) =>
      { s with
        queue := queue
        calls := s.calls.set k (.evicting evicted.length)
        accepted := s.accepted ++ [packet]
        log := s.log ++ evicted.map (Prod.mk .evicted) }
    | (.ok none, queue) =>
      { s with queue := queue, calls := s.calls.set k (.reserved packet) }
    | (.error (.full packet), queue) =>
      { s with queue := queue, calls := s.calls.set k (.rejected packet) }
    | (.error (.closed packet), queue) =>
      { s with
        queue := queue
        calls := s.calls.eraseIdx k
        log := s.log ++ [(.closed, packet)] }
  | some (.reserved packet) =>
    match s.queue.publish packet with
    | some queue =>
      { s with
        queue := queue
        calls := s.calls.set k (.evicting 0)
        accepted := s.accepted ++ [packet]
        late := if s.task.isOver then s.late ++ [packet] else s.late }
    | none => s
  | some (.rejected packet) =>
    { s with
      calls := s.calls.eraseIdx k
      log := s.log ++ [(.full, packet)]
      records := s.records ++ [.outgoingQueueFull] }
  | some (.evicting 0) => { s with calls := s.calls.eraseIdx k }
  | some (.evicting (n + 1)) =>
    { s with
      calls := s.calls.set k (.evicting n)
      records := s.records ++ [.outgoingQueueEvicted] }

def clone (s : Conn P) : Conn P :=
  if s.queue.senders = 0 then s else { s with queue := s.queue.clone }

/-- A clone is dropped; a call in progress keeps one alive. -/
def dropSender (s : Conn P) : Conn P :=
  if s.queue.senders ≤ 1 ∧ s.calls ≠ [] then s else { s with queue := s.queue.dropSender }

def disconnect (s : Conn P) : Conn P := { s with token := true }

/-- `sending` is dropped where it waits, and its `PendingPacket` with it. -/
def interrupt (s : Conn P) : Stage P → Conn P
  | .receiving => { s with task := .breaking none }
  | .writing packet =>
    { s with log := s.log ++ [(.interrupted, packet)], task := .breaking (some packet) }

/-- The task is polled, and looks at the token first. -/
def poll (s : Conn P) : Conn P :=
  match s.task with
  | .unstarted => if s.token then s.interrupt .receiving else { s with task := .polled .receiving }
  | .parked stage => if s.token then s.interrupt stage else { s with task := .polled stage }
  | _ => s

/-- What `sending` awaits is not ready. -/
def pend (s : Conn P) : Conn P :=
  match s.task with
  | .polled stage => { s with task := .parked stage }
  | _ => s

/-- The call `write.send` returns. -/
def write (s : Conn P) (result : Except IoError Unit) : Conn P :=
  match s.task with
  | .polled (.writing packet) => { s with task := .written packet result }
  | _ => s

/-- The future of the task is dropped where it waits. Before its first poll,
as when the raw connection, its parts or its stream are dropped, there is no
guard to cancel the token. -/
def abort (s : Conn P) : Conn P :=
  match s.task with
  | .unstarted => { s with task := .closing }
  | .parked stage => s.interrupt stage
  | _ => s

/-- The task's own next step, where no one else decides it. -/
def advance (s : Conn P) : Conn P :=
  match s.task with
  | .polled .receiving =>
    match s.queue.recv with
    | (.ok packet, queue) =>
      { s with queue := queue, dequeued := s.dequeued ++ [packet], task := .dequeued packet }
    | (.error .disconnected, queue) => { s with queue := queue, task := .breaking none }
    | (.error .empty, queue) => { s with queue := queue, task := .parked .receiving }
  | .dequeued packet =>
    if s.token then s.interrupt (.writing packet) else { s with task := .polled (.writing packet) }
  | .written packet result =>
    match result with
    | .ok () => { s with log := s.log ++ [(.finished (.ok ()), packet)], task := .polled .receiving }
    | .error err =>
      { s with
        log := s.log ++ [(.finished (.error err), packet)]
        sendError := s.sendError.publish err
        task := .breaking (if aborted (.error err) then some packet else none) }
  | .breaking pending =>
    { s with
      records := s.records ++ if pending.isSome then [.closedBeforeDelivery] else []
      sendError := s.sendError.dropSender
      task := .left }
  | .left => { s with token := true, task := .closing }
  | .closing =>
    match s.queue.close with
    | (pending, queue) =>
      { s with
        queue := queue
        log := s.log ++ pending.map (Prod.mk .drained)
        task := .draining pending.length }
  | .draining (n + 1) =>
    { s with records := s.records ++ [.closedBeforeDelivery], task := .draining n }
  | .draining 0 =>
    match s.queue.drainOne with
    | (some packet, queue) =>
      { s with queue := queue, log := s.log ++ [(.drained, packet)], task := .draining 1 }
    | (none, queue) => { s with queue := queue, task := .drained }
  | .drained =>
    match s.queue.dropInner with
    | (rest, queue) =>
      -- a task that never ran still owns the sender of the one-shot channel
      { s with
        queue := queue
        log := s.log ++ rest.map (Prod.mk .lost)
        sendError := s.sendError.dropSender
        task := .gone }
  | _ => s

/-- What the callers, the writer and the runtime decide. -/
inductive Act (P : Type*)
  | send (packet : P)
  | proceed (k : ℕ)
  | clone
  | dropSender
  | disconnect
  | poll
  | pend
  | write (result : Except IoError Unit)
  | abort
  | advance

def step (s : Conn P) : Act P → Conn P
  | .send packet => s.send packet
  | .proceed k => s.proceed k
  | .clone => s.clone
  | .dropSender => s.dropSender
  | .disconnect => s.disconnect
  | .poll => s.poll
  | .pend => s.pend
  | .write result => s.write result
  | .abort => s.abort
  | .advance => s.advance

/-- Whether the step is one of the callers, not of the task. -/
def Act.ofCaller : Act P → Bool
  | send _ => true
  | proceed _ => true
  | clone => true
  | dropSender => true
  | disconnect => true
  | _ => false

/-- The task is where it was, and nothing is dequeued. -/
structure Keeps (s s' : Conn P) : Prop where
  task : s'.task = s.task
  dequeued : s'.dequeued = s.dequeued
  log : s.log <+: s'.log

theorem keeps_refl (s : Conn P) : Keeps s s := ⟨rfl, rfl, List.prefix_refl _⟩

theorem keeps_proceed (s : Conn P) (k : ℕ) : Keeps s (s.proceed k) := by
  unfold proceed
  split
  · exact keeps_refl s
  · split
    · exact ⟨rfl, rfl, List.prefix_append _ _⟩
    · exact ⟨rfl, rfl, List.prefix_refl _⟩
    · exact ⟨rfl, rfl, List.prefix_refl _⟩
    · exact ⟨rfl, rfl, List.prefix_append _ _⟩
  · split
    · exact ⟨rfl, rfl, List.prefix_refl _⟩
    · exact keeps_refl s
  · exact ⟨rfl, rfl, List.prefix_append _ _⟩
  · exact ⟨rfl, rfl, List.prefix_refl _⟩
  · exact ⟨rfl, rfl, List.prefix_refl _⟩

/-- **The callers** leave the task alone. -/
theorem keeps_of_caller (s : Conn P) {a : Act P} (ha : a.ofCaller = true) : Keeps s (s.step a) := by
  cases a with
  | send packet =>
    simp only [step, send]
    split_ifs
    · exact keeps_refl s
    · exact ⟨rfl, rfl, List.prefix_append _ _⟩
    · exact ⟨rfl, rfl, List.prefix_refl _⟩
  | proceed k => exact keeps_proceed s k
  | clone =>
    simp only [step, clone]
    split_ifs
    · exact keeps_refl s
    · exact ⟨rfl, rfl, List.prefix_refl _⟩
  | dropSender =>
    simp only [step, dropSender]
    split_ifs
    · exact keeps_refl s
    · exact ⟨rfl, rfl, List.prefix_refl _⟩
  | disconnect => exact ⟨rfl, rfl, List.prefix_refl _⟩
  | _ => cases ha

/-! ### The ledger -/

/-- The packets discarded by the drop of the inner receiver. -/
def lostIn (log : List (Fate × P)) : List P := (log.filter fun x => x.1.isLost).map Prod.snd

/-- The packets queued where nobody looks for them any more. -/
def stranded (s : Conn P) : List P := if s.task.isOver then s.queue.values else []

/-- Where the packets are: in calls, queued, with the writer, or at their end. -/
def places (s : Conn P) : List P :=
  s.calling ++ s.queue.values ++ s.task.inFlight ++ s.log.map Prod.snd

/-- The records that the fates so far ask for. -/
def due (s : Conn P) : List QueueDropReason := s.log.filterMap fun x => x.1.record

theorem lostIn_append (log log' : List (Fate × P)) :
    lostIn (log ++ log') = lostIn log ++ lostIn log' := by
  simp [lostIn]

theorem lostIn_tag {f : Fate} (hf : f.isLost = false) (l : List P) :
    lostIn (l.map (Prod.mk f)) = [] := by
  simp [lostIn, List.filter_map, Function.comp_def, hf]

/-- What every step keeps. -/
structure Good (s : Conn P) : Prop where
  places : s.passed.Perm s.places
  records : (s.records ++ s.owed).Perm s.due
  shut : s.task.Shut → s.queue.receiverOpen = false
  late : (lostIn s.log ++ s.stranded).Perm s.late

theorem good_new (o : Outgoing P) : Good (new o) :=
  ⟨by simp [new, Conn.places, calling, Task.inFlight], by simp [new, owed, due, Task.owed],
    fun h => h.elim, by simp [new, lostIn, stranded, Task.isOver]⟩

/-- **A step of the task** moves packets between the queue, the writer and the
log, and makes or defers the records this asks for. -/
theorem Good.move {s s' : Conn P} (h : Good s) (added : List (Fate × P))
    (made : List QueueDropReason) (hpassed : s'.passed = s.passed) (hcalls : s'.calls = s.calls)
    (hlog : s'.log = s.log ++ added) (hrec : s'.records = s.records ++ made)
    (hplaces : (s.queue.values ++ s.task.inFlight).Perm
      (s'.queue.values ++ s'.task.inFlight ++ added.map Prod.snd))
    (howed : (made ++ s'.task.owed).Perm
      (s.task.owed ++ added.filterMap fun x => x.1.record))
    (hshut : s'.task.Shut → s'.queue.receiverOpen = false) (hlate : s'.late = s.late)
    (hstranded : lostIn added ++ s'.stranded = s.stranded) : Good s' := by
  refine ⟨perm_of_count fun a => ?_, perm_of_count fun a => ?_, hshut, ?_⟩
  · have hp := h.places.count_eq a
    have hm := hplaces.count_eq a
    simp only [Conn.places, calling, hpassed, hcalls, hlog, List.map_append,
      List.count_append] at hp hm ⊢
    omega
  · have hr := h.records.count_eq a
    have hm := howed.count_eq a
    simp only [Conn.owed, due, hcalls, hlog, hrec, List.filterMap_append,
      List.count_append] at hr hm ⊢
    omega
  · rw [hlate, hlog, lostIn_append, List.append_assoc, hstranded]
    exact h.late

/-- **A step of the call `k`**, which becomes `rest` (nothing, once the call
has returned). -/
theorem Good.call {s s' : Conn P} (h : Good s) {k : ℕ} {c : Call P} (hk : s.calls[k]? = some c)
    (rest : List (Call P)) (added : List (Fate × P)) (made : List QueueDropReason)
    (hpassed : s'.passed = s.passed) (htask : s'.task = s.task)
    (hcalls : s'.calls.Perm (rest ++ s.calls.eraseIdx k))
    (hlog : s'.log = s.log ++ added) (hrec : s'.records = s.records ++ made)
    (hplaces : (c.packets ++ s.queue.values).Perm
      (rest.flatMap Call.packets ++ s'.queue.values ++ added.map Prod.snd))
    (howed : (made ++ rest.flatMap Call.owed).Perm
      (c.owed ++ added.filterMap fun x => x.1.record))
    (hopen : s'.queue.receiverOpen = s.queue.receiverOpen) (late : List P)
    (hlate : s'.late = s.late ++ late) (hstranded : s'.stranded = s.stranded ++ late)
    (hkept : lostIn added = []) : Good s' := by
  have hpk := flatMap_perm_eraseIdx Call.packets hk
  have hok := flatMap_perm_eraseIdx Call.owed hk
  have hpk' := hcalls.flatMap_right Call.packets
  have hok' := hcalls.flatMap_right Call.owed
  refine ⟨perm_of_count fun a => ?_, perm_of_count fun a => ?_, ?_, ?_⟩
  · have hp := h.places.count_eq a
    have hm := hplaces.count_eq a
    have h1 := hpk.count_eq a
    have h2 := hpk'.count_eq a
    simp only [Conn.places, calling, hpassed, htask, hlog, List.map_append, List.flatMap_append,
      List.count_append] at hp hm h1 h2 ⊢
    omega
  · have hr := h.records.count_eq a
    have hm := howed.count_eq a
    have h1 := hok.count_eq a
    have h2 := hok'.count_eq a
    simp only [Conn.owed, due, htask, hlog, hrec, List.filterMap_append, List.flatMap_append,
      List.count_append] at hr hm h1 h2 ⊢
    omega
  · intro hs
    rw [htask] at hs
    rw [hopen]
    exact h.shut hs
  · rw [hlate, hlog, lostIn_append, hkept, List.append_nil, hstranded, ← List.append_assoc]
    exact h.late.append_right late

theorem good_send {s : Conn P} (h : Good s) (packet : P) : Good (s.send packet) := by
  unfold send
  split
  · exact h
  split
  · refine ⟨perm_of_count fun a => ?_, ?_, h.shut, ?_⟩
    · have hp := h.places.count_eq a
      simp only [Conn.places, calling, List.map_append, List.map_cons, List.map_nil,
        List.count_append] at hp ⊢
      omega
    · simpa [owed, due, Fate.record] using h.records
    · rw [lostIn_append]
      simpa [lostIn, Fate.isLost, stranded] using h.late
  · refine ⟨perm_of_count fun a => ?_, ?_, h.shut, h.late⟩
    · have hp := h.places.count_eq a
      simp only [Conn.places, calling, List.flatMap_append, List.flatMap_cons, List.flatMap_nil,
        Call.packets, List.count_append, List.count_nil] at hp ⊢
      omega
    · simpa [owed, due, Call.owed] using h.records

theorem filterMap_map_tag (f : Fate) (l : List P) :
    (l.map (Prod.mk f)).filterMap (fun x => x.1.record) =
      f.record.toList.flatMap (List.replicate l.length) := by
  cases hf : f.record with
  | none => simp [List.filterMap_map, hf]
  | some r =>
    simp only [List.filterMap_map, Function.comp_def, hf, Option.toList_some, List.flatMap_singleton]
    rw [List.filterMap_eq_map', List.map_const']

theorem map_snd_tag (f : Fate) (l : List P) : (l.map (Prod.mk f)).map Prod.snd = l := by
  simp [Function.comp_def]

/-- The receiver is open, so its drop has not begun. -/
theorem Good.not_over {s : Conn P} (h : Good s) (ho : s.queue.receiverOpen = true) :
    s.task.isOver = false := by
  have hshut : ¬ s.task.Shut := fun hs => by simp [h.shut hs] at ho
  cases ht : s.task with
  | drained => exact absurd (by rw [ht]; trivial) hshut
  | gone => exact absurd (by rw [ht]; trivial) hshut
  | _ => rfl

theorem good_checked {s : Conn P} (h : Good s) {k : ℕ} {packet : P}
    (hk : s.calls[k]? = some (.checked packet)) : Good (s.proceed k) := by
  have hlt : k < s.calls.length := (List.getElem?_eq_some_iff.mp hk).1
  simp only [proceed, hk]
  rcases s.queue.start_spec packet with
    ⟨evicted, o', he, ho, ho', -, -, -, hv⟩ | ⟨o', he, ho, ho', -, -, hv, -⟩ | ⟨he, -⟩ | ⟨he, -⟩
  · have hover := h.not_over ho
    rw [he]
    refine h.call hk [.evicting evicted.length] (evicted.map (Prod.mk .evicted)) [] rfl rfl
      (List.set_perm_cons_eraseIdx hlt _) rfl (by simp) ?_ ?_ (by simp [ho, ho']) []
      (by simp) (by simp [stranded, hover]) (lostIn_tag rfl evicted)
    · rw [map_snd_tag]
      refine perm_of_count fun a => ?_
      have hc := congrArg (List.count a) hv
      simp only [List.count_append, Call.packets, List.flatMap_cons, List.flatMap_nil,
        List.count_nil] at hc ⊢
      omega
    · rw [filterMap_map_tag]
      simp [Call.owed, Fate.record]
  · rw [he]
    exact h.call hk [.reserved packet] [] [] rfl rfl (List.set_perm_cons_eraseIdx hlt _) (by simp)
      (by simp) (by simp [Call.packets, hv]) (by simp [Call.owed]) (by simp [ho, ho']) [] (by simp)
      (by simp [stranded, hv]) rfl
  · rw [he]
    exact h.call hk [] [(.closed, packet)] [] rfl rfl (List.Perm.refl _) rfl (by simp)
      (by simpa [Call.packets] using (List.perm_append_singleton packet _).symm)
      (by simp [Call.owed, Fate.record]) rfl [] (by simp) (by simp [stranded]) rfl
  · rw [he]
    exact h.call hk [.rejected packet] [] [] rfl rfl (List.set_perm_cons_eraseIdx hlt _) (by simp)
      (by simp) (by simp [Call.packets]) (by simp [Call.owed]) rfl [] (by simp) (by simp [stranded]) rfl

/-- A packet that is published joins the queue; once the drain is over, it joins
those that nobody looks for. -/
theorem good_reserved {s : Conn P} (h : Good s) {k : ℕ} {packet : P}
    (hk : s.calls[k]? = some (.reserved packet)) : Good (s.proceed k) := by
  have hlt : k < s.calls.length := (List.getElem?_eq_some_iff.mp hk).1
  simp only [proceed, hk]
  rcases s.queue.publish_spec packet with ⟨o', he, ho, -, -, hv⟩ | he
  · rw [he]
    refine h.call hk [.evicting 0] [] [] rfl rfl (List.set_perm_cons_eraseIdx hlt _) (by simp)
      (by simp) ?_ (by simp [Call.owed]) ho (if s.task.isOver then [packet] else []) ?_ ?_ rfl
    · simpa [Call.packets, hv] using (List.perm_append_singleton packet s.queue.values).symm
    · by_cases hover : s.task.isOver = true
      · simp [hover]
      · simp [hover]
    · by_cases hover : s.task.isOver = true
      · simp [stranded, hover, hv]
      · simp [stranded, hover]
  · rw [he]
    exact h

theorem good_proceed {s : Conn P} (h : Good s) (k : ℕ) : Good (s.proceed k) := by
  cases hk : s.calls[k]? with
  | none => simpa [proceed, hk] using h
  | some call =>
    cases call with
    | checked packet => exact good_checked h hk
    | reserved packet => exact good_reserved h hk
    | rejected packet =>
      simp only [proceed, hk]
      exact h.call hk [] [(.full, packet)] [.outgoingQueueFull] rfl rfl (List.Perm.refl _) rfl rfl
        (by simpa [Call.packets] using (List.perm_append_singleton packet _).symm)
        (by simp [Call.owed, Fate.record]) rfl [] (by simp) (by simp [stranded]) rfl
    | evicting n =>
      have hlt : k < s.calls.length := (List.getElem?_eq_some_iff.mp hk).1
      cases n with
      | zero =>
        simp only [proceed, hk]
        exact h.call hk [] [] [] rfl rfl (List.Perm.refl _) (by simp) (by simp) (by simp [Call.packets])
          (by simp [Call.owed]) rfl [] (by simp) (by simp [stranded]) rfl
      | succ n =>
        simp only [proceed, hk]
        exact h.call hk [.evicting n] [] [.outgoingQueueEvicted] rfl rfl
          (List.set_perm_cons_eraseIdx hlt _) (by simp) rfl (by simp [Call.packets])
          (by simp [Call.owed, List.replicate_succ]) rfl [] (by simp) (by simp [stranded]) rfl

theorem good_clone {s : Conn P} (h : Good s) : Good s.clone := by
  unfold clone
  split
  · exact h
  · exact h.move [] [] rfl rfl (by simp) (by simp) (by simp) (by simp)
      (by simpa using h.shut) rfl (by simp [lostIn, stranded])

theorem good_dropSender {s : Conn P} (h : Good s) : Good s.dropSender := by
  unfold dropSender
  split
  · exact h
  · exact h.move [] [] rfl rfl (by simp) (by simp) (by simp) (by simp)
      (by simpa using h.shut) rfl (by simp [lostIn, stranded])

theorem good_disconnect {s : Conn P} (h : Good s) : Good s.disconnect :=
  ⟨h.places, h.records, h.shut, h.late⟩

theorem stranded_eq_nil {s : Conn P} (h : s.task.isOver = false) : s.stranded = [] := by
  simp [stranded, h]

theorem isOver_of_not_shut {task : Task P} (h : ¬ task.Shut) : task.isOver = false := by
  cases task with
  | drained => exact absurd trivial h
  | gone => exact absurd trivial h
  | _ => rfl

/-- A step that changes the task's place alone. -/
theorem Good.goto {s : Conn P} (h : Good s) {task : Task P} (hs' : ¬ s.task.Shut)
    (hf : task.inFlight = s.task.inFlight) (ho : task.owed = s.task.owed) (hs : ¬ task.Shut) :
    Good { s with task := task } := by
  refine h.move [] [] rfl rfl (by simp) (by simp) (by simp [hf]) (by simp [ho])
    (fun ht => absurd ht hs) rfl ?_
  rw [stranded_eq_nil (isOver_of_not_shut hs'), stranded_eq_nil (isOver_of_not_shut hs)]
  rfl

/-- `sending` is dropped at a packet or at none. -/
theorem good_interrupt {s : Conn P} (h : Good s) {stage : Stage P} (hs : ¬ s.task.Shut)
    (hf : s.task.inFlight = (Task.parked stage).inFlight) (ho : s.task.owed = []) :
    Good (s.interrupt stage) := by
  cases stage with
  | receiving => exact h.goto hs (by rw [hf]; rfl) (by rw [ho]; rfl) (fun ht => ht)
  | writing packet =>
    refine h.move [(.interrupted, packet)] [] rfl rfl rfl (by simp [interrupt]) ?_ ?_
      (fun ht => ht.elim) rfl ?_
    · rw [hf]
      simp [interrupt, Task.inFlight]
    · rw [ho]
      simp [interrupt, Task.owed, Fate.record]
    · rw [stranded_eq_nil (isOver_of_not_shut hs)]
      rfl

theorem good_poll {s : Conn P} (h : Good s) : Good s.poll := by
  unfold poll
  split
  · rename_i ht
    have hs : ¬ s.task.Shut := by simp [ht, Task.Shut]
    split
    · exact good_interrupt h hs (by rw [ht]; rfl) (by rw [ht]; rfl)
    · exact h.goto hs (by rw [ht]; rfl) (by rw [ht]; rfl) (fun hs => hs)
  · rename_i stage ht
    have hs : ¬ s.task.Shut := by simp [ht, Task.Shut]
    split
    · exact good_interrupt h hs (by rw [ht]) (by rw [ht]; rfl)
    · exact h.goto hs (by rw [ht]; cases stage <;> rfl) (by rw [ht]; rfl) (fun hs => hs)
  · exact h

theorem good_pend {s : Conn P} (h : Good s) : Good s.pend := by
  unfold pend
  split
  · rename_i stage ht
    exact h.goto (by simp [ht, Task.Shut]) (by rw [ht]; cases stage <;> rfl) (by rw [ht]; rfl)
      (fun hs => hs)
  · exact h

theorem good_write {s : Conn P} (h : Good s) (result : Except IoError Unit) :
    Good (s.write result) := by
  unfold write
  split
  · rename_i packet ht
    exact h.goto (by simp [ht, Task.Shut]) (by rw [ht]; rfl) (by rw [ht]; rfl) (fun hs => hs)
  · exact h

theorem good_abort {s : Conn P} (h : Good s) : Good s.abort := by
  unfold abort
  split
  · rename_i ht
    exact h.goto (by simp [ht, Task.Shut]) (by rw [ht]; rfl) (by rw [ht]; rfl) (fun hs => hs)
  · rename_i stage ht
    exact good_interrupt h (by simp [ht, Task.Shut]) (by rw [ht]) (by rw [ht]; rfl)
  · exact h

/-- The task takes a packet from the queue, finds none, or finds the end. -/
theorem good_recv {s : Conn P} (h : Good s) (ht : s.task = .polled .receiving) : Good s.advance := by
  have hs : ¬ s.task.Shut := by simp [ht, Task.Shut]
  simp only [advance, ht]
  rcases s.queue.recv_spec with ⟨packet, o', he, hv, -⟩ | ⟨e, he, -⟩
  · rw [he]
    refine h.move [] [] rfl rfl (by simp) (by simp) ?_ (by simp [ht, Task.owed]) (fun hs => hs.elim)
      rfl ?_
    · rw [← hv, ht]
      simpa [Task.inFlight] using (List.perm_append_singleton packet o'.values).symm
    · rw [stranded_eq_nil (isOver_of_not_shut hs)]
      rfl
  · rw [he]
    cases e with
    | disconnected => exact h.goto hs (by rw [ht]; rfl) (by rw [ht]; rfl) (fun hs => hs)
    | empty => exact h.goto hs (by rw [ht]; rfl) (by rw [ht]; rfl) (fun hs => hs)

/-- The writer's result is in: the packet has its end, and an aborted one
leaves its record to the `PendingPacket`. -/
theorem good_written {s : Conn P} (h : Good s) {packet : P} {result : Except IoError Unit}
    (ht : s.task = .written packet result) : Good s.advance := by
  have hnil : s.stranded = [] := stranded_eq_nil (by rw [ht]; rfl)
  cases result with
  | ok =>
    simp only [advance, ht]
    exact h.move [(.finished (.ok ()), packet)] [] rfl rfl rfl (by simp)
      (by simp [ht, Task.inFlight]) (by simp [ht, Task.owed, Fate.record, aborted])
      (fun hs => hs.elim) rfl (by rw [hnil]; rfl)
  | error err =>
    simp only [advance, ht]
    refine h.move [(.finished (.error err), packet)] [] rfl rfl rfl (by simp)
      (by simp [ht, Task.inFlight]) ?_ (fun hs => hs.elim) rfl (by rw [hnil]; rfl)
    cases hb : aborted (.error err)
    · simp [ht, Task.owed, Fate.record, hb]
    · simp [ht, Task.owed, Fate.record, hb]

theorem good_breaking {s : Conn P} (h : Good s) {pending : Option P}
    (ht : s.task = .breaking pending) :
    Good s.advance := by
  have hnil : s.stranded = [] := stranded_eq_nil (by rw [ht]; rfl)
  simp only [advance, ht]
  refine h.move [] (if pending.isSome then [.closedBeforeDelivery] else []) rfl rfl (by simp) rfl
    (by simp [ht, Task.inFlight]) ?_ (fun hs => hs.elim) rfl (by rw [hnil]; rfl)
  cases pending
  · simp [ht, Task.owed]
  · simp [ht, Task.owed]

/-- The drop of `packets_rx` closes the queue. -/
theorem good_closing {s : Conn P} (h : Good s) (ht : s.task = .closing) : Good s.advance := by
  have hnil : s.stranded = [] := stranded_eq_nil (by rw [ht]; rfl)
  simp only [advance, ht]
  obtain ⟨hv, ho, -, -⟩ := s.queue.close_spec
  refine h.move (s.queue.close.1.map (Prod.mk .drained)) [] rfl rfl rfl (by simp) ?_ ?_
    (fun _ => ho) rfl ?_
  · rw [map_snd_tag, ← hv, ht]
    simpa [Task.inFlight] using List.perm_append_comm
  · rw [filterMap_map_tag]
    simp [ht, Task.owed, Fate.record]
  · rw [lostIn_tag rfl, hnil]
    rfl

/-- The drain ends when it finds the queue empty. -/
theorem good_draining {s : Conn P} (h : Good s) {n : ℕ} (ht : s.task = .draining n) :
    Good s.advance := by
  have hclosed : s.queue.receiverOpen = false := h.shut (by rw [ht]; trivial)
  have hnil : s.stranded = [] := stranded_eq_nil (by rw [ht]; rfl)
  cases n with
  | succ n =>
    simp only [advance, ht]
    exact h.move [] [.closedBeforeDelivery] rfl rfl (by simp) rfl (by simp [ht, Task.inFlight])
      (by simp [ht, Task.owed, List.replicate_succ]) (fun _ => hclosed) rfl (by rw [hnil]; rfl)
  | zero =>
    simp only [advance, ht]
    rcases s.queue.drainOne_spec hclosed with ⟨packet, o', he, hv, ho, -⟩ | ⟨he, hv⟩
    · rw [he]
      refine h.move [(.drained, packet)] [] rfl rfl rfl (by simp) ?_
        (by simp [ht, Task.owed, Fate.record]) (fun _ => ho) rfl (by rw [hnil]; rfl)
      rw [← hv, ht]
      simpa [Task.inFlight] using (List.perm_append_singleton packet o'.values).symm
    · rw [he]
      refine h.move [] [] rfl rfl (by simp) (by simp) (by simp [ht, Task.inFlight])
        (by simp [ht, Task.owed]) (fun _ => hclosed) rfl ?_
      rw [hnil]
      simp [lostIn, stranded, Task.isOver, hv]

/-- The drop of the inner receiver discards what was published in between. -/
theorem good_drained {s : Conn P} (h : Good s) (ht : s.task = .drained) : Good s.advance := by
  obtain ⟨hrest, hnil, ho, -⟩ := s.queue.dropInner_spec
  have hstranded : s.stranded = s.queue.values := by simp [stranded, ht, Task.isOver]
  simp only [advance, ht]
  refine h.move (s.queue.dropInner.1.map (Prod.mk .lost)) [] rfl rfl rfl (by simp) ?_ ?_
    (fun _ => ho) rfl ?_
  · rw [map_snd_tag, hrest, ht]
    simp [hnil, Task.inFlight]
  · rw [filterMap_map_tag]
    simp [ht, Task.owed, Fate.record]
  · rw [hrest, hstranded]
    simp [lostIn, stranded, Task.isOver, hnil, List.filter_map, Function.comp_def, Fate.isLost]

theorem good_advance {s : Conn P} (h : Good s) : Good s.advance := by
  cases ht : s.task with
  | unstarted => simpa [advance, ht] using h
  | parked stage => simpa [advance, ht] using h
  | polled stage =>
    cases stage with
    | receiving => exact good_recv h ht
    | writing packet => simpa [advance, ht] using h
  | dequeued packet =>
    have hs : ¬ s.task.Shut := by simp [ht, Task.Shut]
    simp only [advance, ht]
    split
    · exact good_interrupt h hs (by rw [ht]; rfl) (by rw [ht]; rfl)
    · exact h.goto hs (by rw [ht]; rfl) (by rw [ht]; rfl) (fun hs => hs)
  | written packet result => exact good_written h ht
  | breaking pending => exact good_breaking h ht
  | left =>
    have hs : ¬ s.task.Shut := by simp [ht, Task.Shut]
    simp only [advance, ht]
    have hg : Good { s with task := .closing } :=
      h.goto hs (by rw [ht]; rfl) (by rw [ht]; rfl) (fun hs => hs)
    exact good_disconnect hg
  | closing => exact good_closing h ht
  | draining n => exact good_draining h ht
  | drained => exact good_drained h ht
  | gone => simpa [advance, ht] using h

theorem good_step {s : Conn P} (h : Good s) (a : Act P) : Good (s.step a) := by
  cases a with
  | send packet => exact good_send h packet
  | proceed k => exact good_proceed h k
  | clone => exact good_clone h
  | dropSender => exact good_dropSender h
  | disconnect => exact good_disconnect h
  | poll => exact good_poll h
  | pend => exact good_pend h
  | write result => exact good_write h result
  | abort => exact good_abort h
  | advance => exact good_advance h

theorem good_run (o : Outgoing P) (as : List (Act P)) : Good (run step (new o) as) :=
  run_inv (I := Good) (fun _ a h => good_step h a) as (good_new o)

end Conn
end Slinet
