/-
# The packets of a connection in the queue and the writer

Every step moves the queue in one of three ways (`Conn.Moves`), so the writer's
task dequeues the packets in the order in which the calls of `send` queued them
(`Conn.Ordered`), and on a reliable queue what it does not dequeue was queued
last (`Conn.Fifo`). Between two writes it is in one of three phases: it has no
packet, it has the one it dequeued last, or it will write none any more
(`Conn.Paces`).
-/
import Slinet.Connection

namespace Slinet

namespace Conn

variable {P : Type*}

/-- **What a step does to the queue** and to the packets that go through it:
the task takes the oldest, a call adds a newest and evicts oldest ones, which a
channel never does, or the end discards oldest ones. -/
def Moves (s s' : Conn P) : Prop :=
  (s'.queue.IsReliable ↔ s.queue.IsReliable) ∧
  ((∃ packet, ¬ s.task.Shut ∧ s'.accepted = s.accepted ∧ s'.dequeued = s.dequeued ++ [packet] ∧
      packet :: s'.queue.values = s.queue.values) ∨
    (∃ packet evicted, s'.task = s.task ∧ s'.accepted = s.accepted ++ [packet] ∧
      s'.dequeued = s.dequeued ∧ evicted ++ s'.queue.values = s.queue.values ++ [packet] ∧
      (s.queue.IsReliable → evicted = [])) ∨
    ∃ discarded, (s.task.Shut → s'.task.Shut) ∧ s'.accepted = s.accepted ∧
      s'.dequeued = s.dequeued ∧ discarded ++ s'.queue.values = s.queue.values ∧
      (¬ s'.task.Shut → discarded = []))

/-- A step that neither accepts nor takes a packet. -/
theorem moves_keep {s s' : Conn P} (hacc : s'.accepted = s.accepted)
    (hdeq : s'.dequeued = s.dequeued) (hval : s'.queue.values = s.queue.values)
    (hrel : s'.queue.IsReliable ↔ s.queue.IsReliable) (hshut : s.task.Shut → s'.task.Shut) :
    s.Moves s' :=
  ⟨hrel, Or.inr (Or.inr ⟨[], hshut, hacc, hdeq, hval, fun _ => rfl⟩)⟩

theorem moves_refl (s : Conn P) : s.Moves s := moves_keep rfl rfl rfl Iff.rfl id

/-- The task moves and nothing else happens. -/
theorem moves_goto {s s' : Conn P} (hs : ¬ s.task.Shut) (hacc : s'.accepted = s.accepted)
    (hdeq : s'.dequeued = s.dequeued) (hqueue : s'.queue = s.queue) : s.Moves s' :=
  moves_keep hacc hdeq (by rw [hqueue]) (by rw [hqueue]) fun h => absurd h hs

theorem moves_proceed (s : Conn P) (k : ℕ) : s.Moves (s.proceed k) := by
  unfold proceed
  split
  · exact moves_refl s
  · rename_i packet hk
    rcases s.queue.start_spec packet with
      ⟨evicted, queue, he, -, -, -, hrel, hev, hv⟩ | ⟨queue, he, -, -, -, hrel, hv, -⟩ |
      ⟨he, -⟩ | ⟨he, -⟩
    · rw [he]
      exact ⟨hrel, Or.inr (Or.inl ⟨packet, evicted, rfl, rfl, rfl, hv, hev⟩)⟩
    · rw [he]
      exact moves_keep rfl rfl hv hrel id
    · rw [he]
      exact moves_keep rfl rfl rfl Iff.rfl id
    · rw [he]
      exact moves_keep rfl rfl rfl Iff.rfl id
  · rename_i packet hk
    rcases s.queue.publish_spec packet with ⟨queue, he, -, -, hrel, hv⟩ | he
    · rw [he]
      exact ⟨hrel, Or.inr (Or.inl ⟨packet, [], rfl, rfl, rfl, hv, fun _ => rfl⟩)⟩
    · rw [he]
      exact moves_refl s
  · exact moves_keep rfl rfl rfl Iff.rfl id
  · exact moves_keep rfl rfl rfl Iff.rfl id
  · exact moves_keep rfl rfl rfl Iff.rfl id

theorem moves_interrupt {s : Conn P} (hs : ¬ s.task.Shut) (stage : Stage P) :
    s.Moves (s.interrupt stage) := by
  cases stage with
  | receiving => exact moves_goto hs rfl rfl rfl
  | writing packet => exact moves_goto hs rfl rfl rfl

/-- The task takes the oldest packet, or stops taking. -/
theorem moves_recv {s : Conn P} (ht : s.task = .polled .receiving) : s.Moves s.advance := by
  have hs : ¬ s.task.Shut := by simp [ht, Task.Shut]
  simp only [advance, ht]
  rcases s.queue.recv_spec with ⟨packet, queue, he, hv, -, -, hrel⟩ | ⟨e, he, -, -⟩
  · rw [he]
    exact ⟨hrel, Or.inl ⟨packet, hs, rfl, rfl, hv⟩⟩
  · rw [he]
    cases e with
    | disconnected => exact moves_goto hs rfl rfl rfl
    | empty => exact moves_goto hs rfl rfl rfl

theorem moves_closing {s : Conn P} (ht : s.task = .closing) : s.Moves s.advance := by
  obtain ⟨hv, -, -, hrel⟩ := s.queue.close_spec
  simp only [advance, ht]
  exact ⟨hrel, Or.inr (Or.inr ⟨s.queue.close.1, fun _ => trivial, rfl, rfl, hv,
    fun h => absurd trivial h⟩)⟩

theorem moves_draining {s : Conn P} (hclosed : s.queue.receiverOpen = false)
    (ht : s.task = .draining 0) : s.Moves s.advance := by
  simp only [advance, ht]
  rcases s.queue.drainOne_spec hclosed with ⟨packet, queue, he, hv, -, -, hrel⟩ | ⟨he, -⟩
  · rw [he]
    exact ⟨hrel, Or.inr (Or.inr ⟨[packet], fun _ => trivial, rfl, rfl, hv, fun h => absurd trivial h⟩)⟩
  · rw [he]
    exact moves_keep rfl rfl rfl Iff.rfl fun _ => trivial

theorem moves_drained {s : Conn P} (ht : s.task = .drained) : s.Moves s.advance := by
  obtain ⟨-, hv, -, -, hrel⟩ := s.queue.dropInner_spec
  simp only [advance, ht]
  exact ⟨hrel, Or.inr (Or.inr ⟨s.queue.values, fun _ => trivial, rfl, rfl, by simp [hv],
    fun h => absurd trivial h⟩)⟩

theorem moves_advance {s : Conn P} (hg : s.Good) : s.Moves s.advance := by
  cases ht : s.task with
  | polled stage =>
    cases stage with
    | receiving => exact moves_recv ht
    | writing packet =>
      simp only [advance, ht]
      exact moves_refl s
  | dequeued packet =>
    have hs : ¬ s.task.Shut := by simp [ht, Task.Shut]
    simp only [advance, ht]
    split
    · exact moves_interrupt hs _
    · exact moves_goto hs rfl rfl rfl
  | written packet result =>
    have hs : ¬ s.task.Shut := by simp [ht, Task.Shut]
    simp only [advance, ht]
    split
    · exact moves_goto hs rfl rfl rfl
    · exact moves_goto hs rfl rfl rfl
  | breaking pending =>
    simp only [advance, ht]
    exact moves_goto (by simp [ht, Task.Shut]) rfl rfl rfl
  | left =>
    simp only [advance, ht]
    exact moves_goto (by simp [ht, Task.Shut]) rfl rfl rfl
  | closing => exact moves_closing ht
  | draining n =>
    cases n with
    | zero => exact moves_draining (hg.shut (by rw [ht]; trivial)) ht
    | succ n =>
      simp only [advance, ht]
      exact moves_keep rfl rfl rfl Iff.rfl fun _ => trivial
  | drained => exact moves_drained ht
  | unstarted =>
    simp only [advance, ht]
    exact moves_refl s
  | parked stage =>
    simp only [advance, ht]
    exact moves_refl s
  | gone =>
    simp only [advance, ht]
    exact moves_refl s

theorem moves_step {s : Conn P} (hg : s.Good) (a : Act P) : s.Moves (s.step a) := by
  cases a with
  | send packet =>
    simp only [step, send]
    split
    · exact moves_refl s
    split
    · exact moves_keep rfl rfl rfl Iff.rfl id
    · exact moves_keep rfl rfl rfl Iff.rfl id
  | proceed k => exact moves_proceed s k
  | clone =>
    simp only [step, clone]
    split
    · exact moves_refl s
    · refine moves_keep rfl rfl (by simp) ?_ id
      cases s.queue <;> exact Iff.rfl
  | dropSender =>
    simp only [step, dropSender]
    split
    · exact moves_refl s
    · refine moves_keep rfl rfl (by simp) ?_ id
      cases s.queue <;> exact Iff.rfl
  | disconnect => exact moves_keep rfl rfl rfl Iff.rfl id
  | poll =>
    simp only [step, poll]
    split
    · rename_i ht
      have hs : ¬ s.task.Shut := by simp [ht, Task.Shut]
      split
      · exact moves_interrupt hs _
      · exact moves_goto hs rfl rfl rfl
    · rename_i ht
      have hs : ¬ s.task.Shut := by simp [ht, Task.Shut]
      split
      · exact moves_interrupt hs _
      · exact moves_goto hs rfl rfl rfl
    · exact moves_refl s
  | pend =>
    simp only [step, pend]
    split
    · rename_i ht
      exact moves_goto (by simp [ht, Task.Shut]) rfl rfl rfl
    · exact moves_refl s
  | write result =>
    simp only [step, write]
    split
    · rename_i ht
      exact moves_goto (by simp [ht, Task.Shut]) rfl rfl rfl
    · exact moves_refl s
  | abort =>
    simp only [step, abort]
    split
    · rename_i ht
      exact moves_goto (by simp [ht, Task.Shut]) rfl rfl rfl
    · rename_i ht
      exact moves_interrupt (by simp [ht, Task.Shut]) _
    · exact moves_refl s
  | advance => exact moves_advance hg

/-- The packets dequeued and queued are among those accepted, in their order. -/
def Ordered (s : Conn P) : Prop := (s.dequeued ++ s.queue.values).Sublist s.accepted

theorem ordered_new (o : Outgoing P) : (new o).Ordered := List.Sublist.refl _

theorem ordered_step {s : Conn P} (hg : s.Good) (h : s.Ordered) (a : Act P) :
    (s.step a).Ordered := by
  obtain ⟨-, ⟨packet, -, hacc, hdeq, hv⟩ | ⟨packet, evicted, -, hacc, hdeq, hv, -⟩ |
    ⟨discarded, -, hacc, hdeq, hv, -⟩⟩ := moves_step hg a
  · rw [Ordered, hacc, hdeq, List.append_assoc, List.singleton_append, hv]
    exact h
  · have hback : (s.step a).queue.values.Sublist (s.queue.values ++ [packet]) := by
      rw [← hv]
      exact List.sublist_append_right _ _
    rw [Ordered, hacc, hdeq]
    refine (hback.append_left _).trans ?_
    rw [← List.append_assoc]
    exact h.append_right _
  · have hback : (s.step a).queue.values.Sublist s.queue.values := by
      rw [← hv]
      exact List.sublist_append_right _ _
    rw [Ordered, hacc, hdeq]
    exact (hback.append_left _).trans h

/-- What every step keeps of a reliable queue: the packets accepted are those
dequeued, those drained at the end and those queued. -/
structure Fifo (s : Conn P) : Prop where
  reliable : s.queue.IsReliable
  order : ∃ drained, s.accepted = s.dequeued ++ drained ++ s.queue.values ∧
    (¬ s.task.Shut → drained = [])

theorem fifo_new {o : Outgoing P} (h : o.IsReliable) : (new o).Fifo :=
  ⟨h, [], by simp [new], fun _ => rfl⟩

theorem fifo_step {s : Conn P} (hg : s.Good) (h : s.Fifo) (a : Act P) : (s.step a).Fifo := by
  obtain ⟨drained, horder, hnil⟩ := h.order
  obtain ⟨hrel, ⟨packet, hs, hacc, hdeq, hv⟩ | ⟨packet, evicted, ht, hacc, hdeq, hv, hev⟩ |
    ⟨discarded, hshut, hacc, hdeq, hv, hdis⟩⟩ := moves_step hg a
  · refine ⟨hrel.mpr h.reliable, [], ?_, fun _ => rfl⟩
    simp [hacc, hdeq, horder, hnil hs, ← hv]
  · refine ⟨hrel.mpr h.reliable, drained, ?_, by rw [ht]; exact hnil⟩
    rw [hev h.reliable, List.nil_append] at hv
    simp [hacc, hdeq, hv, horder]
  · refine ⟨hrel.mpr h.reliable, drained ++ discarded, ?_, fun hs' => ?_⟩
    · simp [hacc, hdeq, horder, ← hv]
    · rw [hnil fun hs => hs' (hshut hs), hdis hs', List.append_nil]

end Conn

/-- What the writer's task has to do with the packets it dequeues: it is between
two of them, has one to write, or will write none any more. -/
inductive Phase (P : Type*)
  | idle
  | holding (packet : P)
  | off

def Task.phase {P : Type*} : Task P → Phase P
  | unstarted => .idle
  | parked .receiving => .idle
  | polled .receiving => .idle
  | written _ (.ok ()) => .idle
  | dequeued packet => .holding packet
  | parked (.writing packet) => .holding packet
  | polled (.writing packet) => .holding packet
  | _ => .off

namespace Conn

variable {P : Type*}

/-- A step of the task between the writes. -/
def Paces (s s' : Conn P) : Prop :=
  s'.task.phase = s.task.phase ∧ s'.dequeued = s.dequeued ∨
  s'.task.phase = .off ∧ s'.dequeued = s.dequeued ∨
  ∃ packet, s.task.phase = .idle ∧ s'.task.phase = .holding packet ∧
    s'.dequeued = s.dequeued ++ [packet]

theorem paces_interrupt (s : Conn P) (stage : Stage P) : s.Paces (s.interrupt stage) := by
  cases stage with
  | receiving => exact Or.inr (Or.inl ⟨rfl, rfl⟩)
  | writing packet => exact Or.inr (Or.inl ⟨rfl, rfl⟩)

theorem paces_advance (s : Conn P) : s.Paces s.advance := by
  cases ht : s.task with
  | polled stage =>
    cases stage with
    | receiving =>
      simp only [advance, ht]
      split
      · rename_i packet _ _
        exact Or.inr (Or.inr ⟨packet, by rw [ht]; rfl, rfl, rfl⟩)
      · exact Or.inr (Or.inl ⟨rfl, rfl⟩)
      · exact Or.inl ⟨by rw [ht]; rfl, rfl⟩
    | writing packet => exact Or.inl (by simp [advance, ht])
  | dequeued packet =>
    simp only [advance, ht]
    split
    · exact paces_interrupt s _
    · exact Or.inl ⟨by rw [ht]; rfl, rfl⟩
  | written packet result =>
    simp only [advance, ht]
    split
    · exact Or.inl ⟨by rw [ht]; rfl, rfl⟩
    · exact Or.inr (Or.inl ⟨rfl, rfl⟩)
  | draining n =>
    refine Or.inr (Or.inl ?_)
    cases n with
    | zero =>
      simp only [advance, ht]
      split <;> exact ⟨rfl, rfl⟩
    | succ n => simp [advance, ht, Task.phase]
  | breaking pending => exact Or.inr (Or.inl (by simp [advance, ht, Task.phase]))
  | left => exact Or.inr (Or.inl (by simp [advance, ht, Task.phase]))
  | closing => exact Or.inr (Or.inl (by simp [advance, ht, Task.phase]))
  | drained => exact Or.inr (Or.inl (by simp [advance, ht, Task.phase]))
  | unstarted => exact Or.inl (by simp [advance, ht])
  | parked stage => exact Or.inl (by simp [advance, ht])
  | gone => exact Or.inl (by simp [advance, ht])

/-- Every step but the return of a write is one between the writes. -/
theorem paces_step (s : Conn P) (a : Act P) (ha : ∀ result, a ≠ .write result) :
    s.Paces (s.step a) := by
  have hsame : s.Paces s := Or.inl ⟨rfl, rfl⟩
  by_cases hcaller : a.ofCaller = true
  · have hk := keeps_of_caller s hcaller
    exact Or.inl ⟨by rw [hk.task], hk.dequeued⟩
  cases a with
  | poll =>
    simp only [step, poll]
    split
    · rename_i ht
      split
      · exact paces_interrupt s _
      · exact Or.inl ⟨by rw [ht]; rfl, rfl⟩
    · rename_i stage ht
      split
      · exact paces_interrupt s _
      · exact Or.inl ⟨by rw [ht]; cases stage <;> rfl, rfl⟩
    · exact hsame
  | pend =>
    simp only [step, pend]
    split
    · rename_i stage ht
      exact Or.inl ⟨by rw [ht]; cases stage <;> rfl, rfl⟩
    · exact hsame
  | write result => exact absurd rfl (ha result)
  | abort =>
    simp only [step, abort]
    split
    · exact Or.inr (Or.inl ⟨rfl, rfl⟩)
    · exact paces_interrupt s _
    · exact hsame
  | advance => exact paces_advance s
  | _ => exact absurd rfl hcaller

/-- The packets dequeued are the first of those accepted. -/
theorem Fifo.dequeued {s : Conn P} (h : s.Fifo) : s.dequeued <+: s.accepted := by
  obtain ⟨drained, horder, -⟩ := h.order
  exact ⟨drained ++ s.queue.values, by rw [horder, List.append_assoc]⟩

end Conn

end Slinet
