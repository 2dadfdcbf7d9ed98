/-
# What the writer reports

`send_packets` publishes the error that ends it on a one-shot channel before
it drops anything, then drops its future and with it the sender of the
channel, and only then the guard that cancels the token. So what the channel
says is tied to the log and to the token (`Conn.Reports`), and no later step
undoes it (`Conn.Frame`).
-/
import Slinet.Connection

namespace Slinet

variable {P : Type*}

def Fate.error? : Fate → Option IoError
  | finished (.error err) => some err
  | _ => none

/-- The loop of `send_packets` is not left. -/
def Task.Running : Task P → Prop
  | unstarted => True
  | parked _ => True
  | polled _ => True
  | dequeued _ => True
  | written _ _ => True
  | _ => False

namespace Conn

/-- The error with which `write.send` failed. -/
def failure (s : Conn P) : Option IoError := s.log.findSome? fun x => x.1.error?

/-- **What the one-shot channel says.** Its sender holds a failure as soon as
there is one, and goes without a value only once the token is cancelled or no
handle of the queue is left. -/
structure Reports (s : Conn P) : Prop where
  running : s.task.Running → s.sendError = .waiting
  stopped : ¬ s.task.Running → s.sendError = .waiting → s.token = true ∨ s.queue.senders = 0
  unsaid : s.sendError = .waiting ∨ s.sendError = .dropped → s.failure = none
  sent : ∀ e, s.sendError = .sent e → s.failure = some e
  taken : s.sendError = .taken → ∃ e, s.failure = some e
  dropped : s.sendError = .dropped → s.token = true ∨ s.queue.senders = 0
  receiving : ¬ s.task.Shut → s.queue.receiverOpen = true

theorem reports_new {o : Outgoing P} (ho : o.receiverOpen = true) : (new o).Reports :=
  ⟨fun _ => rfl, fun h => absurd trivial h, fun _ => rfl, fun _ h => (by cases h),
    fun h => (by cases h), fun h => (by cases h), fun _ => ho⟩

theorem failure_append {l : List (Fate × P)} (added : List (Fate × P))
    (h : ∀ x ∈ added, x.1.error? = none) :
    (l ++ added).findSome? (fun x => x.1.error?) = l.findSome? fun x => x.1.error? := by
  rw [List.findSome?_append]
  have hnone : added.findSome? (fun x => x.1.error?) = none := List.findSome?_eq_none_iff.mpr h
  rw [hnone, Option.or_none]

/-- Steps of others keep what the writer reports. -/
theorem Reports.mono {s s' : Conn P} (h : s.Reports) (ht : s'.task = s.task)
    (he : s'.sendError = s.sendError) (hf : s'.failure = s.failure)
    (htok : s.token = true → s'.token = true)
    (hs : s.queue.senders = 0 → s'.queue.senders = 0)
    (ho : s'.queue.receiverOpen = s.queue.receiverOpen) : s'.Reports := by
  refine ⟨?_, ?_, ?_, ?_, ?_, ?_, ?_⟩
  · rw [ht, he]; exact h.running
  · rw [ht, he]; exact fun hr hw => (h.stopped hr hw).imp htok hs
  · rw [he, hf]; exact h.unsaid
  · rw [he, hf]; exact h.sent
  · rw [he, hf]; exact h.taken
  · rw [he]; exact fun hd => (h.dropped hd).imp htok hs
  · rw [ht, ho]; exact h.receiving

/-- The task moves, and has not published. -/
theorem Reports.goto {s s' : Conn P} (h : s.Reports) (he : s'.sendError = s.sendError)
    (hf : s'.failure = s.failure) (hrun : s'.task.Running → s.task.Running)
    (hstop : ¬ s'.task.Running → s.sendError = .waiting → s'.token = true ∨ s'.queue.senders = 0)
    (htok : s.token = true → s'.token = true) (hs : s.queue.senders = 0 → s'.queue.senders = 0)
    (hopen : ¬ s'.task.Shut → s'.queue.receiverOpen = true) : s'.Reports := by
  refine ⟨?_, ?_, ?_, ?_, ?_, ?_, hopen⟩
  · rw [he]; exact fun hr => h.running (hrun hr)
  · rw [he]; exact hstop
  · rw [he, hf]; exact h.unsaid
  · rw [he, hf]; exact h.sent
  · rw [he, hf]; exact h.taken
  · rw [he]; exact fun hd => (h.dropped hd).imp htok hs

theorem reports_send {s : Conn P} (h : s.Reports) (packet : P) : (s.send packet).Reports := by
  unfold send
  split
  · exact h
  split
  · refine h.mono rfl rfl ?_ id id rfl
    exact failure_append [(.closed, packet)] (by simp [Fate.error?])
  · exact h.mono rfl rfl rfl id id rfl

theorem reports_proceed {s : Conn P} (h : s.Reports) (k : ℕ) : (s.proceed k).Reports := by
  unfold proceed
  split
  · exact h
  · rename_i packet hk
    rcases s.queue.start_spec packet with
      ⟨evicted, o', he, ho, ho', hs, -⟩ | ⟨o', he, ho, ho', hs, -⟩ | ⟨he, -⟩ | ⟨he, -⟩
    · rw [he]
      refine h.mono rfl rfl (failure_append _ ?_) id (fun h0 => hs.trans h0) (by rw [ho, ho'])
      intro x hx
      obtain ⟨packet, -, rfl⟩ := List.mem_map.mp hx
      rfl
    · rw [he]
      exact h.mono rfl rfl rfl id (fun h0 => hs.trans h0) (by rw [ho, ho'])
    · rw [he]
      refine h.mono rfl rfl ?_ id id rfl
      exact failure_append [(.closed, packet)] (by simp [Fate.error?])
    · rw [he]
      exact h.mono rfl rfl rfl id id rfl
  · rename_i packet hk
    rcases s.queue.publish_spec packet with ⟨o', he, ho, hs, -⟩ | he
    · rw [he]
      exact h.mono rfl rfl rfl id (fun h0 => hs.trans h0) ho
    · rw [he]
      exact h
  · rename_i packet hk
    refine h.mono rfl rfl ?_ id id rfl
    exact failure_append [(.full, packet)] (by simp [Fate.error?])
  · exact h.mono rfl rfl rfl id id rfl
  · exact h.mono rfl rfl rfl id id rfl

theorem reports_clone {s : Conn P} (h : s.Reports) : s.clone.Reports := by
  unfold clone
  split
  · exact h
  · rename_i hs
    exact h.mono rfl rfl rfl id (fun h0 => absurd h0 hs) (by simp)

theorem reports_dropSender {s : Conn P} (h : s.Reports) : s.dropSender.Reports := by
  unfold dropSender
  split
  · exact h
  · refine h.mono rfl rfl rfl id (fun h0 => ?_) (by simp)
    simp [h0]

/-- The task is stopped where it waits, which happens under a cancelled token. -/
theorem reports_interrupt {s : Conn P} (h : s.Reports) (stage : Stage P) (htok : s.token = true)
    (hshut : ¬ s.task.Shut) : (s.interrupt stage).Reports := by
  cases stage with
  | receiving =>
    exact h.goto rfl rfl (fun hr => hr.elim) (fun _ _ => Or.inl htok) id id
      (fun _ => h.receiving hshut)
  | writing packet =>
    refine h.goto rfl ?_ (fun hr => hr.elim) (fun _ _ => Or.inl htok) id id
      (fun _ => h.receiving hshut)
    exact failure_append [(.interrupted, packet)] (by simp [Fate.error?])

/-- A running task stays running. -/
theorem Reports.run {s : Conn P} (h : s.Reports) {task : Task P} (hs : s.task.Running)
    (ht : task.Running) (hshut : ¬ s.task.Shut) : Reports { s with task := task } :=
  h.goto rfl rfl (fun _ => hs) (fun hr => absurd ht hr) id id (fun _ => h.receiving hshut)

theorem reports_poll {s : Conn P} (h : s.Reports) : s.poll.Reports := by
  unfold poll
  split
  · rename_i ht
    split
    · rename_i htok
      exact reports_interrupt h .receiving htok (by rw [ht]; exact fun hs => hs)
    · exact h.run (by rw [ht]; trivial) trivial (by rw [ht]; exact fun hs => hs)
  · rename_i stage ht
    split
    · rename_i htok
      exact reports_interrupt h stage htok (by rw [ht]; exact fun hs => hs)
    · exact h.run (by rw [ht]; trivial) trivial (by rw [ht]; exact fun hs => hs)
  · exact h

theorem reports_pend {s : Conn P} (h : s.Reports) : s.pend.Reports := by
  unfold pend
  split
  · rename_i stage ht
    exact h.run (by rw [ht]; trivial) trivial (by rw [ht]; exact fun hs => hs)
  · exact h

theorem reports_write {s : Conn P} (h : s.Reports) (result : Except IoError Unit) :
    (s.write result).Reports := by
  unfold write
  split
  · rename_i packet ht
    exact h.run (by rw [ht]; trivial) trivial (by rw [ht]; exact fun hs => hs)
  · exact h

theorem reports_abort {s : Conn P} (h : s.Reports) (htok : s.token = true) : s.abort.Reports := by
  unfold abort
  split
  · rename_i ht
    exact h.goto rfl rfl (fun hr => hr.elim) (fun _ _ => Or.inl htok) id id
      (fun _ => h.receiving (by rw [ht]; exact fun hs => hs))
  · rename_i stage ht
    exact reports_interrupt h stage htok (by rw [ht]; exact fun hs => hs)
  · exact h

/-- The result of a write: an error is published before anything else. -/
theorem reports_written {s : Conn P} (h : s.Reports) {packet : P} {result : Except IoError Unit}
    (ht : s.task = .written packet result) : s.advance.Reports := by
  have hw : s.sendError = .waiting := h.running (by rw [ht]; trivial)
  have hopen : s.queue.receiverOpen = true := h.receiving (by rw [ht]; exact fun hs => hs)
  cases result with
  | ok =>
    simp only [advance, ht]
    refine h.goto rfl ?_ (fun _ => by rw [ht]; trivial) (fun hr => absurd trivial hr) id id
      (fun _ => hopen)
    exact failure_append [(.finished (.ok ()), packet)] (by simp [Fate.error?])
  | error err =>
    simp only [advance, ht]
    have hf : (s.log ++ [(Fate.finished (.error err), packet)]).findSome? (fun x => x.1.error?) =
        some err := by
      rw [List.findSome?_append, show s.log.findSome? _ = none from h.unsaid (Or.inl hw)]
      rfl
    rw [hw]
    refine ⟨fun hr => hr.elim, fun _ hb => (by cases hb), fun hb => (by rcases hb with hb | hb <;> cases hb),
      ?_, ?_, ?_, fun _ => hopen⟩
    · intro e he
      cases he
      exact hf
    · intro hb
      cases hb
    · intro hb
      cases hb

/-- The sender of the one-shot channel is dropped. -/
theorem Reports.release {s s' : Conn P} (h : s.Reports) (hrun : ¬ s.task.Running)
    (hrun' : ¬ s'.task.Running) (he : s'.sendError = s.sendError.dropSender)
    (hf : s'.failure = s.failure) (htok : s'.token = s.token)
    (hs : s'.queue.senders = s.queue.senders)
    (hopen : ¬ s'.task.Shut → s'.queue.receiverOpen = true) : s'.Reports := by
  have hstop := h.stopped hrun
  have hnone := h.unsaid
  have hsent := h.sent
  have htaken := h.taken
  have hdrop := h.dropped
  cases hb : s.sendError with
  | waiting =>
    simp only [hb, Oneshot.dropSender] at he
    refine ⟨fun hr => absurd hr hrun', ?_, ?_, ?_, ?_, ?_, hopen⟩ <;>
      simp [he, htok, hs, hf, hnone (Or.inl hb), hstop hb]
  | sent e =>
    simp only [hb, Oneshot.dropSender] at he
    refine ⟨fun hr => absurd hr hrun', ?_, ?_, ?_, ?_, ?_, hopen⟩ <;> simp [he, hf, hsent e hb]
  | taken =>
    simp only [hb, Oneshot.dropSender] at he
    refine ⟨fun hr => absurd hr hrun', ?_, ?_, ?_, ?_, ?_, hopen⟩ <;> simp [he, hf, htaken hb]
  | dropped =>
    simp only [hb, Oneshot.dropSender] at he
    refine ⟨fun hr => absurd hr hrun', ?_, ?_, ?_, ?_, ?_, hopen⟩ <;>
      simp [he, htok, hs, hf, hnone (Or.inr hb), hdrop hb]

theorem reports_advance {s : Conn P} (h : s.Reports) : s.advance.Reports := by
  cases ht : s.task with
  | unstarted => simpa [advance, ht] using h
  | parked stage => simpa [advance, ht] using h
  | polled stage =>
    cases stage with
    | receiving =>
      have hopen : s.queue.receiverOpen = true := h.receiving (by rw [ht]; exact fun hs => hs)
      simp only [advance, ht]
      rcases s.queue.recv_spec with ⟨packet, o', he, -, ho, hs, -⟩ | ⟨e, he, -, hdis⟩
      · rw [he]
        exact h.goto rfl rfl (fun _ => by rw [ht]; trivial) (fun hr => absurd trivial hr) id
          (fun h0 => hs.trans h0) (fun _ => ho.trans hopen)
      · rw [he]
        cases e with
        | disconnected =>
          have hnone : s.queue.senders = 0 := (hdis rfl).resolve_right (by simp [hopen])
          exact h.goto rfl rfl (fun hr => hr.elim) (fun _ _ => Or.inr hnone) id id (fun _ => hopen)
        | empty => exact h.run (by rw [ht]; trivial) trivial (by rw [ht]; exact fun hs => hs)
    | writing packet => simpa [advance, ht] using h
  | dequeued packet =>
    simp only [advance, ht]
    split
    · rename_i htok
      exact reports_interrupt h _ htok (by rw [ht]; exact fun hs => hs)
    · exact h.run (by rw [ht]; trivial) trivial (by rw [ht]; exact fun hs => hs)
  | written packet result => exact reports_written h ht
  | breaking pending =>
    simp only [advance, ht]
    exact h.release (by rw [ht]; exact fun hr => hr) (fun hr => hr) rfl rfl rfl rfl
      (fun _ => h.receiving (by rw [ht]; exact fun hs => hs))
  | left =>
    simp only [advance, ht]
    exact h.goto rfl rfl (fun hr => hr.elim) (fun _ _ => Or.inl rfl) (fun _ => rfl) id
      (fun _ => h.receiving (by rw [ht]; exact fun hs => hs))
  | closing =>
    simp only [advance, ht]
    refine h.goto rfl (failure_append _ ?_) (fun hr => hr.elim)
      (fun _ hw => ?_) id (fun h0 => s.queue.close_spec.2.2.1.trans h0) (fun hs => absurd trivial hs)
    · intro x hx
      obtain ⟨packet, -, rfl⟩ := List.mem_map.mp hx
      rfl
    · rw [s.queue.close_spec.2.2.1]
      exact h.stopped (by rw [ht]; exact fun hr => hr) hw
  | draining n =>
    have hstop := h.stopped (by rw [ht]; exact fun hr => hr)
    cases n with
    | succ n =>
      simp only [advance, ht]
      exact h.goto rfl rfl (fun hr => hr.elim) (fun _ => hstop) id id (fun hs => absurd trivial hs)
    | zero =>
      have hsend := s.queue.senders_drainOne
      simp only [advance, ht]
      split
      · rename_i packet o' he
        rw [he] at hsend
        refine h.goto rfl ?_ (fun hr => hr.elim) (fun _ hw => ?_) id (fun h0 => hsend.trans h0)
          (fun hs => absurd trivial hs)
        · exact failure_append [(.drained, packet)] (by simp [Fate.error?])
        · exact (hstop hw).imp id fun h0 => hsend.trans h0
      · rename_i o' he
        rw [he] at hsend
        exact h.goto rfl rfl (fun hr => hr.elim) (fun _ hw => (hstop hw).imp id fun h0 => hsend.trans h0)
          id (fun h0 => hsend.trans h0) (fun hs => absurd trivial hs)
  | drained =>
    simp only [advance, ht]
    refine h.release (by rw [ht]; exact fun hr => hr) (fun hr => hr) rfl (failure_append _ ?_) rfl
      s.queue.dropInner_spec.2.2.2.1 (fun hs => absurd trivial hs)
    intro x hx
    obtain ⟨packet, -, rfl⟩ := List.mem_map.mp hx
    rfl
  | gone => simpa [advance, ht] using h

theorem reports_step {s : Conn P} (h : s.Reports) (a : Act P) (ha : a = .abort → s.token = true) :
    (s.step a).Reports := by
  cases a with
  | send packet => exact reports_send h packet
  | proceed k => exact reports_proceed h k
  | clone => exact reports_clone h
  | dropSender => exact reports_dropSender h
  | disconnect => exact h.mono rfl rfl rfl (fun _ => rfl) id rfl
  | poll => exact reports_poll h
  | pend => exact reports_pend h
  | write result => exact reports_write h result
  | abort => exact reports_abort h (ha rfl)
  | advance => exact reports_advance h

/-- What no step of the sending side undoes, the drop of a handle apart, and
that none takes the value from the one-shot channel. -/
structure Frame (s s' : Conn P) : Prop where
  log : s.log <+: s'.log
  token : s.token = true → s'.token = true
  taken : s'.sendError = .taken ↔ s.sendError = .taken
  senders : s.queue.senders ≤ s'.queue.senders

theorem frame_refl (s : Conn P) : Frame s s := ⟨List.prefix_refl _, id, Iff.rfl, le_rfl⟩

/-- The task moves and nothing else happens. -/
theorem frame_goto (s : Conn P) (task : Task P) : Frame s { s with task := task } :=
  ⟨List.prefix_refl _, id, Iff.rfl, le_rfl⟩

theorem taken_dropSender (o : Oneshot) : o.dropSender = .taken ↔ o = .taken := by
  cases o <;> simp [Oneshot.dropSender]

theorem taken_publish (o : Oneshot) (e : IoError) : o.publish e = .taken ↔ o = .taken := by
  cases o <;> simp [Oneshot.publish]

theorem frame_interrupt (s : Conn P) (stage : Stage P) : Frame s (s.interrupt stage) := by
  cases stage with
  | receiving => exact frame_goto s _
  | writing packet => exact ⟨List.prefix_append _ _, id, Iff.rfl, le_rfl⟩

theorem frame_proceed (s : Conn P) (k : ℕ) : Frame s (s.proceed k) := by
  unfold proceed
  split
  · exact frame_refl s
  · rename_i packet hk
    rcases s.queue.start_spec packet with
      ⟨evicted, o', he, -, -, hs, -⟩ | ⟨o', he, -, -, hs, -⟩ | ⟨he, -⟩ | ⟨he, -⟩
    · rw [he]
      exact ⟨List.prefix_append _ _, id, Iff.rfl, hs.ge⟩
    · rw [he]
      exact ⟨List.prefix_refl _, id, Iff.rfl, hs.ge⟩
    · rw [he]
      exact ⟨List.prefix_append _ _, id, Iff.rfl, le_rfl⟩
    · rw [he]
      exact ⟨List.prefix_refl _, id, Iff.rfl, le_rfl⟩
  · rename_i packet hk
    rcases s.queue.publish_spec packet with ⟨o', he, -, hs, -⟩ | he
    · rw [he]
      exact ⟨List.prefix_refl _, id, Iff.rfl, hs.ge⟩
    · rw [he]
      exact frame_refl s
  · exact ⟨List.prefix_append _ _, id, Iff.rfl, le_rfl⟩
  · exact ⟨List.prefix_refl _, id, Iff.rfl, le_rfl⟩
  · exact ⟨List.prefix_refl _, id, Iff.rfl, le_rfl⟩

theorem frame_recv (s : Conn P) (ht : s.task = .polled .receiving) : Frame s s.advance := by
  simp only [advance, ht]
  rcases s.queue.recv_spec with ⟨packet, o', he, -, -, hs, -⟩ | ⟨e, he, -⟩
  · rw [he]
    exact ⟨List.prefix_refl _, id, Iff.rfl, hs.ge⟩
  · rw [he]
    cases e with
    | disconnected => exact frame_goto s _
    | empty => exact frame_goto s _

theorem frame_advance (s : Conn P) : Frame s s.advance := by
  cases ht : s.task with
  | polled stage =>
    cases stage with
    | receiving => exact frame_recv s ht
    | writing packet =>
      simp only [advance, ht]
      exact frame_refl s
  | dequeued packet =>
    simp only [advance, ht]
    split
    · exact frame_interrupt s _
    · exact frame_goto s _
  | written packet result =>
    cases result with
    | ok =>
      simp only [advance, ht]
      exact ⟨List.prefix_append _ _, id, Iff.rfl, le_rfl⟩
    | error err =>
      simp only [advance, ht]
      exact ⟨List.prefix_append _ _, id, taken_publish _ _, le_rfl⟩
  | breaking pending =>
    simp only [advance, ht]
    exact ⟨List.prefix_refl _, id, taken_dropSender _, le_rfl⟩
  | left =>
    simp only [advance, ht]
    exact ⟨List.prefix_refl _, fun _ => rfl, Iff.rfl, le_rfl⟩
  | closing =>
    simp only [advance, ht]
    exact ⟨List.prefix_append _ _, id, Iff.rfl, s.queue.close_spec.2.2.1.ge⟩
  | draining n =>
    cases n with
    | zero =>
      have hs := s.queue.senders_drainOne
      simp only [advance, ht]
      split
      · rename_i he
        rw [he] at hs
        exact ⟨List.prefix_append _ _, id, Iff.rfl, hs.ge⟩
      · rename_i he
        rw [he] at hs
        exact ⟨List.prefix_refl _, id, Iff.rfl, hs.ge⟩
    | succ n =>
      simp only [advance, ht]
      exact ⟨List.prefix_refl _, id, Iff.rfl, le_rfl⟩
  | drained =>
    simp only [advance, ht]
    exact ⟨List.prefix_append _ _, id, taken_dropSender _, s.queue.dropInner_spec.2.2.2.1.ge⟩
  | _ =>
    simp only [advance, ht]
    exact frame_refl s

theorem frame_step (s : Conn P) (a : Act P) (ha : a ≠ .dropSender) : Frame s (s.step a) := by
  cases a with
  | send packet =>
    simp only [step, send]
    split
    · exact frame_refl s
    split
    · exact ⟨List.prefix_append _ _, id, Iff.rfl, le_rfl⟩
    · exact ⟨List.prefix_refl _, id, Iff.rfl, le_rfl⟩
  | proceed k => exact frame_proceed s k
  | clone =>
    simp only [step, clone]
    split
    · exact frame_refl s
    · exact ⟨List.prefix_refl _, id, Iff.rfl, by simp⟩
  | dropSender => exact absurd rfl ha
  | disconnect => exact ⟨List.prefix_refl _, fun _ => rfl, Iff.rfl, le_rfl⟩
  | poll =>
    simp only [step, poll]
    split
    · split
      · exact frame_interrupt s _
      · exact frame_goto s _
    · split
      · exact frame_interrupt s _
      · exact frame_goto s _
    · exact frame_refl s
  | pend =>
    simp only [step, pend]
    split
    · exact frame_goto s _
    · exact frame_refl s
  | write result =>
    simp only [step, write]
    split
    · exact frame_goto s _
    · exact frame_refl s
  | abort =>
    simp only [step, abort]
    split
    · exact frame_goto s _
    · exact frame_interrupt s _
    · exact frame_refl s
  | advance => exact frame_advance s

/-- No step undoes the cancellation. -/
theorem token_step (s : Conn P) (a : Act P) (h : s.token = true) : (s.step a).token = true := by
  by_cases ha : a = .dropSender
  · subst ha
    simp only [step, dropSender]
    split
    · exact h
    · exact h
  · exact (frame_step s a ha).token h

/-- Only its drop guard cancels the token for the writer. -/
theorem token_advance (s : Conn P) (h : s.token = false) (h' : s.advance.token = true) :
    s.task = .left := by
  cases ht : s.task with
  | left => rfl
  | polled stage =>
    cases stage with
    | receiving =>
      simp only [advance, ht] at h'
      split at h' <;> simp [h] at h'
    | writing packet => simp [advance, ht, h] at h'
  | written packet result => cases result <;> simp [advance, ht, h] at h'
  | draining n =>
    cases n with
    | zero =>
      simp only [advance, ht] at h'
      split at h' <;> simp [h] at h'
    | succ n => simp [advance, ht, h] at h'
  | _ => simp [advance, ht, h] at h'

/-- A failure stays the failure. -/
theorem Frame.failure {s s' : Conn P} (h : Frame s s') {e : IoError} (hf : s.failure = some e) :
    s'.failure = some e := by
  obtain ⟨added, hlog⟩ := h.log
  rw [Conn.failure, ← hlog, List.findSome?_append, show s.log.findSome? _ = some e from hf]
  rfl

end Conn
end Slinet
