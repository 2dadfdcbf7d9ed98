/-
# What the drop of the outgoing queue counts

`OutgoingReceiver::drop` (`src/connection/queue/mod.rs`) closes the channel of a
stream connection, takes packets from it until `try_recv` finds none, and counts
each on the transport handle; `src/connection/parts.rs` says that it "accounts
for undelivered packets". A call of `try_send` that has a slot in the channel
and has not published its packet is not waited for: `try_recv` answers `Empty`,
the loop ends, and the drop of tokio's receiver discards what is published in
the meantime. `send` has returned `Ok`, and the packet has no record
(`published_after_drain`). A lossy queue has no such gap, since both sides hold
its lock.

The packets with no record are those in `Conn.late`, in every run. So the
accounting is kept in every run in which no packet is published after the drain,
and at the end of the receiver only in these (`passed_perm_places`).
-/
import Slinet.Fifo

namespace Slinet

namespace Conn

variable {P : Type*}

/-- No call and no drop is under way. -/
def Settled (s : Conn P) : Prop :=
  s.calls = [] ∧ (∀ packet, s.task ≠ .breaking (some packet)) ∧ ∀ n, s.task ≠ .draining n

theorem owed_of_settled {s : Conn P} (h : s.Settled) : s.owed = [] := by
  obtain ⟨hcalls, htask⟩ := h
  have hnil : s.task.owed = [] := by
    cases ht : s.task with
    | breaking pending =>
      cases pending with
      | none => rfl
      | some packet => exact absurd ht (htask.1 packet)
    | draining n => exact absurd ht (htask.2 n)
    | _ => rfl
  simp [owed, hcalls, hnil]

/-- The packets passed to `send` are those of the calls in progress, those
queued, those with the writer and those that have a fate; the handle has
received, up to what the calls and drops under way still owe, exactly the
records that the fates ask for; and no packet was discarded without a fate that
has one, in the queue or behind its receiver. -/
structure Accounted (s : Conn P) : Prop where
  places : s.passed.Perm (s.calling ++ s.queue.values ++ s.task.inFlight ++ s.log.map Prod.snd)
  records : (s.records ++ s.owed).Perm (s.log.filterMap fun x => x.1.record)
  settled : s.Settled → s.records.Perm (s.log.filterMap fun x => x.1.record)
  kept : ∀ x ∈ s.log, x.1 ≠ .lost
  empty : s.task = .gone → s.queue.values = []

/-! ### The packets published too late -/

/-- The step publishes a packet when the drain of the queue is over. -/
def publishesLate (s : Conn P) : Act P → Bool
  | .proceed k =>
    match s.calls[k]? with
    | some (.reserved _) => s.task.isOver
    | _ => false
  | _ => false

/-- The condition on a step. -/
def InTime (s : Conn P) (a : Act P) : Prop := s.publishesLate a = false

instance (s : Conn P) (a : Act P) : Decidable (s.InTime a) :=
  inferInstanceAs (Decidable (_ = _))

/-- Only a channel has slots. -/
def Slotted (s : Conn P) : Prop := ∀ packet, .reserved packet ∈ s.calls → s.queue.IsReliable

theorem slotted_new (o : Outgoing P) : (new o).Slotted := fun _ h => by cases h

theorem task_interrupt (s : Conn P) (stage : Stage P) :
    (s.interrupt stage).calls = s.calls ∧ (s.interrupt stage).late = s.late := by
  cases stage with
  | receiving => exact ⟨rfl, rfl⟩
  | writing packet => exact ⟨rfl, rfl⟩

/-- The task has no part in the calls. -/
theorem task_advance (s : Conn P) : s.advance.calls = s.calls ∧ s.advance.late = s.late := by
  unfold advance
  split
  · split
    · exact ⟨rfl, rfl⟩
    · exact ⟨rfl, rfl⟩
    · exact ⟨rfl, rfl⟩
  · split
    · exact task_interrupt s _
    · exact ⟨rfl, rfl⟩
  · split
    · exact ⟨rfl, rfl⟩
    · exact ⟨rfl, rfl⟩
  · exact ⟨rfl, rfl⟩
  · exact ⟨rfl, rfl⟩
  · exact ⟨rfl, rfl⟩
  · exact ⟨rfl, rfl⟩
  · split
    · exact ⟨rfl, rfl⟩
    · exact ⟨rfl, rfl⟩
  · exact ⟨rfl, rfl⟩
  · exact ⟨rfl, rfl⟩

theorem task_step (s : Conn P) {a : Act P} (ha : a.ofCaller = false) :
    (s.step a).calls = s.calls ∧ (s.step a).late = s.late := by
  cases a with
  | poll =>
    simp only [step, poll]
    split
    · split
      · exact task_interrupt s _
      · exact ⟨rfl, rfl⟩
    · split
      · exact task_interrupt s _
      · exact ⟨rfl, rfl⟩
    · exact ⟨rfl, rfl⟩
  | pend =>
    simp only [step, pend]
    split
    · exact ⟨rfl, rfl⟩
    · exact ⟨rfl, rfl⟩
  | write result =>
    simp only [step, write]
    split
    · exact ⟨rfl, rfl⟩
    · exact ⟨rfl, rfl⟩
  | abort =>
    simp only [step, abort]
    split
    · exact ⟨rfl, rfl⟩
    · exact task_interrupt s _
    · exact ⟨rfl, rfl⟩
  | advance => exact task_advance s
  | _ => cases ha

/-- A call has a slot when it has looked at a channel that had one for it. -/
theorem reserved_proceed {s : Conn P} {k : ℕ} {packet : P}
    (h : .reserved packet ∈ (s.proceed k).calls) : .reserved packet ∈ s.calls ∨ s.queue.IsReliable := by
  have hset : ∀ call : Call P, call ≠ .reserved packet → .reserved packet ∈ s.calls.set k call →
      .reserved packet ∈ s.calls := by
    intro call hne hmem
    rcases List.mem_or_eq_of_mem_set hmem with hmem | hmem
    · exact hmem
    · exact absurd hmem.symm hne
  unfold proceed at h
  split at h
  · exact Or.inl h
  · rename_i packet' hk
    rcases s.queue.start_spec packet' with
      ⟨evicted, queue, he, -⟩ | ⟨queue, he, -, -, -, -, -, hrel⟩ | ⟨he, -⟩ | ⟨he, -⟩
    · rw [he] at h
      exact Or.inl (hset _ (by simp) h)
    · exact Or.inr hrel
    · rw [he] at h
      exact Or.inl (List.mem_of_mem_eraseIdx h)
    · rw [he] at h
      exact Or.inl (hset _ (by simp) h)
  · split at h
    · exact Or.inl (hset _ (by simp) h)
    · exact Or.inl h
  · exact Or.inl (List.mem_of_mem_eraseIdx h)
  · exact Or.inl (List.mem_of_mem_eraseIdx h)
  · exact Or.inl (hset _ (by simp) h)

theorem slotted_step {s : Conn P} (hg : s.Good) (h : s.Slotted) (a : Act P) : (s.step a).Slotted := by
  intro packet hmem
  rw [(moves_step hg a).1]
  by_cases hcaller : a.ofCaller = true
  · cases a with
    | proceed k =>
      rcases reserved_proceed hmem with hmem | hrel
      · exact h packet hmem
      · exact hrel
    | send packet' =>
      simp only [step, send] at hmem
      split at hmem
      · exact h packet hmem
      split at hmem
      · exact h packet hmem
      · rcases List.mem_append.mp hmem with hmem | hmem
        · exact h packet hmem
        · cases List.mem_singleton.mp hmem
    | clone =>
      simp only [step, clone] at hmem
      split at hmem
      · exact h packet hmem
      · exact h packet hmem
    | dropSender =>
      simp only [step, dropSender] at hmem
      split at hmem
      · exact h packet hmem
      · exact h packet hmem
    | disconnect => exact h packet hmem
    | _ => cases hcaller
  · rw [(task_step s (by simpa using hcaller)).1] at hmem
    exact h packet hmem

/-- A call that has a slot publishes its packet, in time or too late. -/
theorem late_reserved {s : Conn P} (h : s.Slotted) {k : ℕ} {packet : P}
    (hk : s.calls[k]? = some (.reserved packet)) :
    s.InTime (.proceed k) ∧ (s.proceed k).late = s.late ∨
      ¬ s.InTime (.proceed k) ∧ (s.proceed k).late = s.late ++ [packet] := by
  obtain ⟨o', he⟩ : ∃ o', s.queue.publish packet = some o' := by
    have hrel := h packet (List.mem_of_getElem? hk)
    cases hq : s.queue with
    | reliable ch => exact ⟨_, rfl⟩
    | lossy q queue =>
      rw [hq] at hrel
      exact hrel.elim
  by_cases hover : s.task.isOver = true
  · refine Or.inr ⟨?_, ?_⟩
    · simp [InTime, publishesLate, hk, hover]
    · simp [proceed, hk, he, hover]
  · refine Or.inl ⟨?_, ?_⟩
    · simpa [InTime, publishesLate, hk] using hover
    · simp [proceed, hk, he, hover]

/-- **A step** publishes one packet too late, or none. -/
theorem late_step {s : Conn P} (h : s.Slotted) (a : Act P) :
    s.InTime a ∧ (s.step a).late = s.late ∨
      ¬ s.InTime a ∧ ∃ packet, (s.step a).late = s.late ++ [packet] := by
  cases a with
  | proceed k =>
    cases hk : s.calls[k]? with
    | none => exact Or.inl (by simp [InTime, publishesLate, step, proceed, hk])
    | some call =>
      cases call with
      | checked packet =>
        refine Or.inl ⟨by simp [InTime, publishesLate, hk], ?_⟩
        simp only [step, proceed, hk]
        split
        · rfl
        · rfl
        · rfl
        · rfl
      | reserved packet =>
        rcases late_reserved h hk with hin | ⟨hno, he⟩
        · exact Or.inl hin
        · exact Or.inr ⟨hno, packet, he⟩
      | rejected packet => exact Or.inl (by simp [InTime, publishesLate, step, proceed, hk])
      | evicting n =>
        cases n with
        | zero => exact Or.inl (by simp [InTime, publishesLate, step, proceed, hk])
        | succ n => exact Or.inl (by simp [InTime, publishesLate, step, proceed, hk])
  | send packet =>
    refine Or.inl ⟨rfl, ?_⟩
    simp only [step, send]
    split
    · rfl
    · split <;> rfl
  | clone =>
    refine Or.inl ⟨rfl, ?_⟩
    simp only [step, clone]
    split <;> rfl
  | dropSender =>
    refine Or.inl ⟨rfl, ?_⟩
    simp only [step, dropSender]
    split <;> rfl
  | disconnect => exact Or.inl ⟨rfl, rfl⟩
  | _ => exact Or.inl ⟨rfl, (task_step s rfl).2⟩

/-- A run publishes no packet too late exactly if all its steps are in time. -/
theorem meets_inTime_iff (o : Outgoing P) (as : List (Act P)) :
    Meets step InTime (new o) as ↔ (run step (new o) as).late = [] := by
  refine ⟨fun hmeets => ?_, fun hnil => ?_⟩
  · have hstep : ∀ (s : Conn P) (a : Act P), s.InTime a → (s.Good ∧ s.Slotted) ∧ s.late = [] →
        ((s.step a).Good ∧ (s.step a).Slotted) ∧ (s.step a).late = [] := by
      rintro s a hin ⟨⟨hg, hslot⟩, hlate⟩
      refine ⟨⟨good_step hg a, slotted_step hg hslot a⟩, ?_⟩
      rcases late_step hslot a with ⟨-, he⟩ | ⟨hno, -⟩
      · rw [he, hlate]
      · exact absurd hin hno
    exact (run_inv_of_meets hstep as hmeets ⟨⟨good_new o, slotted_new o⟩, rfl⟩).2
  · refine meets_of_measure (I := fun s : Conn P => s.Good ∧ s.Slotted) (fun s => s.late.length)
      (fun s a hs => ⟨good_step hs.1 a, slotted_step hs.1 hs.2 a⟩) (fun s a hs => ?_)
      (fun s a hs hno => ?_) as ⟨good_new o, slotted_new o⟩ (by simp [hnil])
    · rcases late_step hs.2 a with ⟨-, he⟩ | ⟨-, packet, he⟩
      · rw [he]
      · simp [he]
    · rcases late_step hs.2 a with ⟨hin, -⟩ | ⟨-, packet, he⟩
      · exact absurd hin hno
      · simp [he]

/-! ### The accounting -/

/-- What has no record is what was published too late. -/
theorem Good.kept_of_late {s : Conn P} (h : s.Good) (hlate : s.late = []) :
    (∀ x ∈ s.log, x.1 ≠ .lost) ∧ s.stranded = [] := by
  have hnil : lostIn s.log ++ s.stranded = [] := by
    rw [← List.perm_nil, ← hlate]
    exact h.late
  obtain ⟨hlost, hstranded⟩ := List.append_eq_nil_iff.mp hnil
  refine ⟨fun x hx he => ?_, hstranded⟩
  have hmem : x.2 ∈ lostIn s.log :=
    List.mem_map_of_mem (List.mem_filter.mpr ⟨hx, by rw [he]; rfl⟩)
  rw [hlost] at hmem
  cases hmem

theorem lostIn_eq_nil {log : List (Fate × P)} (h : ∀ x ∈ log, x.1 ≠ .lost) : lostIn log = [] := by
  rw [lostIn, List.map_eq_nil_iff, List.filter_eq_nil_iff]
  intro x hx hlost
  refine h x hx ?_
  cases hf : x.1 with
  | lost => rfl
  | _ => simp [hf, Fate.isLost] at hlost

/-- **Outgoing accounting.** On any queue, after any run in which no packet is
published when the drain of the queue is over, every packet passed to `send` is
in one place and every record that its fate asks for is made, and no other; and
once the receiver is gone, this is so only after such a run. -/
theorem passed_perm_places (o : Outgoing P) (as : List (Act P)) :
    let s := run step (new o) as
    (Meets step InTime (new o) as → s.Accounted) ∧
      (s.task = .gone → s.Accounted → Meets step InTime (new o) as) := by
  intro s
  have h : s.Good := good_run o as
  refine ⟨fun hmeets => ?_, fun hgone hacc => ?_⟩
  · obtain ⟨hkept, hstranded⟩ := h.kept_of_late ((meets_inTime_iff o as).mp hmeets)
    refine ⟨h.places, h.records, fun hs => ?_, hkept, fun hgone => ?_⟩
    · have hrec := h.records
      rwa [owed_of_settled hs, List.append_nil] at hrec
    · simpa [stranded, hgone, Task.isOver] using hstranded
  · have hstranded : s.stranded = [] := by simp [stranded, hgone, Task.isOver, hacc.empty hgone]
    have hlate := h.late
    rw [lostIn_eq_nil hacc.kept, hstranded, List.nil_append] at hlate
    exact (meets_inTime_iff o as).mpr (List.nil_perm.mp hlate)

/-- A call has a slot in the channel of a connection when it is disconnected,
and its writer's task goes on to close the channel. -/
def slotActs : List (Act ℕ) :=
  [.send 7, .proceed 0, .disconnect, .poll, .advance, .advance, .advance]

/-- The call publishes its packet before the drain is over: the drain takes and
counts it. -/
theorem passed_perm_places_drained :
    let as := slotActs ++ [.proceed 0, .advance, .advance, .advance, .advance, .proceed 0]
    let s := run step (new (Outgoing.channel .bits64 4 .dropNewest false)) as
    s.records = [.closedBeforeDelivery] ∧ s.Accounted ∧
      Meets step InTime (new (Outgoing.channel .bits64 4 .dropNewest false)) as := by
  intro as s
  obtain ⟨hacc, hmeets⟩ := passed_perm_places (Outgoing.channel .bits64 4 .dropNewest false) as
  have haccounted : s.Accounted := hacc (by decide +kernel)
  exact ⟨by decide +kernel, haccounted, hmeets rfl haccounted⟩

/-- **The defect.** The drain finds the channel empty and ends, the call then
publishes its packet and returns `Ok`, and the drop of tokio's receiver discards
the packet, which no record counts. -/
theorem published_after_drain :
    let s := run step (new (Outgoing.channel .bits64 4 .dropNewest false))
      (slotActs ++ [.advance, .proceed 0, .advance, .proceed 0])
    s.accepted = [7] ∧ s.calls = [] ∧ s.task = .gone ∧ s.queue.values = [] ∧
      s.log = [(.lost, 7)] ∧ s.records = [] ∧ ¬ s.Accounted := by
  intro s
  have hlog : s.log = [(.lost, 7)] := rfl
  refine ⟨rfl, rfl, rfl, rfl, hlog, rfl, fun h => ?_⟩
  exact h.kept (.lost, 7) (by rw [hlog]; exact List.mem_cons_self) rfl

end Conn
end Slinet
