/-
# What the task hands to its writer

`send_packets` (`src/connection/tasks.rs`) over any `PacketWriter`: the call of
`write.send` for the packet at hand is a step of its own (`Writer`), so that the
token can be cancelled between the look at it and the call, during the call, and
between its return and the next packet. What the task dequeues it passes on, but
for the last (`Writer.Follows`); a cancelled token lets through one packet more,
which was dequeued before (`passed_of_cancelled`), and an error none
(`passed_of_failed`).

Over `FramedWriter` (`src/protocols/framing.rs`) the call encodes the packet
into one buffer, and `write_all` puts it on the stream piece by piece. The bytes
there are whole frames and a part of one more (`Framed.Tracks`), which with the
above makes `writer_discipline`.
-/
import Slinet.Codec
import Slinet.Fifo
import Slinet.Framing
import Slinet.Reports

namespace Slinet

variable {P : Type*}

/-- The task waits for `write.send`, or is about to call it. -/
def Task.Writing : Task P → Prop
  | parked (.writing _) => True
  | polled (.writing _) => True
  | _ => False

theorem Task.Writing.phase {task : Task P} (h : task.Writing) :
    ∃ packet, task.phase = .holding packet := by
  cases task with
  | parked stage =>
    cases stage with
    | receiving => exact h.elim
    | writing packet => exact ⟨packet, rfl⟩
  | polled stage =>
    cases stage with
    | receiving => exact h.elim
    | writing packet => exact ⟨packet, rfl⟩
  | _ => exact h.elim

namespace Conn

theorem writing_advance {s : Conn P} (htok : s.token = true) (h : s.advance.task.Writing) :
    s.task.Writing := by
  cases ht : s.task with
  | polled stage =>
    cases stage with
    | receiving =>
      simp only [advance, ht] at h
      split at h <;> exact h.elim
    | writing packet => trivial
  | dequeued packet =>
    simp only [advance, ht, if_pos htok] at h
    exact h.elim
  | written packet result =>
    simp only [advance, ht] at h
    split at h <;> exact h.elim
  | draining n =>
    cases n with
    | zero =>
      simp only [advance, ht] at h
      split at h <;> exact h.elim
    | succ n =>
      simp only [advance, ht] at h
      exact h.elim
  | _ =>
    simp only [advance, ht] at h
    exact h

/-- Under a cancelled token the task does not come to another packet. -/
theorem writing_of_step {s : Conn P} (htok : s.token = true) (a : Act P)
    (h : (s.step a).task.Writing) : s.task.Writing := by
  by_cases hcaller : a.ofCaller = true
  · rwa [(keeps_of_caller s hcaller).task] at h
  cases a with
  | poll =>
    simp only [step, poll, if_pos htok] at h
    split at h
    · exact h.elim
    · rename_i stage ht
      cases stage <;> exact h.elim
    · exact h
  | pend =>
    simp only [step, pend] at h
    split at h
    · rename_i stage ht
      rw [ht]
      cases stage with
      | receiving => exact h.elim
      | writing packet => trivial
    · exact h
  | write result =>
    simp only [step, write] at h
    split at h
    · exact h.elim
    · exact h
  | abort =>
    simp only [step, abort] at h
    split at h
    · exact h.elim
    · rename_i stage ht
      cases stage <;> exact h.elim
    · exact h
  | advance => exact writing_advance htok h
  | _ => exact absurd rfl hcaller

/-- Neither does it dequeue one and go on to write it. -/
theorem dequeued_of_writing {s : Conn P} (a : Act P) (hs : s.task.Writing)
    (h : (s.step a).task.Writing) : (s.step a).dequeued = s.dequeued := by
  obtain ⟨packet, hp⟩ := hs.phase
  obtain ⟨packet', hp'⟩ := h.phase
  by_cases ha : ∃ result, a = .write result
  · obtain ⟨result, rfl⟩ := ha
    simp only [step, write]
    split <;> rfl
  · rcases s.paces_step a fun result hr => ha ⟨result, hr⟩ with ⟨-, hd⟩ | ⟨-, hd⟩ | ⟨-, hidle, -⟩
    · exact hd
    · exact hd
    · rw [hp] at hidle
      cases hidle

end Conn

/-! ### The calls of `write.send` -/

/-- The sending side with its writer: whether `write.send` is called for the
packet at hand, the packets passed to it and the results it returned. -/
structure Writer (P : Type*) where
  conn : Conn P
  called : Bool
  passed : List P
  returned : List (Except IoError Unit)

namespace Writer

def new (o : Outgoing P) : Writer P := ⟨Conn.new o, false, [], []⟩

/-- `write.send` is called; the look at the token lies behind the task. -/
def call (w : Writer P) : Writer P :=
  match w.conn.task with
  | .polled (.writing packet) =>
    if w.called then w else { w with called := true, passed := w.passed ++ [packet] }
  | _ => w

/-- `write.send` is pending; a call not made yet is made first. -/
def pend (w : Writer P) : Writer P :=
  match w.conn.task with
  | .polled (.writing _) => if w.called then { w with conn := w.conn.pend } else w
  | _ => { w with conn := w.conn.pend }

/-- `write.send` returns. -/
def write (w : Writer P) (result : Except IoError Unit) : Writer P :=
  match w.conn.task with
  | .polled (.writing _) =>
    if w.called then
      { w with
        conn := w.conn.write result
        called := false
        returned := w.returned ++ [result] }
    else w
  | _ => w

inductive Act (P : Type*)
  | conn (a : Conn.Act P)
  | call

def step (w : Writer P) : Act P → Writer P
  | .conn .pend => w.pend
  | .conn (.write result) => w.write result
  | .conn a => { w with conn := w.conn.step a }
  | .call => w.call

/-- **What a step can do**: nothing, make the call, return from it, or a step of
the sending side. -/
theorem step_cases (w : Writer P) (a : Act P) :
    w.step a = w ∨
    (∃ packet, w.conn.task = .polled (.writing packet) ∧ w.called = false ∧ a = .call ∧
      w.step a = { w with called := true, passed := w.passed ++ [packet] }) ∨
    (∃ packet result, w.conn.task = .polled (.writing packet) ∧ w.called = true ∧
      a = .conn (.write result) ∧
      w.step a = { w with
        conn := { w.conn with task := .written packet result }
        called := false
        returned := w.returned ++ [result] }) ∨
    ∃ b, (∀ result, b ≠ .write result) ∧ a = .conn b ∧
      w.step a = { w with conn := w.conn.step b } := by
  cases a with
  | call =>
    simp only [step, call]
    split
    · rename_i packet ht
      split
      · exact Or.inl rfl
      · exact Or.inr (Or.inl ⟨packet, ht, by simpa using ‹¬ w.called = true›, trivial, rfl⟩)
    · exact Or.inl rfl
  | conn b =>
    cases b with
    | pend =>
      simp only [step, pend]
      split
      · split
        · exact Or.inr (Or.inr (Or.inr ⟨.pend, fun _ h => (by cases h), rfl, rfl⟩))
        · exact Or.inl rfl
      · exact Or.inr (Or.inr (Or.inr ⟨.pend, fun _ h => (by cases h), rfl, rfl⟩))
    | write result =>
      simp only [step, write]
      split
      · rename_i packet ht
        split
        · refine Or.inr (Or.inr (Or.inl ⟨packet, result, ht, ‹_›, rfl, ?_⟩))
          simp [Conn.write, ht]
        · exact Or.inl rfl
      · exact Or.inl rfl
    | _ => exact Or.inr (Or.inr (Or.inr ⟨_, fun _ h => (by cases h), rfl, rfl⟩))

/-- What was dequeued is what was passed, but for the packet whose call is not
made yet, or never. -/
def Follows (w : Writer P) : Prop :=
  match w.conn.task.phase with
  | .idle => w.called = false ∧ w.passed = w.conn.dequeued
  | .holding packet =>
    if w.called then w.passed = w.conn.dequeued else w.conn.dequeued = w.passed ++ [packet]
  | .off => w.passed = w.conn.dequeued ∨ ∃ packet, w.conn.dequeued = w.passed ++ [packet]

theorem Follows.passed {w : Writer P} (h : w.Follows) :
    w.passed = w.conn.dequeued ∨ ∃ packet, w.conn.dequeued = w.passed ++ [packet] := by
  unfold Follows at h
  split at h
  · exact Or.inl h.2
  · split at h
    · exact Or.inl h
    · exact Or.inr ⟨_, h⟩
  · exact h

theorem follows_step {w : Writer P} (h : w.Follows) (a : Act P) : (w.step a).Follows := by
  have hpassed := h.passed
  rcases w.step_cases a with he | ⟨packet, ht, hc, -, he⟩ | ⟨packet, result, ht, hc, -, he⟩ |
    ⟨b, hb, -, he⟩
  · rwa [he]
  · rw [he]
    simp only [Follows, ht, Task.phase, hc, Bool.false_eq_true, if_false, if_true] at h ⊢
    exact h.symm
  · rw [he]
    simp only [Follows, ht, Task.phase, hc, if_true] at h ⊢
    cases result with
    | ok => exact ⟨trivial, h⟩
    | error err => exact Or.inl h
  · rw [he]
    rcases w.conn.paces_step b hb with ⟨hp, hd⟩ | ⟨hp, hd⟩ | ⟨packet, hi, hp, hd⟩
    · simpa only [Follows, hp, hd] using h
    · simpa only [Follows, hp, hd] using hpassed
    · simp only [Follows, hi] at h
      simp [Follows, hp, hd, h.1, h.2]

/-- **The sending side takes its own steps**, so what these keep is kept. -/
theorem conn_rule {I : Conn P → Prop} {w : Writer P} (hstep : ∀ b, I (w.conn.step b)) (h : I w.conn)
    (a : Act P) : I (w.step a).conn := by
  rcases w.step_cases a with he | ⟨packet, -, -, -, he⟩ | ⟨packet, result, ht, -, -, he⟩ |
    ⟨b, -, -, he⟩
  · rwa [he]
  · rwa [he]
  · have hwrite : w.conn.step (.write result) = { w.conn with task := .written packet result } := by
      simp [Conn.step, Conn.write, ht]
    rw [he, ← hwrite]
    exact hstep (.write result)
  · rw [he]
    exact hstep b

/-- What every step keeps, over a queue that started as `o`. -/
structure Kept (o : Outgoing P) (w : Writer P) : Prop where
  good : w.conn.Good
  ordered : w.conn.Ordered
  fifo : o.IsReliable → w.conn.Fifo
  follows : w.Follows
  failed : ∀ err, .error err ∈ w.returned → w.conn.task.phase = .off

theorem kept_new (o : Outgoing P) : (new o).Kept o :=
  ⟨Conn.good_new o, Conn.ordered_new o, fun h => Conn.fifo_new h, ⟨rfl, rfl⟩,
    fun _ h => (by cases h)⟩

/-- Once it is off, the task stays off. -/
theorem phase_off_step {w : Writer P} (h : w.conn.task.phase = .off) (a : Act P) :
    (w.step a).conn.task.phase = .off ∧ (w.step a).passed = w.passed ∧
      (w.step a).returned = w.returned := by
  rcases w.step_cases a with he | ⟨packet, ht, -, -, he⟩ | ⟨packet, result, ht, -, -, he⟩ |
    ⟨b, hb, -, he⟩
  · rw [he]
    exact ⟨h, rfl, rfl⟩
  · rw [ht] at h
    cases h
  · rw [ht] at h
    cases h
  · rw [he]
    refine ⟨?_, rfl, rfl⟩
    rcases w.conn.paces_step b hb with ⟨hp, -⟩ | ⟨hp, -⟩ | ⟨packet, hi, -, -⟩
    · exact hp.trans h
    · exact hp
    · rw [h] at hi
      cases hi

theorem failed_step {w : Writer P} (h : ∀ err, .error err ∈ w.returned → w.conn.task.phase = .off)
    (a : Act P) (err : IoError) (he : .error err ∈ (w.step a).returned) :
    (w.step a).conn.task.phase = .off := by
  by_cases hold : .error err ∈ w.returned
  · exact (phase_off_step (h err hold) a).1
  rcases w.step_cases a with hs | ⟨packet, -, -, -, hs⟩ | ⟨packet, result, ht, -, -, hs⟩ |
    ⟨b, -, -, hs⟩
  · rw [hs] at he
    exact absurd he hold
  · rw [hs] at he
    exact absurd he hold
  · -- the error is the one the call returns now
    rw [hs] at he ⊢
    have hr : .error err = result := by simpa [hold] using he
    rw [← hr]
    rfl
  · rw [hs] at he
    exact absurd he hold

theorem kept_step {o : Outgoing P} {w : Writer P} (h : w.Kept o) (a : Act P) :
    (w.step a).Kept o :=
  ⟨conn_rule (fun b => Conn.good_step h.good b) h.good a,
    conn_rule (fun b => Conn.ordered_step h.good h.ordered b) h.ordered a,
    fun ho => conn_rule (fun b => Conn.fifo_step h.good (h.fifo ho) b) (h.fifo ho) a,
    follows_step h.follows a, failed_step h.failed a⟩

theorem kept_run (o : Outgoing P) (as : List (Act P)) : (run step (new o) as).Kept o :=
  run_inv (I := Kept o) (fun _ a h => kept_step h a) as (kept_new o)

/-! ### After an error and after a cancellation -/

/-- **After an error** of `write.send` nothing more is passed to it. -/
theorem passed_of_failed {o : Outgoing P} {w : Writer P} (h : w.Kept o) {err : IoError}
    (he : .error err ∈ w.returned) (as : List (Act P)) : (run step w as).passed = w.passed := by
  have hoff : (run step w as).conn.task.phase = .off ∧ (run step w as).passed = w.passed := by
    refine run_inv (I := fun v : Writer P => v.conn.task.phase = .off ∧ v.passed = w.passed)
      (fun v a hv => ?_) as ⟨h.failed err he, rfl⟩
    obtain ⟨hp, hpassed, -⟩ := phase_off_step hv.1 a
    exact ⟨hp, hpassed.trans hv.2⟩
  exact hoff.2

/-- What follows a cancellation, seen from the state `w` in which the token is
cancelled: the packet at hand there is still to be passed, or it was, and there
is no other. -/
def Late (w v : Writer P) : Prop :=
  v.conn.token = true ∧ v.Follows ∧
  (v.passed = w.passed ∧
      (v.conn.task.Writing → v.called = false → v.conn.dequeued = w.conn.dequeued) ∨
    v.passed = w.conn.dequeued ∧ (∃ packet, w.conn.dequeued = w.passed ++ [packet]) ∧
      (v.conn.task.Writing → v.called = true))

theorem late_step {w v : Writer P} (h : w.Late v) (a : Act P) : w.Late (v.step a) := by
  obtain ⟨htok, hf, hl⟩ := h
  have hf' := follows_step hf a
  refine ⟨conn_rule (I := fun s => s.token = true) (fun b => v.conn.token_step b htok) htok a, hf', ?_⟩
  rcases v.step_cases a with he | ⟨packet, ht, hc, -, he⟩ | ⟨packet, result, ht, hc, -, he⟩ |
    ⟨b, hb, -, he⟩
  · rwa [he]
  · -- the call is made: the packet is the one dequeued before the cancellation
    have hw : v.conn.task.Writing := by rw [ht]; trivial
    rw [he]
    rcases hl with ⟨hp, hd⟩ | ⟨-, -, hno⟩
    · have hlast : v.conn.dequeued = v.passed ++ [packet] := by
        simpa [Follows, ht, Task.phase, hc] using hf
      rw [hd hw hc, hp] at hlast
      exact Or.inr ⟨by rw [hp, hlast], ⟨packet, hlast⟩, fun _ => rfl⟩
    · rw [hno hw] at hc
      cases hc
  · rw [he]
    exact hl.imp (fun hl => ⟨hl.1, fun hw => hw.elim⟩) fun hl => ⟨hl.1, hl.2.1, fun hw => hw.elim⟩
  · rw [he]
    refine hl.imp (fun hl => ⟨hl.1, fun hw hc => ?_⟩) fun hl => ⟨hl.1, hl.2.1, fun hw => ?_⟩
    · have hw' := Conn.writing_of_step htok b hw
      exact (Conn.dequeued_of_writing b hw' hw).trans (hl.2 hw' hc)
    · exact hl.2.2 (Conn.writing_of_step htok b hw)

/-- **After a cancellation** of the token at most one packet more is passed to
`write.send`, and all that are passed were dequeued by then. -/
theorem passed_of_cancelled {o : Outgoing P} {w : Writer P} (h : w.Kept o)
    (htok : w.conn.token = true) (as : List (Act P)) :
    ∃ late, (run step w as).passed = w.passed ++ late ∧ late.length ≤ 1 ∧
      w.passed ++ late <+: w.conn.dequeued := by
  have hl : w.Late (run step w as) :=
    run_inv (I := Late w) (fun _ a hv => late_step hv a) as ⟨htok, h.follows, Or.inl ⟨rfl, fun _ _ => rfl⟩⟩
  rcases hl.2.2 with ⟨hp, -⟩ | ⟨hp, ⟨packet, hlast⟩, -⟩
  · refine ⟨[], by rw [hp, List.append_nil], Nat.zero_le _, ?_⟩
    rw [List.append_nil]
    rcases h.follows.passed with he | ⟨packet, he⟩
    · rw [he]
    · exact ⟨[packet], he.symm⟩
  · exact ⟨[packet], hp.trans hlast, le_rfl, by rw [hlast]⟩

end Writer

/-! ### Framed writing -/

/-- The task over `FramedWriter`. `buffered` says that the packet at hand is
encoded; `unwritten` is what `write_all` still has to write of the last buffer,
`bytes` what is on the stream, and `framed` lists the packets that were encoded,
with their buffers. -/
structure Framed (σ P : Type*) where
  writer : Writer P
  codec : σ
  buffered : Bool
  unwritten : List UInt8
  bytes : List UInt8
  framed : List (P × List UInt8)

namespace Framed

variable {t : Target} {σ R EncErr DecErr L : Type*}

def new (codec : σ) (o : Outgoing P) : Framed σ P := ⟨Writer.new o, codec, false, [], [], []⟩

/-- The packet that `FramedWriter::send` has, in a poll of the task. -/
def sending (s : Framed σ P) : Option P :=
  match s.writer.conn.task with
  | .polled (.writing packet) => if s.writer.called then some packet else none
  | _ => none

/-- A step of the task or of its callers. Only `FramedWriter::send` returns from
a write, and it waits in `write_all` alone. -/
def task (s : Framed σ P) : Writer.Act P → Framed σ P
  | .conn (.write _) => s
  | .conn .pend =>
    if s.sending.isSome ∧ s.buffered = false then s
    else { s with writer := s.writer.step (.conn .pend) }
  | a => { s with writer := s.writer.step a }

/-- `FramedWriter::send` up to its `write_all`; an error leaves the stream alone. -/
def encode [ToString EncErr] [ToString L] (serializer : Serializer t σ R P EncErr DecErr)
    (ls : PacketLengthSerializer t L) (s : Framed σ P) : Framed σ P :=
  match s.sending with
  | none => s
  | some packet =>
    if s.buffered then s
    else
      match Framing.frame serializer ls s.codec packet with
      | (.error err, codec) =>
        { s with codec := codec, writer := s.writer.step (.conn (.write (.error err))) }
      | (.ok buf, codec) =>
        { s with
          codec := codec
          buffered := true
          unwritten := buf
          framed := s.framed ++ [(packet, buf)] }

/-- The reader decodes with the codec the two tasks share. -/
def decode (serializer : Serializer t σ R P EncErr DecErr) (s : Framed σ P) (data : List UInt8) :
    Framed σ P :=
  { s with codec := (serializer.deserialize s.codec data).2 }

/-- The stream takes up to `n` bytes. -/
def write (s : Framed σ P) (n : ℕ) : Framed σ P :=
  if s.sending.isSome ∧ s.buffered then
    { s with bytes := s.bytes ++ s.unwritten.take n, unwritten := s.unwritten.drop n }
  else s

/-- `write_all` returns, with success only when all is written. -/
def finish (s : Framed σ P) (result : Except IoError Unit) : Framed σ P :=
  if s.sending.isSome ∧ s.buffered ∧ (result.isOk → s.unwritten = []) then
    { s with buffered := false, writer := s.writer.step (.conn (.write result)) }
  else s

inductive Act (P : Type*)
  | task (a : Writer.Act P)
  | encode
  | decode (data : List UInt8)
  | write (n : ℕ)
  | finish (result : Except IoError Unit)

def step [ToString EncErr] [ToString L] (serializer : Serializer t σ R P EncErr DecErr)
    (ls : PacketLengthSerializer t L) (s : Framed σ P) : Act P → Framed σ P
  | .task a => s.task a
  | .encode => s.encode serializer ls
  | .decode data => s.decode serializer data
  | .write n => s.write n
  | .finish result => s.finish result

theorem task_cases (s : Framed σ P) (a : Writer.Act P) :
    s.task a = s ∨
    (∀ result, a ≠ .conn (.write result)) ∧ s.task a = { s with writer := s.writer.step a } := by
  cases a with
  | call => exact Or.inr ⟨fun _ h => (by cases h), rfl⟩
  | conn b =>
    cases b with
    | write result => exact Or.inl rfl
    | pend =>
      simp only [task]
      split
      · exact Or.inl rfl
      · exact Or.inr ⟨fun _ h => (by cases h), rfl⟩
    | _ => exact Or.inr ⟨fun _ h => (by cases h), rfl⟩

theorem sending_eq_some {s : Framed σ P} {packet : P} :
    s.sending = some packet ↔
      s.writer.conn.task = .polled (.writing packet) ∧ s.writer.called = true := by
  unfold sending
  split
  · rename_i packet' ht
    rw [ht]
    by_cases hc : s.writer.called = true
    · simp [hc]
    · simp [hc]
  · rename_i hne
    simp only [reduceCtorEq, false_iff]
    exact fun h => hne packet h.1

theorem phase_of_sending {s : Framed σ P} {packet : P} (h : s.sending = some packet) :
    s.writer.conn.task.phase = .holding packet := by
  rw [(sending_eq_some.mp h).1]
  rfl

theorem on_of_sending {s : Framed σ P} {packet : P} (h : s.sending = some packet) :
    s.writer.conn.task.phase ≠ .off := by
  rw [phase_of_sending h]
  exact fun hoff => (by cases hoff)

/-- `FramedWriter::send` returns. -/
theorem write_of_sending {s : Framed σ P} {packet : P} (h : s.sending = some packet)
    (result : Except IoError Unit) :
    s.writer.step (.conn (.write result)) =
      { s.writer with
        conn := { s.writer.conn with task := .written packet result }
        called := false
        returned := s.writer.returned ++ [result] } := by
  obtain ⟨ht, hc⟩ := sending_eq_some.mp h
  simp [Writer.step, Writer.write, Conn.write, ht, hc]

/-- The packets for which `write.send` returned success. -/
def sent (s : Framed σ P) : ℕ := s.writer.returned.countP Except.isOk

def names (s : Framed σ P) : List P := s.framed.map Prod.fst

/-- What the buffers have to do with the packets passed: all but the last are
encoded and sent. -/
structure Tracks (s : Framed σ P) : Prop where
  names : s.writer.passed = s.names ∨ ∃ packet, s.writer.passed = s.names ++ [packet]
  count : s.framed.length = s.sent + 1 ∨ s.unwritten = [] ∧ s.framed.length = s.sent
  buffered : s.writer.conn.task.phase ≠ .off → s.buffered = true →
    s.writer.called = true ∧ s.writer.passed = s.names ∧ s.framed.length = s.sent + 1
  clear : s.writer.conn.task.phase ≠ .off → s.buffered = false →
    s.unwritten = [] ∧ s.framed.length = s.sent
  named : ∀ packet, s.writer.conn.task.phase = .holding packet → s.buffered = false →
    s.writer.called = true → s.writer.passed = s.names ++ [packet]
  unnamed : s.writer.conn.task.phase ≠ .off → s.buffered = false → s.writer.called = false →
    s.writer.passed = s.names

theorem tracks_task {s : Framed σ P} (h : s.Tracks) (hf : s.writer.Follows) (a : Writer.Act P)
    (ha : ∀ result, a ≠ .conn (.write result)) :
    Tracks { s with writer := s.writer.step a } := by
  rcases s.writer.step_cases a with he | ⟨packet, ht, hc, -, he⟩ | ⟨_, result, -, -, he, -⟩ |
    ⟨b, hb, -, he⟩
  · rw [he]
    exact h
  · -- the call is made, for a packet that is not encoded yet
    have hon : s.writer.conn.task.phase ≠ .off := by
      rw [ht]
      exact fun h => (by cases h)
    have hbuf : s.buffered = false := by
      by_contra hb
      have hcalled := (h.buffered hon (by simpa using hb)).1
      rw [hc] at hcalled
      cases hcalled
    have hp := h.unnamed hon hbuf hc
    rw [he]
    refine ⟨Or.inr ⟨packet, by simp [hp, Framed.names]⟩, h.count, fun _ hb => ?_, h.clear, ?_, ?_⟩
    · rw [hbuf] at hb
      cases hb
    · intro packet' hpk _ _
      rw [ht] at hpk
      cases hpk
      simp [hp, Framed.names]
    · intro _ _ hc'
      cases hc'
  · exact absurd he (ha result)
  · rw [he]
    rcases s.writer.conn.paces_step b hb with ⟨hp, -⟩ | ⟨hp, -⟩ | ⟨packet, hi, hp, -⟩
    · refine ⟨h.names, h.count, ?_, ?_, ?_, ?_⟩ <;> simp only [hp]
      · exact h.buffered
      · exact h.clear
      · exact h.named
      · exact h.unnamed
    · refine ⟨h.names, h.count, ?_, ?_, ?_, ?_⟩ <;> simp only [hp]
      · exact fun hoff => absurd rfl hoff
      · exact fun hoff => absurd rfl hoff
      · exact fun _ hoff => (by cases hoff)
      · exact fun hoff => absurd rfl hoff
    · have hon : s.writer.conn.task.phase ≠ .off := by
        rw [hi]
        exact fun h => (by cases h)
      have hc : s.writer.called = false := by
        simp only [Writer.Follows, hi] at hf
        exact hf.1
      refine ⟨h.names, h.count, fun _ => h.buffered hon, fun _ => h.clear hon, ?_,
        fun _ => h.unnamed hon⟩
      intro _ _ _ hc'
      rw [show s.writer.called = true from hc'] at hc
      cases hc

/-- What every step keeps. -/
structure Good (serializer : Serializer t σ R P EncErr DecErr) (ls : PacketLengthSerializer t L)
    (o : Outgoing P) (s : Framed σ P) : Prop where
  kept : s.writer.Kept o
  tracks : s.Tracks
  stream : s.bytes ++ s.unwritten = (s.framed.map Prod.snd).flatten
  last : s.unwritten = [] ∨ ∃ init x, s.framed = init ++ [x] ∧ s.unwritten <:+ x.2
  frames : ∀ x ∈ s.framed, ∃ codec, Framing.IsFrame serializer ls codec x.1 x.2

variable {serializer : Serializer t σ R P EncErr DecErr} {ls : PacketLengthSerializer t L}
  {o : Outgoing P}

theorem good_new (codec : σ) (o : Outgoing P) : (new codec o).Good serializer ls o :=
  ⟨Writer.kept_new o,
    ⟨Or.inl rfl, Or.inr ⟨rfl, rfl⟩, fun _ h => (by cases h), fun _ _ => ⟨rfl, rfl⟩,
      fun _ h => (by cases h), fun _ _ _ => rfl⟩,
    rfl, Or.inl rfl, fun _ h => (by cases h)⟩

theorem good_task {s : Framed σ P} (h : s.Good serializer ls o) (a : Writer.Act P) :
    (s.task a).Good serializer ls o := by
  rcases s.task_cases a with he | ⟨ha, he⟩
  · rwa [he]
  · rw [he]
    exact ⟨Writer.kept_step h.kept a, tracks_task h.tracks h.kept.follows a ha, h.stream, h.last,
      h.frames⟩

theorem good_encode [ToString EncErr] [ToString L] {s : Framed σ P} (h : s.Good serializer ls o) :
    (s.encode serializer ls).Good serializer ls o := by
  unfold encode
  split
  · exact h
  rename_i packet hp
  have hc := (sending_eq_some.mp hp).2
  have hon := on_of_sending hp
  split
  · exact h
  rename_i hb
  have hbuf : s.buffered = false := by simpa using hb
  obtain ⟨hclear, hcount⟩ := h.tracks.clear hon hbuf
  have hnamed := h.tracks.named packet (phase_of_sending hp) hbuf hc
  split
  · rename_i err codec hf
    refine ⟨Writer.kept_step h.kept (.conn (.write (.error err))), ?_, h.stream, h.last, h.frames⟩
    rw [write_of_sending hp]
    refine ⟨Or.inr ⟨packet, hnamed⟩, Or.inr ⟨hclear, ?_⟩, fun hoff => absurd rfl hoff,
      fun hoff => absurd rfl hoff, fun _ hoff => (by cases hoff), fun hoff => absurd rfl hoff⟩
    simpa [sent, Except.isOk, Except.toBool] using hcount
  · rename_i buf codec hf
    have hname : s.writer.passed = (s.framed ++ [(packet, buf)]).map Prod.fst := by
      rw [hnamed, List.map_append]
      rfl
    refine ⟨h.kept, ⟨Or.inl hname, Or.inl ?_, fun _ _ => ⟨hc, hname, ?_⟩,
      fun _ hb => (by cases hb), fun _ _ hb => (by cases hb), fun _ hb => (by cases hb)⟩, ?_, ?_, ?_⟩
    · simpa [sent] using hcount
    · simpa [sent] using hcount
    · have hstream := h.stream
      rw [hclear, List.append_nil] at hstream
      simp [hstream]
    · exact Or.inr ⟨s.framed, (packet, buf), rfl, List.suffix_refl _⟩
    · intro x hx
      rcases List.mem_append.mp hx with hx | hx
      · exact h.frames x hx
      · obtain rfl := List.mem_singleton.mp hx
        exact ⟨s.codec, Framing.isFrame_of_frame (by rw [hf])⟩

theorem good_write {s : Framed σ P} (h : s.Good serializer ls o) (n : ℕ) :
    (s.write n).Good serializer ls o := by
  unfold write
  split
  · rename_i hs
    obtain ⟨packet, hp⟩ := Option.isSome_iff_exists.mp hs.1
    obtain ⟨hc, hname, hcount⟩ := h.tracks.buffered (on_of_sending hp) hs.2
    refine ⟨h.kept, ⟨h.tracks.names, Or.inl hcount, h.tracks.buffered, fun _ hb => ?_, h.tracks.named,
      h.tracks.unnamed⟩, ?_, ?_, h.frames⟩
    · rw [show s.buffered = false from hb] at hs
      cases hs.2
    · rw [← h.stream, List.append_assoc, List.take_append_drop]
    · rcases h.last with hnil | ⟨init, x, hx, hsuf⟩
      · exact Or.inl (by simp [hnil])
      · exact Or.inr ⟨init, x, hx, (List.drop_suffix n _).trans hsuf⟩
  · exact h

theorem good_finish {s : Framed σ P} (h : s.Good serializer ls o) (result : Except IoError Unit) :
    (s.finish result).Good serializer ls o := by
  unfold finish
  split
  · rename_i hs
    obtain ⟨packet, hp⟩ := Option.isSome_iff_exists.mp hs.1
    obtain ⟨hc, hname, hcount⟩ := h.tracks.buffered (on_of_sending hp) hs.2.1
    refine ⟨Writer.kept_step h.kept (.conn (.write result)), ?_, h.stream, h.last, h.frames⟩
    rw [write_of_sending hp]
    cases result with
    | ok =>
      have hsent : s.framed.length = (s.writer.returned ++ [Except.ok ()]).countP Except.isOk := by
        simpa [sent, Except.isOk, Except.toBool] using hcount
      have hclear : s.unwritten = [] := hs.2.2 rfl
      exact ⟨Or.inl hname, Or.inr ⟨hclear, hsent⟩, fun _ hb => (by cases hb),
        fun _ _ => ⟨hclear, hsent⟩, fun _ hoff => (by cases hoff), fun _ _ _ => hname⟩
    | error err =>
      refine ⟨Or.inl hname, Or.inl ?_, fun hoff => absurd rfl hoff, fun hoff => absurd rfl hoff,
        fun _ hoff => (by cases hoff), fun hoff => absurd rfl hoff⟩
      simpa [sent, Except.isOk, Except.toBool] using hcount
  · exact h

theorem good_step [ToString EncErr] [ToString L] {s : Framed σ P} (h : s.Good serializer ls o)
    (a : Act P) :
    (s.step serializer ls a).Good serializer ls o := by
  cases a with
  | task a => exact good_task h a
  | encode => exact good_encode h
  | decode data =>
    exact ⟨h.kept, ⟨h.tracks.names, h.tracks.count, h.tracks.buffered, h.tracks.clear,
      h.tracks.named, h.tracks.unnamed⟩, h.stream, h.last, h.frames⟩
  | write n => exact good_write h n
  | finish result => exact good_finish h result

theorem good_run [ToString EncErr] [ToString L] (codec : σ) (o : Outgoing P) (as : List (Act P)) :
    (run (step serializer ls) (new codec o) as).Good serializer ls o :=
  run_inv (I := Good serializer ls o) (fun _ a h => good_step h a) as (good_new codec o)

/-- `FramedWriter` is one of the writers: the task goes as it does over any. -/
theorem writer_step [ToString EncErr] [ToString L] (serializer : Serializer t σ R P EncErr DecErr)
    (ls : PacketLengthSerializer t L) (s : Framed σ P) (a : Act P) :
    (s.step serializer ls a).writer = s.writer ∨
      ∃ b, (s.step serializer ls a).writer = s.writer.step b := by
  cases a with
  | task a =>
    rcases s.task_cases a with he | ⟨-, he⟩
    · exact Or.inl (by rw [step, he])
    · exact Or.inr ⟨a, by rw [step, he]⟩
  | encode =>
    simp only [step, encode]
    split
    · exact Or.inl rfl
    split
    · exact Or.inl rfl
    split
    · rename_i err codec hf
      exact Or.inr ⟨.conn (.write (.error err)), rfl⟩
    · exact Or.inl rfl
  | decode data => exact Or.inl rfl
  | write n =>
    simp only [step, write]
    split <;> exact Or.inl rfl
  | finish result =>
    simp only [step, finish]
    split
    · exact Or.inr ⟨.conn (.write result), rfl⟩
    · exact Or.inl rfl

theorem writer_run [ToString EncErr] [ToString L] (codec : σ) (o : Outgoing P) (as : List (Act P)) :
    ∃ bs, (run (step serializer ls) (new codec o) as).writer = run Writer.step (Writer.new o) bs := by
  refine run_inv (I := fun v : Framed σ P => ∃ bs, v.writer = run Writer.step (Writer.new o) bs)
    (fun v a hv => ?_) as ⟨[], rfl⟩
  obtain ⟨bs, hbs⟩ := hv
  rcases writer_step serializer ls v a with he | ⟨b, he⟩
  · exact ⟨bs, he.trans hbs⟩
  · exact ⟨bs ++ [b], by rw [he, hbs, run_append]; rfl⟩

/-- The bytes on the stream are whole buffers and a part of the next one. -/
theorem Good.bytes {s : Framed σ P} (h : s.Good serializer ls o) :
    ∃ k part, s.bytes = ((s.framed.take k).map Prod.snd).flatten ++ part ∧
      (part = [] ∨ ∃ x, s.framed[k]? = some x ∧ part <+: x.2 ∧ part ≠ x.2) ∧
      s.sent ≤ k ∧ k ≤ s.sent + 1 := by
  have hstream := h.stream
  by_cases hnil : s.unwritten = []
  · refine ⟨s.framed.length, [], ?_, Or.inl rfl, ?_⟩
    · rw [hnil, List.append_nil] at hstream
      rw [List.take_length, List.append_nil, hstream]
    · rcases h.tracks.count with hc | ⟨-, hc⟩ <;> omega
  · obtain ⟨init, x, hx, part, hpart⟩ := h.last.resolve_left hnil
    have hcount := h.tracks.count.resolve_right fun hc => hnil hc.1
    have hlen : init.length = s.sent := by
      rw [hx, List.length_append] at hcount
      simpa using hcount
    have htake : s.framed.take init.length = init := by rw [hx, List.take_left]
    refine ⟨init.length, part, ?_, Or.inr ⟨x, by simp [hx], ⟨_, hpart⟩, ?_⟩, by omega, by omega⟩
    · rw [hx, List.map_append, List.flatten_append, List.map_singleton, List.flatten_singleton, ← hpart,
        ← List.append_assoc] at hstream
      rw [htake, List.append_cancel_right hstream]
    · intro heq
      rw [← heq] at hpart
      exact hnil (List.append_right_eq_self.mp hpart)

/-- Once the task is off, nothing is written. -/
theorem bytes_of_off [ToString EncErr] [ToString L] {s : Framed σ P}
    (h : s.writer.conn.task.phase = .off) (as : List (Act P)) :
    (run (step serializer ls) s as).bytes = s.bytes := by
  refine (run_inv (I := fun v : Framed σ P => v.writer.conn.task.phase = .off ∧ v.bytes = s.bytes)
    (fun v a hv => ?_) as ⟨h, rfl⟩).2
  have hnone : v.sending = none :=
    Option.eq_none_iff_forall_ne_some.mpr fun packet hp => on_of_sending hp hv.1
  cases a with
  | task a =>
    rcases v.task_cases a with he | ⟨-, he⟩
    · rwa [step, he]
    · rw [step, he]
      exact ⟨(Writer.phase_off_step hv.1 a).1, hv.2⟩
  | encode => simpa [step, encode, hnone] using hv
  | decode data => exact hv
  | write n => simpa [step, write, hnone] using hv
  | finish result => simpa [step, finish, hnone] using hv

/-- A packet that cannot be encoded ends the task. -/
theorem off_of_unencoded [ToString EncErr] [ToString L] {s : Framed σ P} {packet : P} {err : IoError}
    (hp : s.sending = some packet) (hb : s.buffered = false)
    (he : (Framing.frame serializer ls s.codec packet).1 = .error err) :
    (s.encode serializer ls).writer.conn.task.phase = .off ∧
      (s.encode serializer ls).bytes = s.bytes := by
  have hf : Framing.frame serializer ls s.codec packet =
      (.error err, (Framing.frame serializer ls s.codec packet).2) := Prod.ext he rfl
  simp only [encode, hp, hb, Bool.false_eq_true, if_false]
  rw [hf]
  simp only [write_of_sending hp]
  exact ⟨rfl, trivial⟩

end Framed

/-- **The discipline of the writer's task.** Over any queue, for any callers,
results of the writer and moments of cancellation, what the task dequeues and
what is queued is in the order of acceptance, and on a channel the packets
dequeued are the first ones accepted; the packets passed to `write.send` are
those dequeued, but for the last at most; after `write.send` has returned an
error none is passed to it; and after a cancellation of the token one more at
most, which was dequeued before.

Over `FramedWriter`, for any packet codec and length codec, the stream holds
whole frames, those of the packets sent first, and at most a proper part of the
next one, each the length and then the payload of a packet passed; and a packet
that cannot be encoded adds nothing to it, then or later. -/
theorem writer_discipline {t : Target} {σ R EncErr DecErr L : Type*} [ToString EncErr] [ToString L]
    (serializer : Serializer t σ R P EncErr DecErr) (ls : PacketLengthSerializer t L) (codec : σ)
    (o : Outgoing P) :
    (∀ as bs : List (Writer.Act P),
      let w := run Writer.step (Writer.new o) as
      let v := run Writer.step (Writer.new o) (as ++ bs)
      (w.conn.dequeued ++ w.conn.queue.values).Sublist w.conn.accepted ∧
      (o.IsReliable → w.conn.dequeued <+: w.conn.accepted) ∧
      (w.passed = w.conn.dequeued ∨ ∃ packet, w.conn.dequeued = w.passed ++ [packet]) ∧
      (∀ err, .error err ∈ w.returned → v.passed = w.passed) ∧
      (w.conn.token = true → ∃ late, v.passed = w.passed ++ late ∧ late.length ≤ 1 ∧
        w.passed ++ late <+: w.conn.dequeued)) ∧
    ∀ as : List (Framed.Act P),
      let s := run (Framed.step serializer ls) (Framed.new codec o) as
      (∃ bs, s.writer = run Writer.step (Writer.new o) bs) ∧
      (∃ k part, s.bytes = ((s.framed.take k).map Prod.snd).flatten ++ part ∧
        (part = [] ∨ ∃ x, s.framed[k]? = some x ∧ part <+: x.2 ∧ part ≠ x.2) ∧
        s.sent ≤ k ∧ k ≤ s.sent + 1) ∧
      (∀ x ∈ s.framed, ∃ st payload pre, (serializer.serialize st x.1).1 = .ok payload ∧
        ls.serializePacketLength payload.1.length = .ok pre ∧ x.2 = pre.1 ++ payload.1) ∧
      (s.writer.passed = s.framed.map Prod.fst ∨
        ∃ packet, s.writer.passed = s.framed.map Prod.fst ++ [packet]) ∧
      ∀ packet err, s.sending = some packet → s.buffered = false →
        (Framing.frame serializer ls s.codec packet).1 = .error err →
        ∀ bs, (run (Framed.step serializer ls) s (.encode :: bs)).bytes = s.bytes := by
  refine ⟨fun as bs => ?_, fun as => ?_⟩
  · intro w v
    have h : w.Kept o := Writer.kept_run o as
    have hv : v = run Writer.step w bs := run_append _ _ as bs
    refine ⟨h.ordered, fun ho => (h.fifo ho).dequeued, h.follows.passed, fun err he => ?_,
      fun htok => ?_⟩
    · rw [hv]
      exact Writer.passed_of_failed h he bs
    · rw [hv]
      exact Writer.passed_of_cancelled h htok bs
  · intro s
    have h : s.Good serializer ls o := Framed.good_run codec o as
    refine ⟨Framed.writer_run codec o as, h.bytes, h.frames, h.tracks.names,
      fun packet err hp hb he bs => ?_⟩
    obtain ⟨hoff, hbytes⟩ := Framed.off_of_unencoded hp hb he
    rw [run_cons]
    exact (Framed.bytes_of_off hoff bs).trans hbytes

end Slinet
