/-
# Pacing

`DataPacer` (`src/protocols/udp/pacing.rs`) in the runs of the writer
(`Slinet.UdpSend`). `Paced` adds to a run what the bound speaks of: the rate
that `wait` read last, when it returned, and when `sent` was called. It also
has the exit of `wait` that `UdpSend` leaves out: the senders of the rate are
all gone.

Those are the handles of the peer, and one of them is in the `PeerState` that
the write half keeps alive; the references are counted as the source counts
them (`Owners`). So that exit is never taken, and `wait` does not return
before the deadline it has computed from the rate it has read. Summed over the
sends of a run at one rate, that is the rate (`pacing_bound`).
-/
import Mathlib.Algebra.Order.Floor.Div
import Mathlib.Data.Rat.Floor
import Slinet.UdpSend

namespace Slinet

variable {P : Type*}

/-! ### The spacing in machine words -/

theorem spacing_le_iff (bytes : ℕ) (rate : ℕ+) (n : ℕ) :
    spacing bytes rate ≤ n ↔ bytes * 1000000000 ≤ rate * n := by
  rw [spacing, ← Nat.ceilDiv_eq_add_pred_div]
  exact ceilDiv_le_iff_le_mul rate.pos

/-- It is the quotient, rounded up. -/
theorem spacing_eq_ceil (bytes : ℕ) (rate : ℕ+) :
    spacing bytes rate = ⌈(bytes * 1000000000 : ℚ) / rate⌉₊ := by
  refine eq_of_forall_ge_iff fun n => ?_
  have hpos : (0 : ℚ) < (rate : ℕ) := by exact_mod_cast rate.pos
  rw [spacing_le_iff, Nat.ceil_le, div_le_iff₀ hpos, mul_comm (n : ℚ)]
  exact_mod_cast Iff.rfl

theorem spacing_le (bytes : ℕ) (rate : ℕ+) : spacing bytes rate ≤ bytes * 1000000000 := by
  rw [spacing_le_iff]
  exact Nat.le_mul_of_pos_left _ rate.pos

/-- `u64::try_from` and `u32::try_from`. -/
def tryFrom (bits n : ℕ) : Option ℕ := if n < 2 ^ bits then some n else none

/-- Seconds, and the nanoseconds beyond them. -/
structure Duration where
  secs : ℕ
  nanos : ℕ
  deriving DecidableEq, Repr

/-- `Duration::new`: whole seconds among the nanoseconds are carried over. -/
def Duration.new (secs nanos : ℕ) : Duration := ⟨secs + nanos / 1000000000, nanos % 1000000000⟩

def Duration.asNanos (d : Duration) : ℕ := d.secs * 1000000000 + d.nanos

/-- `u128::div_ceil`. -/
def divCeil (a b : ℕ) : ℕ := if a % b > 0 then a / b + 1 else a / b

/-- `spacing` with its conversions: a `u128` product, and a `u64` and a `u32`. -/
def spacingDuration (bytes rate : ℕ) : Duration :=
  let nanos := divCeil (bytes * 1000000000 % 2 ^ 128) rate
  .new ((tryFrom 64 (nanos / 1000000000)).getD (2 ^ 64 - 1))
    ((tryFrom 32 (nanos % 1000000000)).getD (2 ^ 32 - 1))

theorem divCeil_eq (bytes : ℕ) (rate : ℕ+) : divCeil (bytes * 1000000000) rate = spacing bytes rate := by
  refine (eq_of_forall_ge_iff fun n => ?_).symm
  rw [spacing_le_iff, divCeil]
  have hpos := rate.pos
  have hdiv := Nat.div_add_mod (bytes * 1000000000) rate
  have hlt := Nat.mod_lt (bytes * 1000000000) hpos
  set q := bytes * 1000000000 / (rate : ℕ)
  set r := bytes * 1000000000 % (rate : ℕ)
  constructor
  · intro h
    split_ifs with hr
    · by_contra hn
      have hmul : (rate : ℕ) * n ≤ rate * q := Nat.mul_le_mul_left _ (by omega)
      omega
    · by_contra hn
      have hmul : (rate : ℕ) * (n + 1) ≤ rate * q := Nat.mul_le_mul_left _ (by omega)
      rw [Nat.mul_add] at hmul
      omega
  · intro h
    split_ifs at h with hr
    · have hmul : (rate : ℕ) * (q + 1) ≤ rate * n := Nat.mul_le_mul_left _ h
      rw [Nat.mul_add] at hmul
      omega
    · have hmul : (rate : ℕ) * q ≤ rate * n := Nat.mul_le_mul_left _ h
      omega

theorem tryFrom_eq {bits n : ℕ} (h : n < 2 ^ bits) : tryFrom bits n = some n := if_pos h

theorem Duration.asNanos_new (n : ℕ) : (Duration.new (n / 1000000000) (n % 1000000000)).asNanos = n := by
  simp only [Duration.new, Duration.asNanos]
  omega

/-- **No conversion of `spacing` loses anything.** -/
theorem spacingDuration_exact (t : Target) {bytes : ℕ} (hbytes : bytes < t.usize) (rate : ℕ+) :
    bytes * 1000000000 < 2 ^ 128 ∧
    tryFrom 64 (spacing bytes rate / 1000000000) = some (spacing bytes rate / 1000000000) ∧
    tryFrom 32 (spacing bytes rate % 1000000000) = some (spacing bytes rate % 1000000000) ∧
    (spacingDuration bytes rate).asNanos = spacing bytes rate := by
  have hword : bytes < 2 ^ 64 := by
    cases t <;> simp only [Target.usize] at hbytes <;> omega
  have hle := spacing_le bytes rate
  have hproduct : bytes * 1000000000 < 2 ^ 128 := by omega
  have hnanos : divCeil (bytes * 1000000000 % 2 ^ 128) rate = spacing bytes rate := by
    rw [Nat.mod_eq_of_lt hproduct, divCeil_eq]
  rw [spacingDuration, hnanos]
  generalize spacing bytes rate = n at hle
  have hsecs : tryFrom 64 (n / 1000000000) = some (n / 1000000000) := tryFrom_eq (by omega)
  have hrest : tryFrom 32 (n % 1000000000) = some (n % 1000000000) := tryFrom_eq (by omega)
  refine ⟨hproduct, hsecs, hrest, ?_⟩
  rw [hsecs, hrest, Option.getD_some, Option.getD_some, Duration.asNanos_new]

/-! ### Who keeps the rate -/

/-- The references to a peer: the write half, others to its `PeerState`, and
clones of the `UdpConnectionHandle` in it, of which each has a sender of the
rate; with the counts of `Arc` and of the `watch` channel. -/
structure Owners where
  writeHalf : Bool
  states : ℕ
  handles : ℕ
  strong : ℕ
  senders : ℕ
  deriving DecidableEq, Repr

namespace Owners

/-- The peer begins with its write half, and `states` other references. -/
def new (states : ℕ) : Owners := ⟨true, states, 0, states + 1, 1⟩

/-- A reference to the `PeerState` is dropped, and with the last one the handle
in it. -/
def release (o : Owners) : Owners :=
  { o with
    strong := o.strong - 1
    senders := if o.strong = 1 then o.senders - 1 else o.senders }

inductive Act
  | cloneState
  | dropState
  | cloneHandle
  | dropHandle

def step (o : Owners) : Act → Owners
  | .cloneState => if o.strong = 0 then o else { o with states := o.states + 1, strong := o.strong + 1 }
  | .dropState => if o.states = 0 then o else { o.release with states := o.states - 1 }
  | .cloneHandle =>
    if o.senders = 0 then o else { o with handles := o.handles + 1, senders := o.senders + 1 }
  | .dropHandle =>
    if o.handles = 0 then o else { o with handles := o.handles - 1, senders := o.senders - 1 }

def dropWriteHalf (o : Owners) : Owners := if o.writeHalf then { o.release with writeHalf := false } else o

/-- The counts are what they count. -/
structure Counted (o : Owners) : Prop where
  strong_eq : o.strong = o.states + o.writeHalf.toNat
  senders_eq : o.senders = o.handles + min 1 o.strong

theorem counted_new (states : ℕ) : (new states).Counted := by
  refine ⟨rfl, ?_⟩
  simp [new]

theorem Counted.step {o : Owners} (h : o.Counted) (a : Act) : (o.step a).Counted := by
  obtain ⟨hs, hn⟩ := h
  cases a with
  | cloneState =>
    simp only [Owners.step]
    split_ifs with h0
    · exact ⟨hs, hn⟩
    · refine ⟨?_, ?_⟩
      · simp only
        omega
      · simp only
        omega
  | dropState =>
    simp only [Owners.step, release]
    split_ifs with h0 h1
    · exact ⟨hs, hn⟩
    · refine ⟨?_, ?_⟩
      · simp only
        omega
      · simp only
        omega
    · refine ⟨?_, ?_⟩
      · simp only
        omega
      · simp only
        omega
  | cloneHandle =>
    simp only [Owners.step]
    split_ifs with h0
    · exact ⟨hs, hn⟩
    · refine ⟨hs, ?_⟩
      simp only
      omega
  | dropHandle =>
    simp only [Owners.step]
    split_ifs with h0
    · exact ⟨hs, hn⟩
    · refine ⟨hs, ?_⟩
      simp only
      omega

theorem Counted.dropWriteHalf {o : Owners} (h : o.Counted) : o.dropWriteHalf.Counted := by
  obtain ⟨hs, hn⟩ := h
  unfold Owners.dropWriteHalf release
  split
  · rename_i hw
    rw [hw] at hs
    simp only [Bool.toNat_true] at hs
    refine ⟨by simp only [hs, Bool.toNat_false]; omega, ?_⟩
    simp only
    split_ifs with h1
    · omega
    · omega
  · exact ⟨hs, hn⟩

/-- **The write half keeps a sender of the rate.** -/
theorem Counted.senders_pos {o : Owners} (h : o.Counted) (hw : o.writeHalf = true) : 0 < o.senders := by
  have hs := h.strong_eq
  have hn := h.senders_eq
  rw [hw, Bool.toNat_true] at hs
  omega

theorem writeHalf_step (o : Owners) (a : Act) : (o.step a).writeHalf = o.writeHalf := by
  cases a <;> simp only [Owners.step, release] <;> split_ifs <;> rfl

end Owners

/-! ### What the pacer did -/

/-- The write half is no longer there to be used: the task owned it. -/
def Task.ended : Task P → Bool
  | .closing => true
  | .draining _ => true
  | .drained => true
  | .gone => true
  | _ => false

/-- A `wait` that returned `Ok`: when, the rate it had read last, and the
`previous` of the pacer. -/
structure Wait where
  time : ℕ
  rate : Option ℕ+
  previous : Option (ℕ × ℕ)

/-- A call of `sent`: when, the bytes, and the rate that the `wait` before it
had read last. -/
structure Sent where
  time : ℕ
  bytes : ℕ
  rate : Option ℕ+

/-- The writer, the owners of its peer, and a record of the pacer: `observed` is
the rate it read last, at first the one it begins with, and `orphaned` says
that `wait` has returned because the senders of the rate were gone. -/
structure Paced (P : Type*) where
  send : UdpSend P
  owners : Owners
  observed : Option ℕ+
  waits : List Wait
  sends : List Sent
  orphaned : Bool

namespace Paced

def new (o : Outgoing P) (maxPayloadSize : ℕ) (rate : Option ℕ+) (states : ℕ) : Paced P :=
  ⟨.new o maxPayloadSize rate, .new states, rate, [], [], false⟩

/-- `wait` returns `Ok`. -/
def waited (p : Paced P) : Paced P :=
  { p with waits := p.waits ++ [⟨p.send.now, p.observed, p.send.pacer.previous⟩] }

/-- The writer's own next step. -/
def advance (p : Paced P) (packet : P) : Paced P :=
  let p' := { p with send := p.send.advance packet }
  match p.send.pc with
  | .pacing _ =>
    match p'.send.pc with
    | .entering _ => { p' with observed := p.send.rate }.waited
    | _ => { p' with observed := p.send.rate }
  | .rating payload _ =>
    if p.send.pacer.seen = p.send.version ∧ p.owners.senders = 0 then
      { p with send := { p.send with pc := .entering payload }, orphaned := true }.waited
    else p'
  | .sleeping _ deadline => if deadline ≤ p.send.now then p'.waited else p'
  | .returned bytes _ => { p' with sends := p.sends ++ [⟨p.send.now, bytes, p.observed⟩] }
  | _ => p'

inductive Act (P : Type*)
  | send (a : UdpSend.Act P)
  | owner (a : Owners.Act)
  | dropWriteHalf

def step (p : Paced P) : Act P → Paced P
  | .send a =>
    match a, p.send.conn.task with
    | .advance, .polled (.writing packet) => p.advance packet
    | a, _ => { p with send := p.send.step a }
  | .owner a => { p with owners := p.owners.step a }
  | .dropWriteHalf => if p.send.conn.task.ended then { p with owners := p.owners.dropWriteHalf } else p

/-! ### No wait is too short -/

/-- What the writer's place says about the clock: until the deadline it is the
one of the rate observed, and then it has passed. -/
def InTime (previous : Option (ℕ × ℕ)) (observed : Option ℕ+) (now : ℕ) : UdpSend.Pc → Prop
  | .pausing _ deadline => Due deadline
  | .rating _ deadline => Due deadline
  | .sleeping _ deadline => Due deadline
  | .entering _ => Spaced
  | .selecting _ => Spaced
  | .socket _ => Spaced
  | .returned _ _ => Spaced
  | _ => True
where
  Due (deadline : ℕ) : Prop := ∃ time bytes rate, previous = some (time, bytes) ∧ observed = some rate ∧
    deadline = time + spacing bytes rate
  Spaced : Prop := ∀ time bytes rate, previous = some (time, bytes) → observed = some rate →
    time + spacing bytes rate ≤ now

/-- The clock goes on. -/
theorem InTime.tick {previous : Option (ℕ × ℕ)} {observed : Option ℕ+} {now : ℕ} {pc : UdpSend.Pc}
    (h : InTime previous observed now pc) (nanos : ℕ) : InTime previous observed (now + nanos) pc := by
  have hspaced : InTime.Spaced previous observed now → InTime.Spaced previous observed (now + nanos) :=
    fun hs time bytes rate hp ho => le_trans (hs time bytes rate hp ho) (Nat.le_add_right _ _)
  cases pc with
  | entering => exact hspaced h
  | selecting => exact hspaced h
  | socket => exact hspaced h
  | returned => exact hspaced h
  | _ => exact h

/-- At the deadline. -/
theorem InTime.Due.spaced {previous : Option (ℕ × ℕ)} {observed : Option ℕ+} {now deadline : ℕ}
    (h : InTime.Due previous observed deadline) (hle : deadline ≤ now) :
    InTime.Spaced previous observed now := by
  obtain ⟨sentAt, bytes, rate, hprev, hobs, rfl⟩ := h
  intro time bytes' rate' hp ho
  rw [hprev, Option.some.injEq, Prod.mk.injEq] at hp
  rw [hobs, Option.some.injEq] at ho
  obtain ⟨rfl, rfl⟩ := hp
  subst ho
  exact hle

/-- Two sends in a row are spaced by the rate that the second one observed. -/
def Apart (x y : Sent) : Prop := ∀ rate, y.rate = some rate → x.time + spacing x.bytes rate ≤ y.time

/-- What every step keeps. -/
structure Good (p : Paced P) : Prop where
  counted : p.owners.Counted
  alive : p.owners.writeHalf = false → p.send.conn.task.ended = true
  orphaned : p.orphaned = false
  inTime : InTime p.send.pacer.previous p.observed p.send.now p.send.pc
  waits : ∀ w ∈ p.waits, ∀ time bytes rate, w.previous = some (time, bytes) → w.rate = some rate →
    time + spacing bytes rate ≤ w.time
  previous : p.send.pacer.previous = p.sends.getLast?.map fun x => (x.time, x.bytes)
  chain : p.sends.IsChain Apart

theorem good_new (o : Outgoing P) (maxPayloadSize : ℕ) (rate : Option ℕ+) (states : ℕ) :
    (new o maxPayloadSize rate states).Good :=
  ⟨Owners.counted_new states, fun h => (by cases h), rfl, trivial, by simp [new], rfl, .nil⟩

end Paced

/-- A task that has ended stays so. -/
theorem Conn.ended_step {s : Conn P} (h : s.task.ended = true) (a : Conn.Act P) :
    (s.step a).task.ended = true := by
  by_cases hcaller : a.ofCaller = true
  · rwa [(Conn.keeps_of_caller s hcaller).task]
  have hnot : ∀ task, s.task = task → task.ended = true := fun task ht => ht ▸ h
  cases a with
  | poll =>
    simp only [Conn.step, Conn.poll]
    split
    · rename_i ht
      cases hnot _ ht
    · rename_i ht
      cases hnot _ ht
    · exact h
  | pend =>
    simp only [Conn.step, Conn.pend]
    split
    · rename_i ht
      cases hnot _ ht
    · exact h
  | write result =>
    simp only [Conn.step, Conn.write]
    split
    · rename_i ht
      cases hnot _ ht
    · exact h
  | abort =>
    simp only [Conn.step, Conn.abort]
    split
    · rfl
    · rename_i ht
      cases hnot _ ht
    · exact h
  | advance =>
    simp only [Conn.step]
    cases ht : s.task with
    | closing => simp [Conn.advance, ht, Task.ended]
    | draining n =>
      cases n with
      | zero =>
        simp only [Conn.advance, ht]
        split <;> rfl
      | succ n => simp [Conn.advance, ht, Task.ended]
    | drained => simp [Conn.advance, ht, Task.ended]
    | gone => simp [Conn.advance, ht, Task.ended]
    | _ => cases hnot _ ht
  | _ => exact absurd rfl hcaller

namespace UdpSend

/-- A step of the task or its callers leaves the pacer and the clock alone, and
the writer where it is, unless the write begins or is gone. -/
theorem connStep_frame (s : UdpSend P) (a : Conn.Act P) :
    (s.connStep a).pacer = s.pacer ∧ (s.connStep a).now = s.now ∧ (s.connStep a).rate = s.rate ∧
      ((s.connStep a).pc = s.pc ∨ (s.connStep a).pc = .idle ∨ (s.connStep a).pc = .encoding) ∧
      (s.conn.task.ended = true → (s.connStep a).conn.task.ended = true) := by
  unfold connStep
  split
  · exact ⟨rfl, rfl, rfl, Or.inl rfl, id⟩
  · exact ⟨rfl, rfl, rfl, Or.inl rfl, id⟩
  · rename_i ht
    refine ⟨rfl, rfl, rfl, Or.inr ?_, fun h => Conn.ended_step h .advance⟩
    simp only
    split_ifs
    · exact Or.inl rfl
    · exact Or.inr rfl
  · exact ⟨rfl, rfl, rfl, Or.inl rfl, fun h => Conn.ended_step h .advance⟩
  · refine ⟨rfl, rfl, rfl, ?_, fun h => Conn.ended_step h _⟩
    simp only
    split_ifs
    · exact Or.inl rfl
    · exact Or.inr (Or.inl rfl)

end UdpSend

namespace Paced

/-- A step that leaves the record alone. -/
theorem Good.keep {p : Paced P} (h : p.Good) {send : UdpSend P}
    (hprev : send.pacer.previous = p.send.pacer.previous)
    (hended : p.send.conn.task.ended = true → send.conn.task.ended = true)
    (hin : InTime p.send.pacer.previous p.observed send.now send.pc) : Good { p with send := send } :=
  ⟨h.counted, fun hw => hended (h.alive hw), h.orphaned, by rw [hprev]; exact hin, h.waits,
    hprev.trans h.previous, h.chain⟩

theorem Good.waited {p : Paced P} (h : p.Good)
    (hs : InTime.Spaced p.send.pacer.previous p.observed p.send.now) : p.waited.Good := by
  refine ⟨h.counted, h.alive, h.orphaned, h.inTime, fun w hw => ?_, h.previous, h.chain⟩
  rcases List.mem_append.mp hw with hw | hw
  · exact h.waits w hw
  · rw [List.mem_singleton] at hw
    subst hw
    exact hs

section Writer

variable {p : Paced P} {packet : P}

/-- While something is written the write half is there. -/
theorem Good.writeHalf (h : p.Good) (ht : p.send.conn.task = .polled (.writing packet)) :
    p.owners.writeHalf = true := by
  cases hw : p.owners.writeHalf with
  | true => rfl
  | false =>
    have := h.alive hw
    rw [ht] at this
    cases this

theorem not_ended (ht : p.send.conn.task = .polled (.writing packet)) {Q : Prop} :
    p.send.conn.task.ended = true → Q := by
  intro he
  rw [ht] at he
  cases he

/-- The top of the loop reads the rate. -/
theorem good_pacing (h : p.Good) (ht : p.send.conn.task = .polled (.writing packet)) {payload : List UInt8}
    (hpc : p.send.pc = .pacing payload) : (p.advance packet).Good := by
  have hread : ∀ pc, InTime p.send.pacer.previous p.send.rate p.send.now pc →
      Good { p with
        send := { p.send with pacer := { p.send.pacer with seen := p.send.version }, pc := pc }
        observed := p.send.rate } := fun pc hin =>
    ⟨h.counted, fun hw => not_ended ht (h.alive hw), h.orphaned, hin, h.waits, h.previous, h.chain⟩
  simp only [advance, hpc, UdpSend.advance]
  cases hprev : p.send.pacer.previous with
  | none =>
    have hs : InTime.Spaced p.send.pacer.previous p.send.rate p.send.now := by
      intro time bytes rate hp
      rw [hprev] at hp
      cases hp
    have hg := (hread (.entering payload) hs).waited hs
    simpa only [hprev] using hg
  | some sent =>
    obtain ⟨sentAt, bytes⟩ := sent
    cases hrate : p.send.rate with
    | none =>
      have hs : InTime.Spaced p.send.pacer.previous p.send.rate p.send.now := by
        intro time bytes rate _ ho
        rw [hrate] at ho
        cases ho
      have hg := (hread (.entering payload) hs).waited hs
      simpa only [hprev, hrate] using hg
    | some rate =>
      -- the deadline is a number like any other from here on
      generalize hd : sentAt + spacing bytes rate = deadline
      have hdue : InTime.Due p.send.pacer.previous p.send.rate deadline :=
        ⟨sentAt, bytes, rate, hprev, hrate, hd.symm⟩
      by_cases hle : deadline ≤ p.send.now
      · have hs := hdue.spaced hle
        have hg := (hread (.entering payload) hs).waited hs
        simpa only [hprev, hrate, hd, if_pos hle] using hg
      · have hg := hread (.pausing payload deadline) hdue
        simpa only [hprev, hrate, hd, if_neg hle] using hg

/-- The `select!`: the exit for want of senders is not taken. -/
theorem good_rating (h : p.Good) (ht : p.send.conn.task = .polled (.writing packet))
    {payload : List UInt8} {deadline : ℕ} (hpc : p.send.pc = .rating payload deadline) :
    (p.advance packet).Good := by
  have hpos := h.counted.senders_pos (h.writeHalf ht)
  have hin := h.inTime
  rw [hpc] at hin
  simp only [advance, hpc, UdpSend.advance]
  rw [if_neg (by omega)]
  split_ifs
  · exact h.keep rfl (not_ended ht) trivial
  · exact h.keep rfl (not_ended ht) hin

theorem good_sleeping (h : p.Good) (ht : p.send.conn.task = .polled (.writing packet))
    {payload : List UInt8} {deadline : ℕ} (hpc : p.send.pc = .sleeping payload deadline) :
    (p.advance packet).Good := by
  have hin := h.inTime
  rw [hpc] at hin
  simp only [advance, hpc, UdpSend.advance]
  by_cases hle : deadline ≤ p.send.now
  · rw [if_pos hle, if_pos hle]
    have hs : InTime.Spaced p.send.pacer.previous p.observed p.send.now := InTime.Due.spaced hin hle
    have hkeep : Good { p with send := { p.send with pc := .entering payload } } :=
      h.keep rfl (not_ended ht) hs
    exact hkeep.waited hs
  · rw [if_neg hle, if_neg hle]
    exact h.keep rfl (not_ended ht) hin

/-- `sent` is called, no earlier than the deadline of the rate observed. -/
theorem good_returned (h : p.Good) (ht : p.send.conn.task = .polled (.writing packet)) {bytes : ℕ}
    {result : Except IoError Unit} (hpc : p.send.pc = .returned bytes result) : (p.advance packet).Good := by
  have hs := h.inTime
  rw [hpc] at hs
  have hchain : (p.sends ++ [(⟨p.send.now, bytes, p.observed⟩ : Sent)]).IsChain Apart := by
    refine h.chain.append (.singleton _) fun x hx y hy rate hrate => ?_
    rw [List.head?_cons, Option.mem_some_iff] at hy
    subst hy
    have hprev := h.previous
    rw [Option.mem_def.mp hx] at hprev
    exact hs x.time x.bytes rate hprev hrate
  simp only [advance, hpc, UdpSend.advance]
  cases result with
  | ok =>
    exact ⟨h.counted, fun hw => not_ended ht (h.alive hw), h.orphaned, trivial, h.waits,
      by simp [UdpSend.finish], hchain⟩
  | error err =>
    exact ⟨h.counted, fun hw => not_ended ht (h.alive hw), h.orphaned, trivial, h.waits, by simp, hchain⟩

theorem good_advance (h : p.Good) (ht : p.send.conn.task = .polled (.writing packet)) :
    (p.advance packet).Good := by
  have hin := h.inTime
  cases hpc : p.send.pc with
  | pacing payload => exact good_pacing h ht hpc
  | rating payload deadline => exact good_rating h ht hpc
  | sleeping payload deadline => exact good_sleeping h ht hpc
  | returned bytes result => exact good_returned h ht hpc
  | pausing payload deadline =>
    rw [hpc] at hin
    simp only [advance, hpc, UdpSend.advance]
    split_ifs
    · exact h.keep rfl (not_ended ht) trivial
    · exact h.keep rfl (not_ended ht) hin
  | entering payload =>
    rw [hpc] at hin
    simp only [advance, hpc, UdpSend.advance]
    split_ifs
    · exact h.keep rfl (not_ended ht) hin
    · exact h.keep rfl (not_ended ht) hin
  | selecting payload =>
    rw [hpc] at hin
    simp only [advance, hpc, UdpSend.advance]
    split_ifs
    · exact h.keep rfl (not_ended ht) hin
    · exact h.keep rfl (not_ended ht) hin
  | checking err =>
    simp only [advance, hpc, UdpSend.advance]
    split_ifs
    · exact h.keep rfl (not_ended ht) trivial
    · exact h.keep rfl (not_ended ht) trivial
  | _ =>
    simp only [advance, hpc, UdpSend.advance]
    exact h

theorem good_serialized (h : p.Good) (ht : p.send.conn.task = .polled (.writing packet))
    (result : Except String (List UInt8)) : Good { p with send := p.send.serialized packet result } := by
  unfold UdpSend.serialized
  split
  · split
    · exact h.keep rfl (not_ended ht) trivial
    · split_ifs
      · exact h.keep rfl (not_ended ht) trivial
      · exact h.keep rfl (not_ended ht) trivial
  · exact h

theorem good_socketReady (h : p.Good) (ht : p.send.conn.task = .polled (.writing packet))
    (outcome : Option (Except IoError ℕ)) : Good { p with send := p.send.socketReady packet outcome } := by
  have hin := h.inTime
  unfold UdpSend.socketReady
  split
  · rename_i payload hpc
    rw [hpc] at hin
    split
    · exact h.keep rfl (not_ended ht) hin
    · exact h.keep rfl (not_ended ht) hin
    · split_ifs
      · exact h.keep rfl (not_ended ht) hin
      · exact h.keep rfl (not_ended ht) hin
  · exact h

end Writer

/-- **Every step.** -/
theorem good_step {p : Paced P} (h : p.Good) (a : Act P) : (p.step a).Good := by
  cases a with
  | owner a =>
    refine ⟨h.counted.step a, ?_, h.orphaned, h.inTime, h.waits, h.previous, h.chain⟩
    simp only [step, Owners.writeHalf_step]
    exact h.alive
  | dropWriteHalf =>
    simp only [step]
    split_ifs with hended
    · exact ⟨h.counted.dropWriteHalf, fun _ => hended, h.orphaned, h.inTime, h.waits, h.previous, h.chain⟩
    · exact h
  | send a =>
    simp only [step]
    split
    · rename_i packet ht
      exact good_advance h ht
    · rename_i a _ _ hne
      cases a with
      | conn a =>
        obtain ⟨hpacer, hnow, -, hpc, hended⟩ := UdpSend.connStep_frame p.send a
        refine h.keep (by simp only [UdpSend.step, hpacer]) hended ?_
        simp only [UdpSend.step, hnow]
        rcases hpc with hpc | hpc | hpc
        · rw [hpc]
          exact h.inTime
        · rw [hpc]
          trivial
        · rw [hpc]
          trivial
      | serialized result =>
        simp only [UdpSend.step]
        split
        · rename_i ht
          exact good_serialized h ht result
        · exact h
      | socketReady outcome =>
        simp only [UdpSend.step]
        split
        · rename_i ht
          exact good_socketReady h ht outcome
        · exact h
      | advance =>
        simp only [UdpSend.step]
        split
        · rename_i ht
          exact absurd ht (hne _ rfl)
        · exact h
      | close => exact h.keep rfl id h.inTime
      | setSendRate rate => exact h.keep rfl id h.inTime
      | tick nanos => exact h.keep rfl id (h.inTime.tick nanos)

theorem good_run (o : Outgoing P) (maxPayloadSize : ℕ) (rate : Option ℕ+) (states : ℕ)
    (as : List (Act P)) : (run step (new o maxPayloadSize rate states) as).Good :=
  run_inv (I := Good) (fun _ a h => good_step h a) as (good_new o maxPayloadSize rate states)

/-- Without the record and the owners it is a step of the writer. -/
theorem send_step {p : Paced P} (h : p.Good) (a : UdpSend.Act P) :
    (p.step (.send a)).send = p.send.step a := by
  simp only [step]
  split
  · rename_i packet ht
    simp only [UdpSend.step, ht, advance]
    split
    · split <;> rfl
    · have hpos := h.counted.senders_pos (h.writeHalf ht)
      rw [if_neg (by omega)]
    · split_ifs <;> rfl
    · rfl
    · rfl
  · rfl

/-! ### One rate -/

/-- The rate is `r`, and no other has been read. -/
structure Steady (r : ℕ+) (p : Paced P) : Prop where
  rate : p.send.rate = some r
  observed : p.observed = some r
  sends : ∀ x ∈ p.sends, x.rate = some r

end Paced

namespace UdpSend

theorem rate_advance (s : UdpSend P) (packet : P) : (s.advance packet).rate = s.rate := by
  unfold advance
  split
  · simp only
    split
    · split_ifs <;> rfl
    · rfl
  · split_ifs <;> rfl
  · split_ifs <;> rfl
  · split_ifs <;> rfl
  · split_ifs <;> rfl
  · split_ifs <;> rfl
  · simp only
    split <;> rfl
  · split_ifs <;> rfl
  · rfl

/-- Only `set_send_rate` sets the rate. -/
theorem rate_step (s : UdpSend P) {a : Act P} (ha : ∀ rate, a ≠ .setSendRate rate) :
    (s.step a).rate = s.rate := by
  cases a with
  | conn a => exact (connStep_frame s a).2.2.1
  | serialized result =>
    simp only [step]
    split
    · unfold serialized
      split
      · split
        · rfl
        · split_ifs <;> rfl
      · rfl
    · rfl
  | socketReady outcome =>
    simp only [step]
    split
    · unfold socketReady
      split
      · split
        · rfl
        · rfl
        · split_ifs <;> rfl
      · rfl
    · rfl
  | advance =>
    simp only [step]
    split
    · exact rate_advance s _
    · rfl
  | close => rfl
  | setSendRate rate => exact absurd rfl (ha rate)
  | tick nanos => rfl

end UdpSend

namespace Paced

theorem steady_advance {p : Paced P} {r : ℕ+} (h : Steady r p) (packet : P) :
    Steady r (p.advance packet) := by
  obtain ⟨hr, ho, hs⟩ := h
  have hrate : (p.send.advance packet).rate = some r := (UdpSend.rate_advance _ _).trans hr
  unfold advance
  split
  · simp only
    split
    · exact ⟨hrate, hr, hs⟩
    · exact ⟨hrate, hr, hs⟩
  · split_ifs
    · exact ⟨hr, ho, hs⟩
    · exact ⟨hrate, ho, hs⟩
  · split_ifs
    · exact ⟨hrate, ho, hs⟩
    · exact ⟨hrate, ho, hs⟩
  · refine ⟨hrate, ho, fun x hx => ?_⟩
    rcases List.mem_append.mp hx with hx | hx
    · exact hs x hx
    · rw [List.mem_singleton] at hx
      subst hx
      exact ho
  · exact ⟨hrate, ho, hs⟩

theorem steady_step {p : Paced P} {r : ℕ+} (h : Steady r p) {a : Act P}
    (ha : ∀ rate, a = .send (.setSendRate rate) → rate = some r) : Steady r (p.step a) := by
  cases a with
  | owner a => exact ⟨h.rate, h.observed, h.sends⟩
  | dropWriteHalf =>
    simp only [step]
    split_ifs
    · exact ⟨h.rate, h.observed, h.sends⟩
    · exact h
  | send a =>
    simp only [step]
    split
    · exact steady_advance h _
    · rename_i a _ _ _
      by_cases hset : ∃ rate, a = .setSendRate rate
      · obtain ⟨rate, rfl⟩ := hset
        exact ⟨ha rate rfl, h.observed, h.sends⟩
      · refine ⟨?_, h.observed, h.sends⟩
        simp only
        rw [UdpSend.rate_step p.send fun rate he => hset ⟨rate, he⟩]
        exact h.rate

/-- **The sum over a window.** Between two sends at the rate `r` lies the time
that the bytes of all but the last take. -/
theorem window_le {r : ℕ+} {sends : List Sent} (hchain : sends.IsChain Apart)
    (hrate : ∀ x ∈ sends, x.rate = some r) (i : ℕ) :
    ∀ (d : ℕ) (h : i + d < sends.length),
      sends[i].time ≤ sends[i + d].time ∧
      1000000000 * (((sends.drop i).take d).map Sent.bytes).sum ≤ r * (sends[i + d].time - sends[i].time)
  | 0, h => by simp
  | d + 1, h => by
    obtain ⟨hle, ih⟩ := window_le hchain hrate i d (by omega)
    have hstep : Apart sends[i + d] sends[i + d + 1] := List.isChain_iff_getElem.mp hchain (i + d) (by omega)
    have hapart := hstep r (hrate _ (List.getElem_mem _))
    have hbytes : 1000000000 * sends[i + d].bytes ≤ r * (sends[i + d + 1].time - sends[i + d].time) := by
      have hsp := (spacing_le_iff sends[i + d].bytes r (sends[i + d + 1].time - sends[i + d].time)).mp
        (by omega)
      omega
    have htake : ((sends.drop i).take (d + 1)).map Sent.bytes =
        ((sends.drop i).take d).map Sent.bytes ++ [sends[i + d].bytes] := by
      rw [List.take_add_one, List.map_append]
      simp [List.getElem?_eq_getElem (show i + d < sends.length by omega)]
    have hsplit : (sends[i + d + 1].time - sends[i + d].time) + (sends[i + d].time - sends[i].time) =
        sends[i + d + 1].time - sends[i].time := by omega
    refine ⟨by simp only [← Nat.add_assoc]; omega, ?_⟩
    simp only [← Nat.add_assoc]
    rw [htake, List.sum_append, List.sum_singleton, Nat.mul_add, ← hsplit, Nat.mul_add]
    omega

/-- **The pacing bound.** In every run of the writer, whatever the clock, the
rate and the other tasks do: `wait` does not return before the last datagram
has had its time at the rate observed, and never for want of a sender of the
rate; at one rate the bytes of any window fit the time between its ends. The
spacing in machine words is the ceiling. -/
theorem pacing_bound (t : Target) (o : Outgoing P) (maxPayloadSize : ℕ) (rate : Option ℕ+) (states : ℕ)
    (as : List (Act P)) :
    let p := run step (new o maxPayloadSize rate states) as
    (∀ w ∈ p.waits, ∀ time bytes, ∀ r : ℕ+, w.previous = some (time, bytes) → w.rate = some r →
      time + ⌈(bytes * 1000000000 : ℚ) / r⌉₊ ≤ w.time) ∧
    (∀ r : ℕ+, rate = some r → (∀ rate', .send (.setSendRate rate') ∈ as → rate' = some r) →
      ∀ (i j : ℕ) (_ : i < j) (_ : j < p.sends.length),
        1000000000 * (((p.sends.drop i).take (j - i)).map Sent.bytes).sum ≤
          r * (p.sends[j].time - p.sends[i].time)) ∧
    (∀ bytes < t.usize, ∀ r : ℕ+, r < 2 ^ 64 →
      bytes * 1000000000 < 2 ^ 128 ∧
      tryFrom 64 (spacing bytes r / 1000000000) = some (spacing bytes r / 1000000000) ∧
      tryFrom 32 (spacing bytes r % 1000000000) = some (spacing bytes r % 1000000000) ∧
      (spacingDuration bytes r).asNanos = ⌈(bytes * 1000000000 : ℚ) / r⌉₊) ∧
    p.orphaned = false := by
  intro p
  have hg := good_run o maxPayloadSize rate states as
  refine ⟨fun w hw time bytes r hp hr => ?_, fun r hr hset i j hij hj => ?_,
    fun bytes hbytes r _ => ?_, hg.orphaned⟩
  · rw [← spacing_eq_ceil]
    exact hg.waits w hw time bytes r hp hr
  · have hsteady : Steady r p := by
      refine run_inv_of_meets (C := fun _ a => ∀ rate', a = .send (.setSendRate rate') → rate' = some r)
        (I := Steady r) (fun _ _ hc h => steady_step h hc) as ?_ ⟨hr, hr, by simp [new]⟩
      exact meets_of_forall as _ fun a ha rate' he => hset rate' (he ▸ ha)
    obtain ⟨d, rfl⟩ := Nat.exists_eq_add_of_le hij.le
    have hwin := window_le hg.chain hsteady.sends i d hj
    rw [Nat.add_sub_cancel_left]
    exact hwin.2
  · rw [← spacing_eq_ceil]
    exact spacingDuration_exact t hbytes r

/-- Two datagrams of one byte at one byte a second; the second one waits. -/
def twoSends : List (Act ℕ) :=
  [.send (.conn (.send 7)), .send (.conn (.proceed 0)), .send (.conn .poll), .send (.conn .advance),
    .send (.conn .advance), .send (.serialized (.ok [1])), .send .advance, .send .advance, .send .advance,
    .send (.socketReady (some (.ok 1))), .send .advance, .send (.conn .advance),
    .send (.conn (.send 8)), .send (.conn (.proceed 1)), .send (.conn .advance), .send (.conn .advance),
    .send (.serialized (.ok [2])), .send .advance, .send .advance, .send .advance, .send .advance,
    .send (.tick 1000000000), .send (.conn .poll), .send .advance, .send .advance, .send .advance,
    .send .advance, .send .advance, .send (.socketReady (some (.ok 1))), .send .advance]

theorem pacing_bound_two :
    let p := run step (new (.channel .bits64 4 .dropNewest true) 1024 (some 1) 1) twoSends
    p.sends.map Sent.time = [0, 1000000000] ∧
      ∃ _ : 1 < p.sends.length, 1000000000 * (((p.sends.drop 0).take (1 - 0)).map Sent.bytes).sum ≤
        ((1 : ℕ+) : ℕ) * (p.sends[1].time - p.sends[0].time) := by
  intro p
  have hlen : 1 < p.sends.length := by decide +kernel
  refine ⟨by decide +kernel, hlen, ?_⟩
  refine (pacing_bound .bits64 (.channel .bits64 4 .dropNewest true) 1024 (some 1) 1 twoSends).2.1 1 rfl
    ?_ 0 1 Nat.one_pos hlen
  intro rate' hmem
  simp [twoSends] at hmem

end Paced

end Slinet
