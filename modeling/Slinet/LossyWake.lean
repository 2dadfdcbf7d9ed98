/-
# The lossy queue never sleeps on work

`LossySender::send` and `LossyReceiver::recv` wait on two `Notify`s, `space`
and `changed`, and every lock section that frees room, adds an item or closes
notifies only after it has released the lock. The machine of this file takes
the calls apart into the steps that can interleave: enabling a waiter, the
lock section, the notify call that is then due, the drop of the waiter, the
resumption of a woken call, the cancellation of a waiting one. Any number of
`send` calls run at once (`sends`), any number of `try_send` and sender drops
have their notify call due (`dueOne`, `dueAll`), and one receiver runs `recv`,
`try_recv_if` or `close_and_drain`.

A wake-up is in flight (`InFlight`) from the lock section that makes it due
until the woken call has looked at the queue again. `not_stuck`: in no
reachable state is none in flight while the receiver sleeps on a queue with
an item or without senders, or a `send` sleeps on a closed or an empty queue.

The receiver is the only waiter of `changed`, so its wake-up is due until it
gets it. On `space` a wake-up may go to a call that then does not fit, or to
one that is cancelled; what saves the others is that the call that consumes
it looks at the queue next, and an empty queue has room for any item a `send`
waits with.
-/
import Slinet.Lossy
import Slinet.Notify

namespace Slinet
namespace LossyWake

open Lossy

variable {T : Type*} {q : Limits}

/-- Where a `send` call stands. `woken` says that it has been woken and not
looked at the queue since, `done` that its waiter took the permit when it was
enabled, and so is complete. -/
inductive SendPc (T : Type*)
  | idle
  | top (value : T) (bytes : ℕ) (woken : Bool)
  | enabled (value : T) (bytes : ℕ) (woken done : Bool)
  | waiting (value : T) (bytes : ℕ) (done : Bool)
  | pushed (done : Bool)
  | leaving (done : Bool)

/-- Where the receiver stands: in `recv` (`top` to `leaving`), after the pop
of a `try_recv_if` (`taken`), or between the two notify calls that
`close_and_drain` makes (`drained`, `drainedChanged`). -/
inductive RecvPc
  | idle
  | top
  | enabled (done : Bool)
  | waiting (done : Bool)
  | popped (done : Bool)
  | leaving (done : Bool)
  | taken
  | drained
  | drainedChanged
  deriving DecidableEq, Repr

/-- The call owns an enabled waiter that is not complete. -/
def SendPc.Holds : SendPc T → Prop
  | .enabled _ _ _ done => done = false
  | .waiting _ _ done => done = false
  | .pushed done => done = false
  | .leaving done => done = false
  | _ => False

/-- The call was woken and has not looked at the queue since. -/
def SendPc.Resumed : SendPc T → Prop
  | .top _ _ woken => woken = true
  | .enabled _ _ woken _ => woken = true
  | _ => False

/-- The call passed the size test before its loop. -/
def SendPc.Fits (q : Limits) : SendPc T → Prop
  | .top _ bytes _ => ¬ (q.maxItems = 0 ∨ bytes > q.maxBytes)
  | .enabled _ bytes _ _ => ¬ (q.maxItems = 0 ∨ bytes > q.maxBytes)
  | .waiting _ bytes _ => ¬ (q.maxItems = 0 ∨ bytes > q.maxBytes)
  | _ => True

def RecvPc.Holds : RecvPc → Prop
  | .enabled done => done = false
  | .waiting done => done = false
  | .popped done => done = false
  | .leaving done => done = false
  | _ => False

/-- `space.notify_one` is due. -/
def RecvPc.OwesOne : RecvPc → Prop
  | .popped _ => True
  | .taken => True
  | _ => False

/-- `space.notify_waiters` is due. -/
def RecvPc.OwesAll : RecvPc → Prop
  | .drained => True
  | .drainedChanged => True
  | _ => False

structure Sys (q : Limits) (T : Type*) where
  queue : Queue q T
  changed : Notify Unit
  space : Notify ℕ
  sends : ℕ → SendPc T
  recv : RecvPc
  dueOne : ℕ
  dueAll : ℕ

def Sys.new : Sys q T := ⟨Queue.new, .new, .new, fun _ => .idle, .idle, 0, 0⟩

def Sys.setSend (s : Sys q T) (i : ℕ) (pc : SendPc T) : Sys q T :=
  { s with sends := Function.update s.sends i pc }

inductive Act (T : Type*)
  | clone
  | dropSender
  | fireAll
  | trySendWhere (value : T) (bytes : ℕ) (canEvict : T → Bool)
  | fireOne
  | sendStart (i : ℕ) (value : T) (bytes : ℕ)
  | sendEnable (i : ℕ)
  | sendLock (i : ℕ)
  | sendNotify (i : ℕ)
  | sendLeave (i : ℕ)
  | sendResume (i : ℕ)
  | sendCancel (i : ℕ)
  | recvStart
  | recvEnable
  | recvLock
  | recvNotify
  | recvLeave
  | recvResume
  | recvCancel
  | tryRecvIf (ready : T → Bool)
  | takenNotify
  | closeAndDrain
  | closeNotifyChanged
  | closeNotifySpace

/-! ### The steps of the senders -/

/-- Dropping a handle; the last one owes `changed.notify_waiters`. -/
def Sys.dropSender (s : Sys q T) : Sys q T :=
  if s.queue.state.senders = 0 then s
  else if s.queue.state.senders = 1 then
    { s with queue := s.queue.dropSender, dueAll := s.dueAll + 1 }
  else { s with queue := s.queue.dropSender }

def Sys.fireAll (s : Sys q T) : Sys q T :=
  if s.dueAll = 0 then s else { s with changed := s.changed.notifyWaiters, dueAll := s.dueAll - 1 }

/-- The lock section of `try_send_where`; an accepted item owes
`changed.notify_one`. -/
def Sys.trySendWhere (s : Sys q T) (value : T) (bytes : ℕ) (canEvict : T → Bool) : Sys q T :=
  match s.queue.trySendWhere value bytes canEvict with
  | (.ok _, queue) => { s with queue := queue, dueOne := s.dueOne + 1 }
  | (.error _, queue) => { s with queue := queue }

def Sys.fireOne (s : Sys q T) : Sys q T :=
  if s.dueOne = 0 then s else { s with changed := s.changed.notifyOne, dueOne := s.dueOne - 1 }

/-- A `send` call begins: the size test before the loop. -/
def Sys.sendStart (s : Sys q T) (i : ℕ) (value : T) (bytes : ℕ) : Sys q T :=
  match s.sends i with
  | .idle =>
    if q.maxItems = 0 ∨ bytes > q.maxBytes then s else s.setSend i (.top value bytes false)
  | _ => s

def Sys.sendEnable (s : Sys q T) (i : ℕ) : Sys q T :=
  match s.sends i with
  | .top value bytes woken =>
    match s.space.enable i with
    | (space, done) => { s.setSend i (.enabled value bytes woken done) with space := space }
  | _ => s

/-- The lock section of a turn of `send`. -/
def Sys.sendLock (s : Sys q T) (i : ℕ) : Sys q T :=
  match s.sends i with
  | .enabled value bytes _ done =>
    match s.queue.sendTurn value bytes with
    | (.sent, queue) => { s.setSend i (.pushed done) with queue := queue }
    | (.failed _, queue) => { s.setSend i (.leaving done) with queue := queue }
    | (.blocked, queue) => { s.setSend i (.waiting value bytes done) with queue := queue }
  | _ => s

def Sys.sendNotify (s : Sys q T) (i : ℕ) : Sys q T :=
  match s.sends i with
  | .pushed done => { s.setSend i (.leaving done) with changed := s.changed.notifyOne }
  | _ => s

/-- The call returns and drops its waiter. -/
def Sys.sendLeave (s : Sys q T) (i : ℕ) : Sys q T :=
  match s.sends i with
  | .leaving true => s.setSend i .idle
  | .leaving false => { s.setSend i .idle with space := s.space.drop i }
  | _ => s

/-- A waiting call whose waiter is complete goes round its loop. -/
def Sys.sendResume (s : Sys q T) (i : ℕ) : Sys q T :=
  match s.sends i with
  | .waiting value bytes true => s.setSend i (.top value bytes false)
  | .waiting value bytes false =>
    if s.space.woken i = none then s
    else { s.setSend i (.top value bytes true) with space := s.space.resume i }
  | _ => s

/-- A waiting call is dropped. -/
def Sys.sendCancel (s : Sys q T) (i : ℕ) : Sys q T :=
  match s.sends i with
  | .waiting _ _ true => s.setSend i .idle
  | .waiting _ _ false => { s.setSend i .idle with space := s.space.drop i }
  | _ => s

/-! ### The steps of the receiver -/

def Sys.recvStart (s : Sys q T) : Sys q T :=
  match s.recv with
  | .idle => { s with recv := .top }
  | _ => s

def Sys.recvEnable (s : Sys q T) : Sys q T :=
  match s.recv with
  | .top =>
    match s.changed.enable () with
    | (changed, done) => { s with changed := changed, recv := .enabled done }
  | _ => s

/-- The `try_recv` of a turn of `recv`. -/
def Sys.recvLock (s : Sys q T) : Sys q T :=
  match s.recv with
  | .enabled done =>
    match s.queue.tryRecv with
    | (.ok _, queue) => { s with queue := queue, recv := .popped done }
    | (.error .disconnected, queue) => { s with queue := queue, recv := .leaving done }
    | (.error .empty, queue) => { s with queue := queue, recv := .waiting done }
  | _ => s

def Sys.recvNotify (s : Sys q T) : Sys q T :=
  match s.recv with
  | .popped done => { s with space := s.space.notifyOne, recv := .leaving done }
  | _ => s

def Sys.recvLeave (s : Sys q T) : Sys q T :=
  match s.recv with
  | .leaving true => { s with recv := .idle }
  | .leaving false => { s with recv := .idle, changed := s.changed.drop () }
  | _ => s

def Sys.recvResume (s : Sys q T) : Sys q T :=
  match s.recv with
  | .waiting true => { s with recv := .top }
  | .waiting false =>
    if s.changed.woken () = none then s
    else { s with recv := .top, changed := s.changed.resume () }
  | _ => s

def Sys.recvCancel (s : Sys q T) : Sys q T :=
  match s.recv with
  | .waiting true => { s with recv := .idle }
  | .waiting false => { s with recv := .idle, changed := s.changed.drop () }
  | _ => s

def Sys.tryRecvIf (s : Sys q T) (ready : T → Bool) : Sys q T :=
  match s.recv with
  | .idle =>
    match s.queue.tryRecvIf ready with
    | (.ok _, queue) => { s with queue := queue, recv := .taken }
    | (.error _, queue) => { s with queue := queue }
  | _ => s

def Sys.takenNotify (s : Sys q T) : Sys q T :=
  match s.recv with
  | .taken => { s with space := s.space.notifyOne, recv := .idle }
  | _ => s

/-- The lock section of `close_and_drain`, also run when the receiver drops. -/
def Sys.closeAndDrain (s : Sys q T) : Sys q T :=
  match s.recv with
  | .idle => { s with queue := s.queue.closeAndDrain.2, recv := .drained }
  | _ => s

def Sys.closeNotifyChanged (s : Sys q T) : Sys q T :=
  match s.recv with
  | .drained => { s with changed := s.changed.notifyWaiters, recv := .drainedChanged }
  | _ => s

def Sys.closeNotifySpace (s : Sys q T) : Sys q T :=
  match s.recv with
  | .drainedChanged => { s with space := s.space.notifyWaiters, recv := .idle }
  | _ => s

def Sys.step (s : Sys q T) : Act T → Sys q T
  | .clone => if s.queue.state.senders = 0 then s else { s with queue := s.queue.clone }
  | .dropSender => s.dropSender
  | .fireAll => s.fireAll
  | .trySendWhere value bytes canEvict => s.trySendWhere value bytes canEvict
  | .fireOne => s.fireOne
  | .sendStart i value bytes => s.sendStart i value bytes
  | .sendEnable i => s.sendEnable i
  | .sendLock i => s.sendLock i
  | .sendNotify i => s.sendNotify i
  | .sendLeave i => s.sendLeave i
  | .sendResume i => s.sendResume i
  | .sendCancel i => s.sendCancel i
  | .recvStart => s.recvStart
  | .recvEnable => s.recvEnable
  | .recvLock => s.recvLock
  | .recvNotify => s.recvNotify
  | .recvLeave => s.recvLeave
  | .recvResume => s.recvResume
  | .recvCancel => s.recvCancel
  | .tryRecvIf ready => s.tryRecvIf ready
  | .takenNotify => s.takenNotify
  | .closeAndDrain => s.closeAndDrain
  | .closeNotifyChanged => s.closeNotifyChanged
  | .closeNotifySpace => s.closeNotifySpace

/-! ### The invariant -/

/-- The call `i` waits and has not been woken. -/
def Sys.Asleep (s : Sys q T) (i : ℕ) : Prop :=
  (∃ value bytes, s.sends i = .waiting value bytes false) ∧ i ∈ s.space.waiters

/-- A wake-up of `space` is due, given, or being acted on. -/
def Sys.SpaceWoken (s : Sys q T) : Prop :=
  s.recv.OwesOne ∨ (∃ j, s.space.woken j = some .one) ∨ ∃ j, (s.sends j).Resumed

/-- What every step keeps. The first five fields say that the waiters of the
two `Notify`s are those of the calls; the others, what a sleeping call can
count on. -/
structure Good (s : Sys q T) : Prop where
  changed : s.changed.Good
  space : s.space.Good
  recvHas : s.changed.Has () ↔ s.recv.Holds
  sendHas : ∀ i, s.space.Has i ↔ (s.sends i).Holds
  fits : ∀ i, (s.sends i).Fits q
  item : s.recv = .waiting false → s.changed.woken () = none → s.queue.state.items ≠ [] →
    0 < s.dueOne ∨ ∃ i done, s.sends i = .pushed done
  sender : s.recv = .waiting false → s.changed.woken () = none → s.queue.state.senders = 0 →
    0 < s.dueAll
  closed : ∀ i, s.Asleep i → s.queue.state.receiverOpen = false → s.recv.OwesAll
  empty : ∀ i, s.Asleep i → s.queue.state.items = [] → s.queue.state.receiverOpen = true →
    s.SpaceWoken

theorem good_new : Good (Sys.new : Sys q T) where
  changed := Notify.good_new
  space := Notify.good_new
  recvHas := by simp [Sys.new, Notify.not_has_new, RecvPc.Holds]
  sendHas i := by simp [Sys.new, Notify.not_has_new, SendPc.Holds]
  fits i := trivial
  item h := by cases h
  sender h := by cases h
  closed i h := by simp [Sys.Asleep, Sys.new] at h
  empty i h := by simp [Sys.Asleep, Sys.new] at h

theorem good_clone {s : Sys q T} (h : Good s) :
    Good { s with queue := s.queue.clone } where
  changed := h.changed
  space := h.space
  recvHas := h.recvHas
  sendHas := h.sendHas
  fits := h.fits
  item := h.item
  sender _ _ h0 := absurd h0 (Nat.succ_ne_zero _)
  closed := h.closed
  empty := h.empty

theorem good_dropSender {s : Sys q T} (h : Good s) : Good s.dropSender := by
  unfold Sys.dropSender
  split
  · exact h
  · rename_i h0
    split
    · exact ⟨h.changed, h.space, h.recvHas, h.sendHas, h.fits, h.item,
        fun _ _ _ => Nat.succ_pos _, h.closed, h.empty⟩
    · rename_i h1
      refine ⟨h.changed, h.space, h.recvHas, h.sendHas, h.fits, h.item, fun _ _ h2 => ?_,
        h.closed, h.empty⟩
      have : s.queue.state.senders - 1 = 0 := h2
      omega

theorem good_fireAll {s : Sys q T} (h : Good s) : Good s.fireAll := by
  unfold Sys.fireAll
  split
  · exact h
  · -- the receiver, if it waits, is woken
    have hw : s.recv = .waiting false → s.changed.notifyWaiters.woken () ≠ none := by
      intro hr hn
      have := (Notify.has_notifyWaiters ()).mpr (h.recvHas.mpr (by rw [hr]; rfl))
      rcases this with hm | hm
      · cases hm
      · exact hm hn
    exact ⟨Notify.good_notifyWaiters _, h.space, (Notify.has_notifyWaiters ()).trans h.recvHas,
      h.sendHas, h.fits, fun hr hn => absurd hn (hw hr), fun hr hn => absurd hn (hw hr),
      h.closed, h.empty⟩

/-- A step that leaves an item queued, with the receiver's wake-up due. -/
theorem good_trySendWhere {s : Sys q T} (h : Good s) (value : T) (bytes : ℕ) (canEvict : T → Bool) :
    Good (s.trySendWhere value bytes canEvict) := by
  unfold Sys.trySendWhere Queue.trySendWhere
  rcases trySendWhere_spec s.queue.inv value bytes canEvict with
    ⟨ev, s', he, hi', ho, ho', hs, -, hne⟩ | ⟨he, -⟩ | ⟨he, -⟩
  · simp only [he]
    refine ⟨h.changed, h.space, h.recvHas, h.sendHas, h.fits, fun _ _ _ => Or.inl (Nat.succ_pos _),
      fun hr hn h0 => h.sender hr hn (hs ▸ h0), fun i _ hc => ?_, fun i _ hnil => absurd hnil hne⟩
    simp only [ho'] at hc; cases hc
  · simp only [he]
    exact h
  · simp only [he]
    exact h

/-- With the receiver the only waiter, `notify_one` wakes it. -/
theorem woken_notifyOne_unit {n : Notify Unit} (hg : n.Good) (h : n.Has ()) :
    n.notifyOne.woken () ≠ none := by
  rcases h with hm | hw
  · obtain ⟨w, hw⟩ := Notify.exists_woken_notifyOne hm
    rw [show (() : Unit) = w from rfl, hw]
    exact Option.some_ne_none _
  · obtain ⟨k, hk⟩ := Option.ne_none_iff_exists'.mp hw
    rw [Notify.woken_notifyOne hg hk]
    exact Option.some_ne_none _

/-- `changed.notify_one` leaves no receiver asleep. -/
theorem Good.changed_notifyOne {s : Sys q T} (h : Good s) (hr : s.recv = .waiting false) :
    s.changed.notifyOne.woken () ≠ none :=
  woken_notifyOne_unit h.changed (h.recvHas.mpr (by rw [hr]; rfl))

theorem good_fireOne {s : Sys q T} (h : Good s) : Good s.fireOne := by
  unfold Sys.fireOne
  split
  · exact h
  · exact ⟨Notify.good_notifyOne h.changed, h.space, (Notify.has_notifyOne ()).trans h.recvHas,
      h.sendHas, h.fits, fun hr hn => absurd hn (h.changed_notifyOne hr),
      fun hr hn => absurd hn (h.changed_notifyOne hr), h.closed, h.empty⟩

/-! The steps of one `send` call change `sends` at one index. -/

@[simp] theorem setSend_sends_self (s : Sys q T) (i : ℕ) (pc : SendPc T) :
    (s.setSend i pc).sends i = pc := by simp [Sys.setSend]

theorem setSend_sends_ne (s : Sys q T) {i j : ℕ} (pc : SendPc T) (h : j ≠ i) :
    (s.setSend i pc).sends j = s.sends j := by simp [Sys.setSend, h]

/-- The fields about the calls, after the call `i` moves to `pc`. -/
theorem Good.setSend_fits {s : Sys q T} (h : Good s) {i : ℕ} {pc : SendPc T} (hp : pc.Fits q)
    (j : ℕ) : ((s.setSend i pc).sends j).Fits q := by
  by_cases hj : j = i
  · subst hj; rw [setSend_sends_self]; exact hp
  · rw [setSend_sends_ne s pc hj]; exact h.fits j

/-- A pushed call other than `i` stays pushed. -/
theorem pushed_setSend {s : Sys q T} {i : ℕ} {pc : SendPc T} (hi : ∀ done, s.sends i ≠ .pushed done)
    (h : ∃ j done, s.sends j = .pushed done) :
    ∃ j done, (s.setSend i pc).sends j = .pushed done := by
  obtain ⟨j, done, hj⟩ := h
  have hne : j ≠ i := fun he => hi done (he ▸ hj)
  exact ⟨j, done, by rw [setSend_sends_ne s pc hne]; exact hj⟩

theorem resumed_setSend {s : Sys q T} {i : ℕ} {pc : SendPc T} (hi : ¬ (s.sends i).Resumed)
    (h : ∃ j, (s.sends j).Resumed) : ∃ j, ((s.setSend i pc).sends j).Resumed := by
  obtain ⟨j, hj⟩ := h
  have hne : j ≠ i := fun he => hi (he ▸ hj)
  exact ⟨j, by rw [setSend_sends_ne s pc hne]; exact hj⟩

/-- **A `send` call moves** outside its lock section, without going to sleep:
it may change its waiter, and must leave a wake-up for those still asleep. -/
theorem Good.move {s : Sys q T} (h : Good s) {i : ℕ} {pc : SendPc T} (space : Notify ℕ)
    (hpush : ∀ done, s.sends i ≠ .pushed done) (hfit : pc.Fits q)
    (hawake : ∀ value bytes, pc ≠ .waiting value bytes false) (hgood : space.Good)
    (hself : space.Has i ↔ pc.Holds) (hother : ∀ j, j ≠ i → (space.Has j ↔ s.space.Has j))
    (hmem : ∀ j, j ≠ i → j ∈ space.waiters → j ∈ s.space.waiters)
    (hwake : ∀ j ∈ space.waiters, j ≠ i →
      (∃ k, s.space.woken k = some .one) ∨ (∃ k, (s.sends k).Resumed) →
      (∃ k, space.woken k = some .one) ∨ ∃ k, ((s.setSend i pc).sends k).Resumed) :
    Good { s.setSend i pc with space := space } := by
  have hne : ∀ j, Sys.Asleep { s.setSend i pc with space := space } j → j ≠ i := by
    rintro j ⟨⟨v, b, hv⟩, -⟩ rfl
    rw [show Sys.sends _ j = pc from setSend_sends_self s j pc] at hv
    exact hawake v b hv
  have hasl : ∀ j, Sys.Asleep { s.setSend i pc with space := space } j → s.Asleep j := by
    intro j hj
    have hji := hne j hj
    obtain ⟨⟨v, b, hv⟩, hm⟩ := hj
    rw [show Sys.sends _ j = s.sends j from setSend_sends_ne s pc hji] at hv
    exact ⟨⟨v, b, hv⟩, hmem j hji hm⟩
  refine ⟨h.changed, hgood, h.recvHas, fun j => ?_, h.setSend_fits hfit, fun hr hn hne => ?_,
    h.sender, fun j hj => h.closed j (hasl j hj), fun j hj hnil ho => ?_⟩
  · by_cases hj : j = i
    · subst hj; exact hself.trans (by rw [show Sys.sends _ j = pc from setSend_sends_self s j pc])
    · rw [show Sys.sends _ j = s.sends j from setSend_sends_ne s pc hj]
      exact (hother j hj).trans (h.sendHas j)
  · rcases h.item hr hn hne with hd | hp
    · exact Or.inl hd
    · exact Or.inr (pushed_setSend hpush hp)
  · rcases h.empty j (hasl j hj) hnil ho with ho | hw
    · exact Or.inl ho
    · exact Or.inr (hwake j hj.2 (hne j hj) hw)

theorem good_sendStart {s : Sys q T} (h : Good s) (i : ℕ) (value : T) (bytes : ℕ) :
    Good (s.sendStart i value bytes) := by
  unfold Sys.sendStart
  split
  · rename_i hpc
    split
    · exact h
    · rename_i hfit
      refine h.move s.space (by simp [hpc]) hfit (by simp) h.space ?_ (fun _ _ => Iff.rfl)
        (fun _ _ hm => hm) fun j _ _ hw => hw.imp id (resumed_setSend (by simp [hpc, SendPc.Resumed]))
      exact (h.sendHas i).trans (by simp [hpc, SendPc.Holds])
  · exact h

theorem good_sendEnable {s : Sys q T} (h : Good s) (i : ℕ) : Good (s.sendEnable i) := by
  unfold Sys.sendEnable
  split
  · rename_i value bytes woken hpc
    have hnot : ¬ s.space.Has i := by rw [h.sendHas i, hpc]; exact id
    have hfit : (SendPc.enabled value bytes woken false).Fits q := by
      have := h.fits i; rw [hpc] at this; exact this
    -- the call stays resumed if it was
    have hres : ∀ done, (∃ k, (s.sends k).Resumed) →
        ∃ k, ((s.setSend i (.enabled value bytes woken done)).sends k).Resumed := by
      rintro done ⟨k, hk⟩
      by_cases hki : k = i
      · subst hki; exact ⟨k, by rw [setSend_sends_self]; rw [hpc] at hk; exact hk⟩
      · exact ⟨k, by rw [setSend_sends_ne _ _ hki]; exact hk⟩
    cases hp : s.space.permit with
    | true =>
      rw [Notify.enable_of_permit i hp]
      refine h.move _ (by simp [hpc]) hfit (by simp) ⟨h.space.nodup, h.space.asleep⟩ ?_
        (fun _ _ => Iff.rfl) (fun _ _ hm => hm) fun j _ _ hw => hw.imp id (hres true)
      exact ⟨fun hh => absurd hh hnot, fun hh => by cases hh⟩
    | false =>
      rw [Notify.enable_of_not i hp]
      refine h.move _ (by simp [hpc]) hfit (by simp) (Notify.good_push h.space hnot) ?_ ?_ ?_
        fun j _ _ hw => hw.imp id (hres false)
      · exact ⟨fun _ => rfl, fun _ => Or.inl (by simp)⟩
      · intro j hj
        simp [Notify.Has, hj]
      · intro j hj hm
        simpa [hj] using hm
  · exact h

/-- The call `i` drops its waiter and returns. -/
theorem Good.drop_waiter {s : Sys q T} (h : Good s) {i : ℕ} (hpush : ∀ done, s.sends i ≠ .pushed done)
    (hres : ¬ (s.sends i).Resumed) : Good { s.setSend i .idle with space := s.space.drop i } := by
  refine h.move _ hpush trivial (by simp) (Notify.good_drop h.space i) ?_ ?_ ?_ ?_
  · rw [Notify.has_drop h.space]
    exact ⟨fun hh => absurd rfl hh.2, fun hh => hh.elim⟩
  · intro j hj
    rw [Notify.has_drop h.space]
    exact ⟨fun hh => hh.1, fun hh => ⟨hh, hj⟩⟩
  · exact fun j _ hm => Notify.mem_of_drop hm
  · rintro j hm - (⟨k, hk⟩ | hr)
    · exact Or.inl (Notify.exists_woken_drop hk hm)
    · exact Or.inr (resumed_setSend hres hr)

/-- The call `i`, whose waiter is complete, returns. -/
theorem Good.drop_done {s : Sys q T} (h : Good s) {i : ℕ} {pc : SendPc T}
    (hpush : ∀ done, s.sends i ≠ .pushed done) (hres : ¬ (s.sends i).Resumed)
    (hnot : ¬ (s.sends i).Holds) (hpc : ¬ pc.Holds) (hfit : pc.Fits q)
    (hawake : ∀ value bytes, pc ≠ .waiting value bytes false) : Good (s.setSend i pc) := by
  refine h.move s.space hpush hfit hawake h.space ?_ (fun _ _ => Iff.rfl) (fun _ _ hm => hm)
    fun j _ _ hw => hw.imp id (resumed_setSend hres)
  exact ⟨fun hh => absurd ((h.sendHas i).mp hh) hnot, fun hh => absurd hh hpc⟩

theorem good_sendLeave {s : Sys q T} (h : Good s) (i : ℕ) : Good (s.sendLeave i) := by
  unfold Sys.sendLeave
  split
  · rename_i hpc
    exact h.drop_done (by simp [hpc]) (by simp [hpc, SendPc.Resumed]) (by simp [hpc, SendPc.Holds])
      id trivial (by simp)
  · rename_i hpc
    exact h.drop_waiter (by simp [hpc]) (by simp [hpc, SendPc.Resumed])
  · exact h

theorem good_sendCancel {s : Sys q T} (h : Good s) (i : ℕ) : Good (s.sendCancel i) := by
  unfold Sys.sendCancel
  split
  · rename_i hpc
    exact h.drop_done (by simp [hpc]) (by simp [hpc, SendPc.Resumed]) (by simp [hpc, SendPc.Holds])
      id trivial (by simp)
  · rename_i hpc
    exact h.drop_waiter (by simp [hpc]) (by simp [hpc, SendPc.Resumed])
  · exact h

theorem good_sendResume {s : Sys q T} (h : Good s) (i : ℕ) : Good (s.sendResume i) := by
  unfold Sys.sendResume
  split
  · rename_i value bytes hpc
    have hfit : (SendPc.top value bytes false).Fits q := by
      have := h.fits i; rw [hpc] at this; exact this
    exact h.drop_done (by simp [hpc]) (by simp [hpc, SendPc.Resumed]) (by simp [hpc, SendPc.Holds])
      id hfit (by simp)
  · rename_i value bytes hpc
    split
    · exact h
    · rename_i hw
      have hfit : (SendPc.top value bytes true).Fits q := by
        have := h.fits i; rw [hpc] at this; exact this
      refine h.move _ (by simp [hpc]) hfit (by simp) (Notify.good_resume h.space i) ?_ ?_
        (fun _ _ hm => hm) fun j _ _ _ => Or.inr ⟨i, by rw [setSend_sends_self]; rfl⟩
      · rw [Notify.has_resume h.space hw]
        exact ⟨fun hh => absurd rfl hh.2, fun hh => hh.elim⟩
      · intro j hj
        rw [Notify.has_resume h.space hw]
        exact ⟨fun hh => hh.1, fun hh => ⟨hh, hj⟩⟩
  · exact h

/-- **The lock section of a turn of `send`.** If the call was the one a
wake-up had gone to, the queue it finds is closed or has no room, or it fills
the empty one. -/
theorem good_sendLock {s : Sys q T} (h : Good s) (i : ℕ) : Good (s.sendLock i) := by
  unfold Sys.sendLock
  split
  · rename_i value bytes woken done hpc
    have hfit := h.fits i
    rw [hpc] at hfit
    have hpush : ∀ d, s.sends i ≠ .pushed d := by simp [hpc]
    have hhas : ∀ pc : SendPc T, (pc.Holds ↔ done = false) → ∀ j,
        (s.space.Has j ↔ ((s.setSend i pc).sends j).Holds) := by
      intro pc hp j
      by_cases hj : j = i
      · subst hj
        rw [setSend_sends_self, h.sendHas j, hpc]
        exact hp.symm
      · rw [setSend_sends_ne _ _ hj]; exact h.sendHas j
    unfold Queue.sendTurn
    rcases sendTurn_spec s.queue.inv value bytes with
      ⟨s', he, hi', -, ho', hs, -, hne⟩ | ⟨e, he, hc⟩ | ⟨he, ho, hne⟩
    · simp only [he]
      refine ⟨h.changed, h.space, h.recvHas, hhas _ Iff.rfl, h.setSend_fits trivial,
        fun _ _ _ => Or.inr ⟨i, done, setSend_sends_self s i _⟩, fun hr hn h0 => h.sender hr hn (hs ▸ h0),
        fun j _ hcl => ?_, fun j _ hnil => absurd hnil hne⟩
      simp only [ho'] at hcl; cases hcl
    · have hcl := hc.resolve_left hfit
      simp only [he]
      refine ⟨h.changed, h.space, h.recvHas, hhas _ Iff.rfl, h.setSend_fits trivial,
        fun hr hn hne => (h.item hr hn hne).imp id (pushed_setSend hpush), h.sender, ?_,
        fun j _ _ ho => ?_⟩
      · rintro j ⟨⟨v, b, hv⟩, hm⟩ -
        by_cases hj : j = i
        · subst hj
          rw [show Sys.sends _ j = _ from setSend_sends_self s j _] at hv; cases hv
        · rw [show Sys.sends _ j = s.sends j from setSend_sends_ne s _ hj] at hv
          exact h.closed j ⟨⟨v, b, hv⟩, hm⟩ hcl
      · have : s.queue.state.receiverOpen = true := ho
        rw [hcl] at this; cases this
    · simp only [he]
      refine ⟨h.changed, h.space, h.recvHas, hhas _ Iff.rfl, h.setSend_fits hfit,
        fun hr hn hne => (h.item hr hn hne).imp id (pushed_setSend hpush), h.sender,
        fun j _ hcl => ?_, fun j _ hnil => absurd hnil hne⟩
      have : s.queue.state.receiverOpen = false := hcl
      rw [ho] at this; cases this
  · exact h

theorem good_sendNotify {s : Sys q T} (h : Good s) (i : ℕ) : Good (s.sendNotify i) := by
  unfold Sys.sendNotify
  split
  · rename_i done hpc
    have hasl : ∀ j, (s.setSend i (.leaving done)).Asleep j → s.Asleep j := by
      rintro j ⟨⟨v, b, hv⟩, hm⟩
      by_cases hj : j = i
      · subst hj; rw [setSend_sends_self] at hv; cases hv
      · rw [setSend_sends_ne _ _ hj] at hv; exact ⟨⟨v, b, hv⟩, hm⟩
    refine ⟨Notify.good_notifyOne h.changed, h.space, (Notify.has_notifyOne ()).trans h.recvHas,
      fun j => ?_, h.setSend_fits trivial, fun hr hn => absurd hn (h.changed_notifyOne hr),
      fun hr hn => absurd hn (h.changed_notifyOne hr), fun j hj => h.closed j (hasl j hj),
      fun j hj hnil ho => ?_⟩
    · by_cases hj : j = i
      · subst hj
        rw [show Sys.sends _ j = _ from setSend_sends_self s j _]
        exact (h.sendHas j).trans (by rw [hpc]; rfl)
      · rw [show Sys.sends _ j = s.sends j from setSend_sends_ne s _ hj]; exact h.sendHas j
    · rcases h.empty j (hasl j hj) hnil ho with ho | hw | hr
      · exact Or.inl ho
      · exact Or.inr (Or.inl hw)
      · exact Or.inr (Or.inr (resumed_setSend (by simp [hpc, SendPc.Resumed]) hr))
  · exact h

/-! The receiver: a step that neither sleeps nor owes less to `space`. -/

/-- **The receiver moves** outside its lock sections, without going to sleep. -/
theorem Good.moveRecv {s : Sys q T} (h : Good s) {pc : RecvPc} (changed : Notify Unit)
    (hgood : changed.Good) (hhas : changed.Has () ↔ pc.Holds) (hawake : pc ≠ .waiting false)
    (hone : ¬ s.recv.OwesOne) (hall : ¬ s.recv.OwesAll) :
    Good { s with recv := pc, changed := changed } :=
  ⟨hgood, h.space, hhas, h.sendHas, h.fits, fun hr => absurd hr hawake, fun hr => absurd hr hawake,
    fun j hj hc => absurd (h.closed j hj hc) hall,
    fun j hj hnil ho => Or.inr ((h.empty j hj hnil ho).resolve_left hone)⟩

theorem good_recvStart {s : Sys q T} (h : Good s) : Good s.recvStart := by
  unfold Sys.recvStart
  split
  · rename_i hpc
    refine h.moveRecv s.changed h.changed ?_ (by simp) (by simp [hpc, RecvPc.OwesOne])
      (by simp [hpc, RecvPc.OwesAll])
    exact h.recvHas.trans (by simp [hpc, RecvPc.Holds])
  · exact h

theorem good_recvEnable {s : Sys q T} (h : Good s) : Good s.recvEnable := by
  unfold Sys.recvEnable
  split
  · rename_i hpc
    have hnot : ¬ s.changed.Has () := by rw [h.recvHas, hpc]; exact id
    have hone : ¬ s.recv.OwesOne := by simp [hpc, RecvPc.OwesOne]
    have hall : ¬ s.recv.OwesAll := by simp [hpc, RecvPc.OwesAll]
    cases hp : s.changed.permit with
    | true =>
      rw [Notify.enable_of_permit () hp]
      refine h.moveRecv _ ⟨h.changed.nodup, h.changed.asleep⟩ ?_ (by simp) hone hall
      exact ⟨fun hh => absurd hh hnot, fun hh => by cases hh⟩
    | false =>
      rw [Notify.enable_of_not () hp]
      refine h.moveRecv _ (Notify.good_push h.changed hnot) ?_ (by simp) hone hall
      exact ⟨fun _ => rfl, fun _ => Or.inl (by simp)⟩
  · exact h

/-- **The lock section of a turn of `recv`.** It goes to sleep only on an
empty open queue with a sender left, and a pop owes `space` a wake-up. -/
theorem good_recvLock {s : Sys q T} (h : Good s) : Good s.recvLock := by
  unfold Sys.recvLock
  split
  · rename_i done hpc
    have hhas : ∀ pc : RecvPc, (pc.Holds ↔ done = false) → (s.changed.Has () ↔ pc.Holds) := by
      intro pc hp
      rw [h.recvHas, hpc]
      exact hp.symm
    have hone : ¬ s.recv.OwesOne := by simp [hpc, RecvPc.OwesOne]
    have hall : ¬ s.recv.OwesAll := by simp [hpc, RecvPc.OwesAll]
    unfold Queue.tryRecv Queue.tryRecvIf
    rcases tryRecvIf_spec s.queue.inv (fun _ => true) with
      ⟨item, s', he, hi', -, ho, hs, hv⟩ | ⟨e, he, hd⟩
    · simp only [he]
      exact ⟨h.changed, h.space, hhas _ Iff.rfl, h.sendHas, h.fits, fun hr => (by cases hr),
        fun hr => (by cases hr), fun j hj hc => absurd (h.closed j hj (ho ▸ hc)) hall,
        fun j _ _ _ => Or.inl trivial⟩
    · cases e with
      | disconnected =>
        simp only [he]
        exact ⟨h.changed, h.space, hhas _ Iff.rfl, h.sendHas, h.fits, fun hr => (by cases hr),
          fun hr => (by cases hr), fun j hj hc => absurd (h.closed j hj hc) hall,
          fun j hj hnil ho => Or.inr ((h.empty j hj hnil ho).resolve_left hone)⟩
      | empty =>
        have hnil : s.queue.state.items = [] := by
          cases hitems : s.queue.state.items with
          | nil => rfl
          | cons x l => simp [Lossy.tryRecvIf, hitems] at he
        have hsend : s.queue.state.senders ≠ 0 := fun h0 => by
          have := hd.mpr ⟨hnil, Or.inl h0⟩
          cases this
        simp only [he]
        exact ⟨h.changed, h.space, hhas _ Iff.rfl, h.sendHas, h.fits, fun _ _ hne => absurd hnil hne,
          fun _ _ h0 => absurd h0 hsend, fun j hj hc => absurd (h.closed j hj hc) hall,
          fun j hj hnil ho => Or.inr ((h.empty j hj hnil ho).resolve_left hone)⟩
  · exact h

/-- `space.notify_one` leaves a wake-up for those still asleep. -/
theorem Good.notifySpace {s : Sys q T} (h : Good s) {pc : RecvPc} (hhas : s.changed.Has () ↔ pc.Holds)
    (hawake : pc ≠ .waiting false) (hall : ¬ s.recv.OwesAll) :
    Good { s with space := s.space.notifyOne, recv := pc } := by
  have hasl : ∀ j, Sys.Asleep { s with space := s.space.notifyOne, recv := pc } j → s.Asleep j :=
    fun j hj => ⟨hj.1, Notify.mem_of_notifyOne hj.2⟩
  exact ⟨h.changed, Notify.good_notifyOne h.space, hhas,
    fun j => (Notify.has_notifyOne j).trans (h.sendHas j), h.fits, fun hr => absurd hr hawake,
    fun hr => absurd hr hawake, fun j hj hc => absurd (h.closed j (hasl j hj) hc) hall,
    fun j hj _ _ => Or.inr (Or.inl (Notify.exists_woken_notifyOne (hasl j hj).2))⟩

theorem good_recvNotify {s : Sys q T} (h : Good s) : Good s.recvNotify := by
  unfold Sys.recvNotify
  split
  · rename_i done hpc
    refine h.notifySpace ?_ (by simp) (by simp [hpc, RecvPc.OwesAll])
    exact h.recvHas.trans (by rw [hpc]; rfl)
  · exact h

theorem good_takenNotify {s : Sys q T} (h : Good s) : Good s.takenNotify := by
  unfold Sys.takenNotify
  split
  · rename_i hpc
    refine h.notifySpace ?_ (by simp) (by simp [hpc, RecvPc.OwesAll])
    exact h.recvHas.trans (by rw [hpc]; rfl)
  · exact h

/-- `recv` returns or is cancelled: its waiter, if not complete, is dropped. -/
theorem Good.recv_drop {s : Sys q T} (h : Good s) (hone : ¬ s.recv.OwesOne) (hall : ¬ s.recv.OwesAll) :
    Good { s with recv := .idle, changed := s.changed.drop () } := by
  refine h.moveRecv _ (Notify.good_drop h.changed ()) ?_ (by simp) hone hall
  rw [Notify.has_drop h.changed]
  exact ⟨fun hh => absurd rfl hh.2, fun hh => hh.elim⟩

theorem Good.recv_done {s : Sys q T} (h : Good s) {pc : RecvPc} (hnot : ¬ s.recv.Holds)
    (hpc : ¬ pc.Holds) (hawake : pc ≠ .waiting false) (hone : ¬ s.recv.OwesOne)
    (hall : ¬ s.recv.OwesAll) : Good { s with recv := pc } := by
  refine h.moveRecv s.changed h.changed ?_ hawake hone hall
  exact ⟨fun hh => absurd (h.recvHas.mp hh) hnot, fun hh => absurd hh hpc⟩

theorem good_recvLeave {s : Sys q T} (h : Good s) : Good s.recvLeave := by
  unfold Sys.recvLeave
  split
  · rename_i hpc
    exact h.recv_done (by simp [hpc, RecvPc.Holds]) id (by simp) (by simp [hpc, RecvPc.OwesOne])
      (by simp [hpc, RecvPc.OwesAll])
  · rename_i hpc
    exact h.recv_drop (by simp [hpc, RecvPc.OwesOne]) (by simp [hpc, RecvPc.OwesAll])
  · exact h

theorem good_recvCancel {s : Sys q T} (h : Good s) : Good s.recvCancel := by
  unfold Sys.recvCancel
  split
  · rename_i hpc
    exact h.recv_done (by simp [hpc, RecvPc.Holds]) id (by simp) (by simp [hpc, RecvPc.OwesOne])
      (by simp [hpc, RecvPc.OwesAll])
  · rename_i hpc
    exact h.recv_drop (by simp [hpc, RecvPc.OwesOne]) (by simp [hpc, RecvPc.OwesAll])
  · exact h

theorem good_recvResume {s : Sys q T} (h : Good s) : Good s.recvResume := by
  unfold Sys.recvResume
  split
  · rename_i hpc
    exact h.recv_done (by simp [hpc, RecvPc.Holds]) id (by simp) (by simp [hpc, RecvPc.OwesOne])
      (by simp [hpc, RecvPc.OwesAll])
  · rename_i hpc
    split
    · exact h
    · rename_i hw
      refine h.moveRecv _ (Notify.good_resume h.changed ()) ?_ (by simp) (by simp [hpc, RecvPc.OwesOne])
        (by simp [hpc, RecvPc.OwesAll])
      rw [Notify.has_resume h.changed hw]
      exact ⟨fun hh => absurd rfl hh.2, fun hh => hh.elim⟩
  · exact h

theorem good_tryRecvIf {s : Sys q T} (h : Good s) (ready : T → Bool) : Good (s.tryRecvIf ready) := by
  unfold Sys.tryRecvIf
  split
  · rename_i hpc
    have hall : ¬ s.recv.OwesAll := by simp [hpc, RecvPc.OwesAll]
    have hhas : s.changed.Has () ↔ RecvPc.Holds .taken := h.recvHas.trans (by rw [hpc]; rfl)
    unfold Queue.tryRecvIf
    rcases tryRecvIf_spec s.queue.inv ready with ⟨item, s', he, hi', -, ho, hs, hv⟩ | ⟨e, he, -⟩
    · simp only [he]
      exact ⟨h.changed, h.space, hhas, h.sendHas, h.fits, fun hr => (by cases hr),
        fun hr => (by cases hr), fun j hj hc => absurd (h.closed j hj (ho ▸ hc)) hall,
        fun j _ _ _ => Or.inl trivial⟩
    · simp only [he]
      exact h
  · exact h

theorem good_closeAndDrain {s : Sys q T} (h : Good s) : Good s.closeAndDrain := by
  unfold Sys.closeAndDrain
  split
  · rename_i hpc
    exact ⟨h.changed, h.space, h.recvHas.trans (by rw [hpc]; rfl), h.sendHas, h.fits,
      fun hr => (by cases hr), fun hr => (by cases hr), fun _ _ _ => trivial, fun _ _ _ ho => by cases ho⟩
  · exact h

theorem good_closeNotifyChanged {s : Sys q T} (h : Good s) : Good s.closeNotifyChanged := by
  unfold Sys.closeNotifyChanged
  split
  · rename_i hpc
    refine ⟨Notify.good_notifyWaiters _, h.space, ?_, h.sendHas, h.fits, fun hr => (by cases hr),
      fun hr => (by cases hr), fun _ _ _ => trivial, fun j hj hnil ho => ?_⟩
    · exact (Notify.has_notifyWaiters ()).trans (h.recvHas.trans (by rw [hpc]; rfl))
    · rcases h.empty j hj hnil ho with hh | hh
      · rw [hpc] at hh; exact hh.elim
      · exact Or.inr hh
  · exact h

theorem good_closeNotifySpace {s : Sys q T} (h : Good s) : Good s.closeNotifySpace := by
  unfold Sys.closeNotifySpace
  split
  · rename_i hpc
    exact ⟨h.changed, Notify.good_notifyWaiters _, h.recvHas.trans (by rw [hpc]; rfl),
      fun j => (Notify.has_notifyWaiters j).trans (h.sendHas j), h.fits, fun hr => (by cases hr),
      fun hr => (by cases hr), fun j hj _ => absurd hj.2 List.not_mem_nil,
      fun j hj _ _ => absurd hj.2 List.not_mem_nil⟩
  · exact h

theorem good_step {s : Sys q T} (h : Good s) (a : Act T) : Good (s.step a) := by
  cases a with
  | clone =>
    simp only [Sys.step]
    split
    · exact h
    · exact good_clone h
  | dropSender => exact good_dropSender h
  | fireAll => exact good_fireAll h
  | trySendWhere value bytes canEvict => exact good_trySendWhere h value bytes canEvict
  | fireOne => exact good_fireOne h
  | sendStart i value bytes => exact good_sendStart h i value bytes
  | sendEnable i => exact good_sendEnable h i
  | sendLock i => exact good_sendLock h i
  | sendNotify i => exact good_sendNotify h i
  | sendLeave i => exact good_sendLeave h i
  | sendResume i => exact good_sendResume h i
  | sendCancel i => exact good_sendCancel h i
  | recvStart => exact good_recvStart h
  | recvEnable => exact good_recvEnable h
  | recvLock => exact good_recvLock h
  | recvNotify => exact good_recvNotify h
  | recvLeave => exact good_recvLeave h
  | recvResume => exact good_recvResume h
  | recvCancel => exact good_recvCancel h
  | tryRecvIf ready => exact good_tryRecvIf h ready
  | takenNotify => exact good_takenNotify h
  | closeAndDrain => exact good_closeAndDrain h
  | closeNotifyChanged => exact good_closeNotifyChanged h
  | closeNotifySpace => exact good_closeNotifySpace h

theorem good_run (as : List (Act T)) : Good (run Sys.step (Sys.new : Sys q T) as) :=
  run_inv (I := Good) (fun _ a h => good_step h a) as good_new

/-! ### No lost wake-up -/

/-- A wake-up is in flight: a notify call is due, or a call has been woken
and has not looked at the queue since. -/
def Sys.InFlight (s : Sys q T) : Prop :=
  0 < s.dueOne ∨ 0 < s.dueAll ∨ (∃ i done, s.sends i = .pushed done) ∨ s.recv.OwesOne ∨
    s.recv.OwesAll ∨ (s.changed.woken () ≠ none ∧ s.recv.Holds) ∨
    (∃ i, s.space.woken i ≠ none ∧ (s.sends i).Holds) ∨ ∃ i, (s.sends i).Resumed

/-- The receiver is parked in `recv`. -/
def Sys.RecvParked (s : Sys q T) : Prop := s.recv = .waiting false ∧ s.changed.woken () = none

/-- The `send` call `i` is parked. -/
def Sys.SendParked (s : Sys q T) (i : ℕ) : Prop :=
  (∃ value bytes, s.sends i = .waiting value bytes false) ∧ s.space.woken i = none

/-- Nothing will wake a call that has work to do. -/
def Sys.Stuck (s : Sys q T) : Prop :=
  ¬ s.InFlight ∧
    ((s.RecvParked ∧ (s.queue.state.items ≠ [] ∨ s.queue.state.senders = 0)) ∨
      ∃ i, s.SendParked i ∧ (s.queue.state.receiverOpen = false ∨ s.queue.state.items = []))

/-- **No lost wake-up.** Whatever the senders and the receiver do, in any
order, no stuck state is reached. -/
theorem not_stuck (as : List (Act T)) : ¬ (run Sys.step (Sys.new : Sys q T) as).Stuck := by
  set s := run Sys.step (Sys.new : Sys q T) as with hs
  have h : Good s := good_run as
  rintro ⟨hno, ⟨⟨hr, hn⟩, hq⟩ | ⟨i, ⟨hw, hn⟩, hq⟩⟩
  · apply hno
    rcases hq with hne | h0
    · rcases h.item hr hn hne with hd | hp
      · exact Or.inl hd
      · exact Or.inr (Or.inr (Or.inl hp))
    · exact Or.inr (Or.inl (h.sender hr hn h0))
  · have hholds : (s.sends i).Holds := by
      obtain ⟨v, b, hv⟩ := hw
      rw [hv]; rfl
    have hasl : s.Asleep i := ⟨hw, Notify.mem_waiters_of_has ((h.sendHas i).mpr hholds) hn⟩
    apply hno
    cases ho : s.queue.state.receiverOpen with
    | false => exact Or.inr (Or.inr (Or.inr (Or.inr (Or.inl (h.closed i hasl ho)))))
    | true =>
      rcases h.empty i hasl (hq.resolve_left (by simp [ho])) ho with h1 | ⟨j, hj⟩ | hres
      · exact Or.inr (Or.inr (Or.inr (Or.inl h1)))
      · have hj' : s.space.woken j ≠ none := by rw [hj]; exact Option.some_ne_none _
        exact Or.inr (Or.inr (Or.inr (Or.inr (Or.inr (Or.inr (Or.inl
          ⟨j, hj', (h.sendHas j).mp (Or.inr hj')⟩))))))
      · exact Or.inr (Or.inr (Or.inr (Or.inr (Or.inr (Or.inr (Or.inr hres))))))

end LossyWake
end Slinet
