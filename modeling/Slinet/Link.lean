/-
# A connection's two tasks

`send_packets` (`Slinet.Connection`), and `receive_packets` of `src/client.rs`
and `src/server.rs`. They share the token, the one-shot channel on which the
writer publishes its error, and the outgoing queue, of which the reader's
handle keeps one sender alive.

The loop of the reader is a biased `tokio::select!`: each poll looks at the
one-shot channel, then at the token, then at the transport. A channel whose
sender is gone without a value only disables its branch, for that `select!`;
the next one would poll a completed receiver, which panics. After the loop a
last `try_recv` decides the cause of the disconnection.

`Good` is what the tasks know of each other at every step (`good_step`), given
what is known of the cause (`Cause`, whose own steps are `WriterError`'s).
-/
import Slinet.Reports

namespace Slinet

variable {P : Type*}

/-! ### The reader -/

/-- The plugin whose task it is; the server's also tells its listener. -/
inductive Side
  | client
  | server
  deriving DecidableEq, Repr

/-- The task `receive_packets`. In its `select!`, `off` says that the branch of
the one-shot channel is disabled. -/
inductive Reader (R D L : Type*)
  | unstarted
  /-- A poll begins, with the one-shot channel. -/
  | polling (off : Bool)
  /-- The token is next. -/
  | watching (off : Bool)
  /-- The transport is next. -/
  | reading (off : Bool)
  | parked (off : Bool)
  /-- A packet waits to be forwarded to the ECS; a stream looks at the token first. -/
  | forwarding (packet : R)
  | offering (packet : R)
  /-- The loop is left with this cause. -/
  | left (error : ReceiveError D L)
  /-- The last `try_recv` is done. -/
  | closing (error : ReceiveError D L)
  /-- The token is cancelled, `read.close()` is next. -/
  | closed (error : ReceiveError D L)
  | reporting (error : ReceiveError D L)
  /-- Only on the server. -/
  | notifying
  | done
  | panicked

namespace Reader

variable {R D L : Type*}

/-- In the loop, or before it. -/
def Looping : Reader R D L → Prop
  | unstarted => True
  | polling _ => True
  | watching _ => True
  | reading _ => True
  | parked _ => True
  | forwarding _ => True
  | offering _ => True
  | _ => False

/-- Before the last `try_recv`. -/
def Early : Reader R D L → Prop
  | left _ => True
  | r => r.Looping

/-- The reader has cancelled the token. -/
def Ended : Reader R D L → Prop
  | closed _ => True
  | reporting _ => True
  | notifying => True
  | done => True
  | _ => False

def Alive : Reader R D L → Prop
  | done => False
  | _ => True

def off : Reader R D L → Bool
  | polling off => off
  | watching off => off
  | reading off => off
  | parked off => off
  | _ => false

/-- The cause, once it is settled and until it is sent. -/
def outcome : Reader R D L → Option (ReceiveError D L)
  | closing error => some error
  | closed error => some error
  | reporting error => some error
  | _ => none

end Reader

/-- Who cancelled the token. -/
inductive Canceller
  | user
  | writer
  | reader
  deriving DecidableEq, Repr

/-- One connection with its two tasks and what the ECS sees of its end.
`completed` says that the one-shot receiver has answered that its sender is
gone; `reads` lists what the transport's reader returned, `firstCancel` who
cancelled the token first, and `heard` the failure published by the time of the
last `try_recv`. -/
structure Link (P R D L : Type*) where
  side : Side
  datagram : Bool
  conn : Conn P
  reader : Reader R D L
  completed : Bool
  worldOpen : Bool
  message : Option (ReceiveError D L)
  event : Option (ReceiveError D L)
  reads : List (Except (ReceiveError D L) R)
  firstCancel : Option Canceller
  heard : Option (Option IoError)

namespace Link

variable {R D L : Type*}

/-- Both tasks are spawned; the reader holds the first handle of the queue. -/
def new (side : Side) (datagram : Bool) (t : Target) (sendCapacity : ℕ) (overflow : OverflowPolicy) :
    Link P R D L where
  side := side
  datagram := datagram
  conn := Conn.new (Outgoing.channel t sendCapacity overflow datagram)
  reader := .unstarted
  completed := false
  worldOpen := true
  message := none
  event := none
  reads := []
  firstCancel := none
  heard := none

/-- The reader's last handle goes with it. -/
def finish (s : Link P R D L) : Link P R D L :=
  { s with reader := .done, conn := { s.conn with queue := s.conn.queue.dropSender } }

/-- The reader's own next step. -/
def advance (s : Link P R D L) : Link P R D L :=
  match s.reader with
  | .polling off =>
    if off then { s with reader := .watching true }
    else if s.completed then { s with reader := .panicked }
    else
      match s.conn.sendError with
      | .waiting => { s with reader := .watching false }
      | .sent e => { s with conn := { s.conn with sendError := .taken }, reader := .left (.io e) }
      | _ => { s with completed := true, reader := .watching true }
  | .watching off =>
    if s.conn.token then { s with reader := .left .intentionalDisconnection }
    else { s with reader := .reading off }
  | .forwarding packet =>
    if s.datagram = false ∧ s.conn.token then { s with reader := .left .intentionalDisconnection }
    else { s with reader := .offering packet }
  | .left error =>
    match s.conn.sendError with
    | .sent e =>
      { s with
        conn := { s.conn with sendError := .taken }
        heard := some s.conn.failure
        reader := .closing (.io e) }
    | _ => { s with heard := some s.conn.failure, reader := .closing error }
  | .closing error => { s with conn := { s.conn with token := true }, reader := .closed error }
  | .closed error => { s with reader := .reporting error }
  | _ => s

/-- The reader is woken. -/
def poll (s : Link P R D L) : Link P R D L :=
  match s.reader with
  | .unstarted => { s with reader := .polling false }
  | .parked off => { s with reader := .polling off }
  | _ => s

/-- The transport's reader is pending, or returns. -/
def read (s : Link P R D L) (result : Option (Except (ReceiveError D L) R)) : Link P R D L :=
  match s.reader with
  | .reading off =>
    match result with
    | none => { s with reader := .parked off }
    | some (.ok packet) => { s with reads := s.reads ++ [.ok packet], reader := .forwarding packet }
    | some (.error error) => { s with reads := s.reads ++ [.error error], reader := .left error }
  | _ => s

/-- How a packet offered to the ECS fares; it is refused only by a world that
is gone. -/
inductive Offer
  | accepted
  | pending
  | refused

def offer (s : Link P R D L) (o : Offer) : Link P R D L :=
  match s.reader with
  | .offering packet =>
    match o with
    | .accepted => { s with reader := .polling false }
    | .pending => if s.datagram then s else { s with reader := .forwarding packet }
    | .refused =>
      if s.worldOpen then s else { s with reader := .left .intentionalDisconnection }
  | _ => s

/-- The last message is in the channel of the ECS, or, once the world is gone,
refused. -/
def report (s : Link P R D L) (delivered : Bool) : Link P R D L :=
  match s.reader with
  | .reporting error =>
    if delivered = false ∧ s.worldOpen then s
    else
      let s := { s with message := if delivered then some error else s.message }
      match s.side with
      | .client => s.finish
      | .server => { s with reader := .notifying }
  | _ => s

def notified (s : Link P R D L) : Link P R D L :=
  match s.reader with
  | .notifying => s.finish
  | _ => s

/-- The runtime stops and drops the task where it waits; by then the token,
a child of the runtime's, is cancelled. -/
def stopReader (s : Link P R D L) : Link P R D L :=
  if s.conn.token then
    match s.reader with
    | .unstarted => s.finish
    | .parked _ => s.finish
    | .forwarding _ => s.finish
    | .reporting _ => s.finish
    | .notifying => s.finish
    | _ => s
  else s

/-- A frame of the ECS takes the message and triggers the event. -/
def frame (s : Link P R D L) : Link P R D L :=
  match s.message with
  | some error => if s.worldOpen then { s with message := none, event := some error } else s
  | none => s

/-- The steps of the sending side that can happen: the runtime drops the writer
only under a cancelled token, and the reader keeps its handle. -/
def Allowed (s : Link P R D L) : Conn.Act P → Bool
  | .abort => s.conn.token
  | .dropSender =>
    match s.reader with
    | .done => true
    | _ => 1 < s.conn.queue.senders
  | _ => true

def canceller : Conn.Act P → Canceller
  | .advance => .writer
  | _ => .user

/-- Remembers who cancelled the token first. -/
def note (who : Canceller) (s s' : Link P R D L) : Link P R D L :=
  if s.conn.token = false ∧ s'.conn.token = true then { s' with firstCancel := some who } else s'

inductive Act (P R D L : Type*)
  | conn (a : Conn.Act P)
  | poll
  | advance
  | read (result : Option (Except (ReceiveError D L) R))
  | offer (o : Offer)
  | report (delivered : Bool)
  | notified
  | stopReader
  | frame
  | dropWorld

def step (s : Link P R D L) : Act P R D L → Link P R D L
  | .conn a =>
    if s.Allowed a then note (canceller a) s { s with conn := s.conn.step a } else s
  | .poll => s.poll
  | .advance => note .reader s s.advance
  | .read result => s.read result
  | .offer o => s.offer o
  | .report delivered => s.report delivered
  | .notified => s.notified
  | .stopReader => s.stopReader
  | .frame => s.frame
  | .dropWorld => { s with worldOpen := false }

/-! ### What every step keeps -/

/-- The end was asked for: another than the writer cancelled first, or the
transport's reader reported it. -/
def Excused (s : Link P R D L) : Prop :=
  (∃ who, who ≠ .writer ∧ s.firstCancel = some who) ∨ .error .intentionalDisconnection ∈ s.reads

/-- The cause that is on its way to the ECS, or has arrived. -/
def Carries (s : Link P R D L) (error : ReceiveError D L) : Prop :=
  s.reader.outcome = some error ∨ s.message = some error ∨ s.event = some error

/-- What the two tasks know of each other. -/
structure Good (s : Link P R D L) : Prop where
  reports : s.conn.Reports
  alive : s.reader.Alive → 0 < s.conn.queue.senders
  ended : s.reader.Ended → s.conn.token = true
  sane : s.reader ≠ .panicked
  first : s.conn.token = true ↔ s.firstCancel ≠ none
  writer : s.firstCancel = some .writer → ∃ e, s.conn.failure = some e
  off : s.reader.off = true → s.completed = true
  completed : s.completed = true → s.reader.Looping → s.reader = .watching true ∧ s.conn.token = true

/-- What is known of the cause of the disconnection. -/
structure Cause (s : Link P R D L) : Prop where
  early : s.reader.Early → s.heard = none ∧ s.message = none ∧ s.event = none
  taken : s.conn.sendError = .taken →
    (∃ e, s.conn.failure = some e ∧ s.reader = .left (.io e)) ∨ s.heard ≠ none
  left : s.reader = .left .intentionalDisconnection →
    s.conn.token = true ∨ s.worldOpen = false ∨ .error .intentionalDisconnection ∈ s.reads
  heard : ∀ e error, s.heard = some (some e) → s.Carries error → error = .io e
  carried : s.Carries .intentionalDisconnection → s.Excused ∨ s.worldOpen = false ∧
    s.event ≠ some .intentionalDisconnection

theorem good_new (side : Side) (datagram : Bool) (t : Target) (sendCapacity : ℕ)
    (overflow : OverflowPolicy) :
    Good (new side datagram t sendCapacity overflow : Link P R D L) := by
  have hopen : (Outgoing.channel t sendCapacity overflow datagram : Outgoing P).receiverOpen = true := by
    cases datagram <;> rfl
  have hone : (Outgoing.channel t sendCapacity overflow datagram : Outgoing P).senders = 1 := by
    cases datagram <;> rfl
  refine ⟨Conn.reports_new hopen, fun _ => ?_, fun h => h.elim, by simp [new], ?_,
    by simp [new], by simp [new, Reader.off], by simp [new]⟩
  · simp [new, Conn.new, hone]
  · simp [new, Conn.new]

theorem cause_new (side : Side) (datagram : Bool) (t : Target) (sendCapacity : ℕ)
    (overflow : OverflowPolicy) :
    Cause (new side datagram t sendCapacity overflow : Link P R D L) :=
  ⟨fun _ => ⟨rfl, rfl, rfl⟩, by simp [new, Conn.new], by simp [new], by simp [new],
    by simp [new, Carries, Reader.outcome]⟩

/-- While the reader is there, a writer that goes without a value has seen the
token cancelled. -/
theorem Good.dropped {s : Link P R D L} (h : Good s) (ha : s.reader.Alive)
    (hd : s.conn.sendError = .dropped) : s.conn.token = true := by
  have hpos := h.alive ha
  rcases h.reports.dropped hd with ht | h0
  · exact ht
  · omega

/-- The reader moves on. -/
theorem Good.goto {s : Link P R D L} (h : Good s) {reader : Reader R D L} {worldOpen : Bool}
    {message event : Option (ReceiveError D L)} {reads : List (Except (ReceiveError D L) R)}
    {heard : Option (Option IoError)} (hs : s.reader.Alive)
    (hended : reader.Ended → s.conn.token = true) (hsane : reader ≠ .panicked)
    (hoff : reader.off = true → s.completed = true)
    (hc : s.completed = true → reader.Looping → reader = .watching true ∧ s.conn.token = true) :
    Good { s with
      reader := reader, worldOpen := worldOpen, message := message, event := event, reads := reads,
      heard := heard } :=
  ⟨h.reports, fun _ => h.alive hs, hended, hsane, h.first, h.writer, hoff, hc⟩

/-- A completed channel is only met outside the loop or right before a
cancelled token. -/
theorem Good.fresh {s : Link P R D L} (h : Good s) (hl : s.reader.Looping)
    (hn : s.reader ≠ .watching true) : s.completed = false := by
  cases hc : s.completed with
  | false => rfl
  | true => exact absurd (h.completed hc hl).1 hn

/-- The value is taken from the one-shot channel. -/
theorem Good.take {s : Link P R D L} (h : Good s) {e : IoError} (he : s.conn.sendError = .sent e)
    {reader : Reader R D L} {heard : Option (Option IoError)} (hs : s.reader.Alive)
    (hended : ¬ reader.Ended) (hl : ¬ reader.Looping) (hsane : reader ≠ .panicked)
    (hoff : reader.off = false) :
    Good { s with conn := { s.conn with sendError := .taken }, reader := reader, heard := heard } := by
  have hrep := h.reports
  have hnot : ¬ s.conn.task.Running := fun hr => by simpa [he] using hrep.running hr
  refine ⟨⟨fun hr => absurd hr hnot, fun _ hw => (by cases hw),
    fun hw => (by rcases hw with hw | hw <;> cases hw), fun _ hw => (by cases hw),
    fun _ => ⟨e, hrep.sent e he⟩, fun hw => (by cases hw), hrep.receiving⟩,
    fun _ => h.alive hs, fun hn => absurd hn hended, hsane, h.first, h.writer, ?_, ?_⟩
  · intro ho
    rw [show reader.off = true from ho] at hoff
    cases hoff
  · intro _ hr
    exact absurd hr hl

/-- The token may have been cancelled by this step. -/
theorem Good.note {s s' : Link P R D L} {who : Canceller} (h : Good s)
    (hfc : s'.firstCancel = s.firstCancel) (hrep : s'.conn.Reports)
    (halive : s'.reader.Alive → 0 < s'.conn.queue.senders)
    (hended : s'.reader.Ended → s'.conn.token = true) (hsane : s'.reader ≠ .panicked)
    (hoff : s'.reader.off = true → s'.completed = true)
    (hc : s'.completed = true → s'.reader.Looping →
      s'.reader = .watching true ∧ s'.conn.token = true)
    (htok : s.conn.token = true → s'.conn.token = true)
    (hfail : ∀ e, s.conn.failure = some e → s'.conn.failure = some e)
    (hwho : who = .writer → s.conn.token = false → s'.conn.token = true →
      ∃ e, s'.conn.failure = some e) : Good (note who s s') := by
  unfold Link.note
  split
  · rename_i hflip
    refine ⟨hrep, halive, hended, hsane, ?_, ?_, hoff, hc⟩
    · simp [hflip.2]
    · intro hw
      exact hwho (Option.some.inj hw) hflip.1 hflip.2
  · rename_i hflip
    refine ⟨hrep, halive, hended, hsane, ?_, ?_, hoff, hc⟩
    · rw [hfc, ← h.first]
      refine ⟨fun ht' => ?_, htok⟩
      by_contra ht
      exact hflip ⟨by simpa using ht, ht'⟩
    · rw [hfc]
      intro hw
      obtain ⟨e, he⟩ := h.writer hw
      exact ⟨e, hfail e he⟩

theorem good_conn {s : Link P R D L} (h : Good s) {a : Conn.Act P} (ha : s.Allowed a = true) :
    Good (note (canceller a) s { s with conn := s.conn.step a }) := by
  have hrep : (s.conn.step a).Reports := by
    refine Conn.reports_step h.reports a fun hab => ?_
    rw [hab] at ha
    exact ha
  by_cases hd : a = .dropSender
  · subst hd
    have htok : (s.conn.step .dropSender).token = s.conn.token := by
      simp only [Conn.step, Conn.dropSender]
      split <;> rfl
    have hfail : (s.conn.step .dropSender).failure = s.conn.failure := by
      simp only [Conn.step, Conn.dropSender]
      split <;> rfl
    refine h.note rfl hrep ?_ ?_ h.sane h.off ?_ (fun ht => htok.trans ht)
      (fun e he => hfail.trans he) (fun hw => by cases hw)
    · intro hal
      have hgt : 1 < s.conn.queue.senders := by
        cases hr : s.reader with
        | done => rw [show s.reader = _ from hr] at hal; exact hal.elim
        | _ => simpa [Allowed, hr] using ha
      simp only [Conn.step, Conn.dropSender]
      split
      · omega
      · simp only [Outgoing.senders_dropSender]
        omega
    · intro hn
      exact htok.trans (h.ended hn)
    · intro hc hl
      obtain ⟨h1, h2⟩ := h.completed hc hl
      exact ⟨h1, htok.trans h2⟩
  · have hfr := Conn.frame_step s.conn a hd
    refine h.note rfl hrep (fun hal => lt_of_lt_of_le (h.alive hal) hfr.senders)
      (fun hn => hfr.token (h.ended hn)) h.sane h.off ?_ hfr.token (fun e he => hfr.failure he) ?_
    · intro hc hl
      obtain ⟨h1, h2⟩ := h.completed hc hl
      exact ⟨h1, hfr.token h2⟩
    · intro hw ht ht'
      -- only the drop guard cancels, after the sender of the one-shot is gone
      have hadv : a = .advance := by
        cases a <;> first | rfl | cases hw
      subst hadv
      have hleft := Conn.token_advance s.conn ht ht'
      have hal : s.reader.Alive := by
        cases hr : s.reader with
        | done =>
          rw [h.ended (by rw [hr]; trivial)] at ht
          cases ht
        | _ => trivial
      have hpos := h.alive hal
      have hnr : ¬ s.conn.task.Running := by rw [hleft]; exact fun hr => hr
      cases he : s.conn.sendError with
      | waiting =>
        rcases h.reports.stopped hnr he with ht2 | h0
        · rw [ht] at ht2; cases ht2
        · omega
      | sent e => exact ⟨e, hfr.failure (h.reports.sent e he)⟩
      | taken =>
        obtain ⟨e, hf⟩ := h.reports.taken he
        exact ⟨e, hfr.failure hf⟩
      | dropped =>
        rw [h.dropped hal he] at ht
        cases ht

/-- In the loop the value is still there, if there is one. -/
theorem Cause.not_taken {s : Link P R D L} (h : Cause s) (hl : s.reader.Looping) :
    s.conn.sendError ≠ .taken := by
  intro he
  rcases h.taken he with ⟨e, -, hr⟩ | hh
  · rw [hr] at hl
    exact hl
  · refine hh (h.early ?_).1
    cases hr : s.reader <;> rw [hr] at hl <;> first | exact hl | exact hl.elim

/-- A poll of the one-shot channel. A sender that is gone without a value
leaves a completed receiver behind, with the token cancelled. -/
theorem good_polling {s : Link P R D L} (h : Good s) (hk : Cause s) {off : Bool}
    (hr : s.reader = .polling off) : Good s.advance := by
  have hal : s.reader.Alive := by rw [hr]; trivial
  have hfresh : s.completed = false := h.fresh (by rw [hr]; trivial) (by simp [hr])
  have hoff : off = false := by
    cases off with
    | false => rfl
    | true =>
      have hc := h.off (by rw [hr]; rfl)
      rw [hfresh] at hc
      cases hc
  subst hoff
  simp only [advance, hr]
  rw [if_neg (by simp), if_neg (by simp [hfresh])]
  split
  · exact h.goto hal (fun ho => ho.elim) (by simp) (fun ho => by cases ho) (fun hc => by simp [hfresh] at hc)
  · rename_i e he
    exact h.take he hal (fun ho => ho) (fun hl => hl) (by simp) rfl
  · rename_i hnw hns
    have htok : s.conn.token = true := by
      cases he : s.conn.sendError with
      | waiting => exact absurd he hnw
      | sent e => exact absurd he (hns e)
      | taken => exact absurd he (hk.not_taken (by rw [hr]; trivial))
      | dropped => exact h.dropped hal he
    exact ⟨h.reports, fun _ => h.alive hal, fun ho => ho.elim, by simp, h.first, h.writer,
      fun _ => rfl, fun _ _ => ⟨rfl, htok⟩⟩

theorem note_of_token {s s' : Link P R D L} (who : Canceller) (h : s'.conn.token = s.conn.token) :
    note who s s' = s' := by
  unfold note
  rw [if_neg]
  rintro ⟨h1, h2⟩
  rw [h, h1] at h2
  cases h2

theorem token_advance {s : Link P R D L} (h : ∀ error, s.reader ≠ .closing error) :
    s.advance.conn.token = s.conn.token := by
  unfold advance
  split
  · split
    · rfl
    split
    · rfl
    split <;> rfl
  · split <;> rfl
  · split <;> rfl
  · split <;> rfl
  · rename_i error hr
    exact absurd hr (h error)
  · rfl
  · rfl

theorem good_watching {s : Link P R D L} (h : Good s) {off : Bool} (hr : s.reader = .watching off) :
    Good s.advance := by
  have hal : s.reader.Alive := by rw [hr]; trivial
  simp only [advance, hr]
  split
  · exact h.goto hal (fun ho => ho.elim) (by simp) (fun ho => by cases ho) (fun _ hl => hl.elim)
  · rename_i htok
    -- the token is not cancelled, so the channel has not completed
    have hfresh : s.completed = false := by
      cases hc : s.completed with
      | false => rfl
      | true => exact absurd (h.completed hc (by rw [hr]; trivial)).2 htok
    refine h.goto hal (fun ho => ho.elim) (by simp) ?_ (fun hc => by simp [hfresh] at hc)
    intro ho
    exact h.off (by rw [hr]; exact ho)

theorem good_advance {s : Link P R D L} (h : Good s) (hk : Cause s) :
    Good (note .reader s s.advance) := by
  cases hr : s.reader with
  | closing error =>
    have hal : s.reader.Alive := by rw [hr]; trivial
    simp only [advance, hr]
    exact h.note rfl (h.reports.mono rfl rfl rfl (fun _ => rfl) id rfl) (fun _ => h.alive hal)
      (fun _ => rfl) (by simp) (fun ho => by cases ho) (fun _ hl => hl.elim)
      (fun _ => rfl) (fun e he => he) (fun hw => by cases hw)
  | polling off =>
    rw [note_of_token _ (token_advance (by simp [hr]))]
    exact good_polling h hk hr
  | watching off =>
    rw [note_of_token _ (token_advance (by simp [hr]))]
    exact good_watching h hr
  | forwarding packet =>
    rw [note_of_token _ (token_advance (by simp [hr]))]
    have hal : s.reader.Alive := by rw [hr]; trivial
    have hfresh := h.fresh (by rw [hr]; trivial) (by simp [hr])
    simp only [advance, hr]
    split
    · exact h.goto hal (fun ho => ho.elim) (by simp) (fun ho => by cases ho) (fun _ hl => hl.elim)
    · exact h.goto hal (fun ho => ho.elim) (by simp) (fun ho => by cases ho)
        (fun hc => by simp [hfresh] at hc)
  | left error =>
    rw [note_of_token _ (token_advance (by simp [hr]))]
    have hal : s.reader.Alive := by rw [hr]; trivial
    simp only [advance, hr]
    split
    · rename_i e he
      exact h.take he hal (fun ho => ho) (fun hl => hl) (by simp) rfl
    · exact h.goto hal (fun ho => ho.elim) (by simp) (fun ho => by cases ho) (fun _ hl => hl.elim)
  | closed error =>
    rw [note_of_token _ (token_advance (by simp [hr]))]
    have hal : s.reader.Alive := by rw [hr]; trivial
    simp only [advance, hr]
    exact h.goto hal (fun _ => h.ended (by rw [hr]; trivial)) (by simp) (fun ho => by cases ho)
      (fun _ hl => hl.elim)
  | _ =>
    rw [note_of_token _ (token_advance (by simp [hr]))]
    simp only [advance, hr]
    exact h

/-- The reader ends, under a cancelled token. -/
theorem good_finish {s : Link P R D L} (h : Good s) (htok : s.conn.token = true) :
    Good s.finish :=
  have hrep : Conn.Reports { s.conn with queue := s.conn.queue.dropSender } :=
    h.reports.mono rfl rfl rfl id (fun h0 => by simp [h0]) (by simp)
  ⟨hrep, fun ha => ha.elim, fun _ => htok, by simp [finish], h.first, h.writer,
    fun ho => (by cases ho), fun _ hl => hl.elim⟩

theorem good_poll {s : Link P R D L} (h : Good s) : Good s.poll := by
  unfold poll
  split
  · rename_i hr
    have hc := h.fresh (by rw [hr]; trivial) (by simp [hr])
    exact h.goto (by rw [hr]; trivial) (fun ho => ho.elim) (by simp) (fun ho => by cases ho)
      (fun hc' => by simp [hc] at hc')
  · rename_i off hr
    have hfresh := h.fresh (by rw [hr]; trivial) (by simp [hr])
    exact h.goto (by rw [hr]; trivial) (fun ho => ho.elim) (by simp)
      (fun ho => h.off (by rw [hr]; exact ho)) (fun hc => by simp [hfresh] at hc)
  · exact h

theorem good_read {s : Link P R D L} (h : Good s) (result : Option (Except (ReceiveError D L) R)) :
    Good (s.read result) := by
  unfold read
  split
  · rename_i off hr
    have hal : s.reader.Alive := by rw [hr]; trivial
    have hfresh := h.fresh (by rw [hr]; trivial) (by simp [hr])
    split
    · exact h.goto hal (fun ho => ho.elim) (by simp) (fun ho => h.off (by rw [hr]; exact ho))
        (fun hc => by simp [hfresh] at hc)
    · exact h.goto hal (fun ho => ho.elim) (by simp) (fun ho => by cases ho)
        (fun hc => by simp [hfresh] at hc)
    · exact h.goto hal (fun ho => ho.elim) (by simp) (fun ho => by cases ho) (fun _ hl => hl.elim)
  · exact h

theorem good_offer {s : Link P R D L} (h : Good s) (o : Offer) : Good (s.offer o) := by
  unfold offer
  split
  · rename_i packet hr
    have hal : s.reader.Alive := by rw [hr]; trivial
    have hfresh := h.fresh (by rw [hr]; trivial) (by simp [hr])
    split
    · exact h.goto hal (fun ho => ho.elim) (by simp) (fun ho => by cases ho)
        (fun hc => by simp [hfresh] at hc)
    · split
      · exact h
      · exact h.goto hal (fun ho => ho.elim) (by simp) (fun ho => by cases ho)
          (fun hc => by simp [hfresh] at hc)
    · split
      · exact h
      · exact h.goto hal (fun ho => ho.elim) (by simp) (fun ho => by cases ho)
          (fun _ hl => hl.elim)
  · exact h

theorem good_report {s : Link P R D L} (h : Good s) (delivered : Bool) :
    Good (s.report delivered) := by
  unfold report
  split
  · rename_i error hr
    have hal : s.reader.Alive := by rw [hr]; trivial
    have htok : s.conn.token = true := h.ended (by rw [hr]; trivial)
    have hg : ∀ message, Good { s with message := message } := fun message =>
      ⟨h.reports, h.alive, h.ended, h.sane, h.first, h.writer, h.off, h.completed⟩
    split
    · exact h
    dsimp only
    split
    · exact good_finish (hg _) htok
    · exact h.goto hal (fun _ => htok) (by simp) (fun ho => by cases ho) (fun _ hl => hl.elim)
  · exact h

theorem good_notified {s : Link P R D L} (h : Good s) : Good s.notified := by
  unfold notified
  split
  · rename_i hr
    exact good_finish h (h.ended (by rw [hr]; trivial))
  · exact h

theorem good_stopReader {s : Link P R D L} (h : Good s) : Good s.stopReader := by
  unfold stopReader
  split
  · rename_i htok
    split
    all_goals first | exact good_finish h htok | exact h
  · exact h

theorem good_frame {s : Link P R D L} (h : Good s) : Good s.frame := by
  unfold frame
  split
  · split
    · exact ⟨h.reports, h.alive, h.ended, h.sane, h.first, h.writer, h.off, h.completed⟩
    · exact h
  · exact h

theorem good_step {s : Link P R D L} (h : Good s) (hk : Cause s) (a : Act P R D L) :
    Good (s.step a) := by
  cases a with
  | conn a =>
    simp only [step]
    split
    · rename_i ha
      exact good_conn h ha
    · exact h
  | poll => exact good_poll h
  | advance => exact good_advance h hk
  | read result => exact good_read h result
  | offer o => exact good_offer h o
  | report delivered => exact good_report h delivered
  | notified => exact good_notified h
  | stopReader => exact good_stopReader h
  | frame => exact good_frame h
  | dropWorld => exact ⟨h.reports, h.alive, h.ended, h.sane, h.first, h.writer, h.off, h.completed⟩

end Link
end Slinet
