/-
# The datagrams that a connection sends

What the writer of a UDP connection (`Slinet.UdpSend`) puts on the wire, for a
serializer without state. A step sends a datagram when the socket takes it
whole; whatever else happens to the write, before it or after it, the packets
sent are among those dequeued, each once and in their order, with the one that
is still to be sent behind them (`Sends`). So they are among the packets that
the queue accepted, and each datagram is the encoding of its packet.
-/
import Slinet.Fifo
import Slinet.UdpPeers
import Slinet.UdpSend

namespace Slinet

variable {P : Type*}

namespace UdpSend

/-- The payload that the writer still has to send. -/
def Pc.payload? : Pc → Option Datagram
  | pacing payload => some payload
  | pausing payload _ => some payload
  | rating payload _ => some payload
  | sleeping payload _ => some payload
  | entering payload => some payload
  | selecting payload => some payload
  | socket payload => some payload
  | _ => none

/-- The datagram that a step sends, with its packet. -/
def transmits? (s : UdpSend P) : Act P → Option (P × Datagram)
  | .socketReady (some (.ok sent)) =>
    match s.conn.task, s.pc with
    | .polled (.writing packet), .socket payload =>
      if sent = payload.length then some (packet, payload) else none
    | _, _ => none
  | _ => none

/-- The step, with the answer of the serializer `encode` where it is asked. -/
def coded (encode : P → Except String Datagram) (s : UdpSend P) : Act P → Act P
  | .serialized result =>
    match writing? s.conn.task with
    | some packet => .serialized (encode packet)
    | none => .serialized result
  | a => a

/-- The packet dequeued last, until its datagram is sent. -/
def toSend (s : UdpSend P) : List P :=
  match s.conn.task with
  | .dequeued packet => [packet]
  | task => if s.pc.Counted then [] else (writing? task).toList

theorem toSend_of_ne {s : UdpSend P} (h : ∀ packet, s.conn.task ≠ .dequeued packet) :
    s.toSend = if s.pc.Counted then [] else (writing? s.conn.task).toList := by
  unfold toSend
  split
  · rename_i packet ht
    exact absurd ht (h packet)
  · rfl

/-! ### The task -/

/-- A step of the task, other than the return of its writer. -/
structure Turns (s s' : Conn P) (more : List P) : Prop where
  dequeued : s'.dequeued = s.dequeued ++ more
  next : ∀ packet, s'.task = .dequeued packet → s.task = .dequeued packet ∨ more = [packet]
  writing : ∀ packet, writing? s'.task = some packet →
    writing? s.task = some packet ∨ s.task = .dequeued packet

theorem turns_of_task {s s' : Conn P} (hdeq : s'.dequeued = s.dequeued) (htask : s'.task = s.task) :
    Turns s s' [] :=
  ⟨by rw [hdeq, List.append_nil], fun _ h => Or.inl (htask ▸ h), fun _ h => Or.inl (htask ▸ h)⟩

/-- The task goes where it neither writes nor has a packet to write. -/
theorem turns_away {s s' : Conn P} (hdeq : s'.dequeued = s.dequeued)
    (hnext : ∀ packet, s'.task ≠ .dequeued packet) (hwriting : writing? s'.task = none) :
    Turns s s' [] :=
  ⟨by rw [hdeq, List.append_nil], fun _ h => absurd h (hnext _), fun _ h => by
    rw [hwriting] at h
    cases h⟩

/-- The task stays with what it writes. -/
theorem turns_within {s s' : Conn P} (hdeq : s'.dequeued = s.dequeued)
    (hnext : ∀ packet, s'.task ≠ .dequeued packet) (hwriting : writing? s'.task = writing? s.task) :
    Turns s s' [] :=
  ⟨by rw [hdeq, List.append_nil], fun _ h => absurd h (hnext _), fun _ h => Or.inl (hwriting ▸ h)⟩

theorem turns_interrupt (s : Conn P) (stage : Stage P) : Turns s (s.interrupt stage) [] := by
  cases stage with
  | receiving => exact turns_away rfl (fun _ h => by cases h) rfl
  | writing packet => exact turns_away rfl (fun _ h => by cases h) rfl

theorem turns_advance (s : Conn P) : ∃ more, Turns s s.advance more := by
  cases ht : s.task with
  | polled stage =>
    cases stage with
    | receiving =>
      simp only [Conn.advance, ht]
      split
      · rename_i packet queue _
        exact ⟨[packet], rfl, fun _ h => Or.inr (by cases h; rfl), fun _ h => by cases h⟩
      · exact ⟨[], turns_away rfl (fun _ h => by cases h) rfl⟩
      · exact ⟨[], turns_away rfl (fun _ h => by cases h) rfl⟩
    | writing packet =>
      simp only [Conn.advance, ht]
      exact ⟨[], turns_of_task rfl rfl⟩
  | dequeued packet =>
    simp only [Conn.advance, ht]
    split
    · exact ⟨[], turns_interrupt s _⟩
    · refine ⟨[], (List.append_nil _).symm, fun _ h => (by cases h), fun _ h => Or.inr ?_⟩
      cases h
      exact ht
  | written packet result =>
    simp only [Conn.advance, ht]
    split
    · exact ⟨[], turns_away rfl (fun _ h => by cases h) rfl⟩
    · exact ⟨[], turns_away rfl (fun _ h => by cases h) rfl⟩
  | draining n =>
    cases n with
    | zero =>
      simp only [Conn.advance, ht]
      split
      · exact ⟨[], turns_away rfl (fun _ h => by cases h) rfl⟩
      · exact ⟨[], turns_away rfl (fun _ h => by cases h) rfl⟩
    | succ n =>
      simp only [Conn.advance, ht]
      exact ⟨[], turns_away rfl (fun _ h => by cases h) rfl⟩
  | breaking pending =>
    simp only [Conn.advance, ht]
    exact ⟨[], turns_away rfl (fun _ h => by cases h) rfl⟩
  | left =>
    simp only [Conn.advance, ht]
    exact ⟨[], turns_away rfl (fun _ h => by cases h) rfl⟩
  | closing =>
    simp only [Conn.advance, ht]
    exact ⟨[], turns_away rfl (fun _ h => by cases h) rfl⟩
  | drained =>
    simp only [Conn.advance, ht]
    exact ⟨[], turns_away rfl (fun _ h => by cases h) rfl⟩
  | _ =>
    simp only [Conn.advance, ht]
    exact ⟨[], turns_of_task rfl rfl⟩

theorem turns_step (s : Conn P) {a : Conn.Act P} (ha : ∀ result, a ≠ .write result) :
    ∃ more, Turns s (s.step a) more := by
  by_cases hcaller : a.ofCaller = true
  · have hk := Conn.keeps_of_caller s hcaller
    exact ⟨[], turns_of_task hk.dequeued hk.task⟩
  cases a with
  | poll =>
    simp only [Conn.step, Conn.poll]
    split
    · split
      · exact ⟨[], turns_interrupt s _⟩
      · exact ⟨[], turns_away rfl (fun _ h => by cases h) rfl⟩
    · rename_i stage ht
      split
      · exact ⟨[], turns_interrupt s _⟩
      · refine ⟨[], turns_within rfl (fun _ h => by cases h) ?_⟩
        rw [ht]
        cases stage <;> rfl
    · exact ⟨[], turns_of_task rfl rfl⟩
  | pend =>
    simp only [Conn.step, Conn.pend]
    split
    · rename_i stage ht
      refine ⟨[], turns_within rfl (fun _ h => by cases h) ?_⟩
      rw [ht]
      cases stage <;> rfl
    · exact ⟨[], turns_of_task rfl rfl⟩
  | write result => exact absurd rfl (ha result)
  | abort =>
    simp only [Conn.step, Conn.abort]
    split
    · exact ⟨[], turns_away rfl (fun _ h => by cases h) rfl⟩
    · exact ⟨[], turns_interrupt s _⟩
    · exact ⟨[], turns_of_task rfl rfl⟩
  | advance => exact turns_advance s
  | _ => exact absurd rfl hcaller

/-! ### What is sent -/

/-- **What every step keeps** of the datagrams sent so far, with their packets. -/
structure Sends (encode : P → Except String Datagram) (sent : List (P × Datagram)) (s : UdpSend P) :
    Prop where
  good : s.conn.Good
  ordered : s.conn.Ordered
  order : (sent.map Prod.fst ++ s.toSend).Sublist s.conn.dequeued
  payload : ∀ payload, s.pc.payload? = some payload →
    ∀ packet, writing? s.conn.task = some packet → encode packet = .ok payload
  encoded : ∀ x ∈ sent, encode x.1 = .ok x.2

theorem sends_new (encode : P → Except String Datagram) (o : Outgoing P) (maxPayloadSize : ℕ)
    (rate : Option ℕ+) : Sends encode [] (new o maxPayloadSize rate) :=
  ⟨Conn.good_new o, Conn.ordered_new o, List.nil_sublist _, fun _ h => (by cases h),
    fun _ h => (by cases h)⟩

section Steps

variable {encode : P → Except String Datagram} {sent : List (P × Datagram)} {s s' : UdpSend P}

/-- A step of the task. -/
theorem Sends.turn (h : Sends encode sent s) {a : Conn.Act P} {more : List P}
    (hconn : s'.conn = s.conn.step a) (hturns : Turns s.conn s'.conn more)
    (hsend : s'.toSend.Sublist (s.toSend ++ more))
    (hpayload : ∀ payload, s'.pc.payload? = some payload →
      s.pc.payload? = some payload ∧ ∀ packet, s.conn.task ≠ .dequeued packet) :
    Sends encode sent s' := by
  refine ⟨?_, ?_, ?_, fun payload hp packet hw => ?_, h.encoded⟩
  · rw [hconn]
    exact Conn.good_step h.good a
  · rw [hconn]
    exact Conn.ordered_step h.good h.ordered a
  · rw [hturns.dequeued]
    refine ((List.Sublist.refl _).append hsend).trans ?_
    rw [← List.append_assoc]
    exact h.order.append (List.Sublist.refl _)
  · obtain ⟨hp', hne⟩ := hpayload payload hp
    rcases hturns.writing packet hw with hw' | hw'
    · exact h.payload payload hp' packet hw'
    · exact absurd hw' (hne packet)

/-- Where the writer's place stands only as long as there is a write. -/
theorem Sends.keep (h : Sends encode sent s) {a : Conn.Act P} (ha : ∀ result, a ≠ .write result)
    (hne : a = .advance → ∀ packet, s.conn.task ≠ .dequeued packet) :
    Sends encode sent { s with
      conn := s.conn.step a
      pc := if (writing? (s.conn.step a).task).isSome then s.pc else .idle } := by
  obtain ⟨more, hturns⟩ := turns_step s.conn ha
  have hstay : ∀ packet, writing? (s.conn.step a).task = some packet →
      ∀ packet', s.conn.task ≠ .dequeued packet' := by
    intro packet hw packet' ht
    by_cases hadvance : a = .advance
    · exact hne hadvance packet' ht
    have htask : (s.conn.step a).task = s.conn.task := by
      by_cases hcaller : a.ofCaller = true
      · exact (Conn.keeps_of_caller s.conn hcaller).task
      cases a with
      | poll => simp [Conn.step, Conn.poll, ht]
      | pend => simp [Conn.step, Conn.pend, ht]
      | write result => exact absurd rfl (ha result)
      | abort => simp [Conn.step, Conn.abort, ht]
      | advance => exact absurd rfl hadvance
      | _ => exact absurd rfl hcaller
    rw [htask, ht] at hw
    cases hw
  refine h.turn (a := a) rfl hturns ?_ fun payload hp => ?_
  · by_cases hnext : ∃ packet, (s.conn.step a).task = .dequeued packet
    · obtain ⟨packet, ht⟩ := hnext
      rw [toSend, ht]
      rcases hturns.next packet ht with ht' | rfl
      · rw [toSend, ht']
        exact List.sublist_append_left _ _
      · exact List.sublist_append_right _ _
    · rw [toSend_of_ne fun packet ht => hnext ⟨packet, ht⟩]
      cases hw : writing? (s.conn.step a).task with
      | none => simp
      | some packet =>
        have hne' := hstay packet hw
        rcases hturns.writing packet hw with hw' | hw'
        · rw [toSend_of_ne hne', hw', Option.isSome_some, if_pos rfl]
          exact List.sublist_append_left _ _
        · exact absurd hw' (hne' packet)
  · cases hw : writing? (s.conn.step a).task with
    | none => simp [hw, Pc.payload?] at hp
    | some packet =>
      rw [hw] at hp
      exact ⟨hp, hstay packet hw⟩

theorem sends_connStep (h : Sends encode sent s) (a : Conn.Act P) : Sends encode sent (s.connStep a) := by
  unfold connStep
  split
  · exact h
  · exact h
  · -- the write begins
    rename_i packet ht
    obtain ⟨more, hturns⟩ := turns_advance s.conn
    refine h.turn (a := .advance) rfl hturns ?_ fun payload hp => ?_
    · have hsend : s.toSend = [packet] := by rw [toSend, ht]
      rw [hsend]
      refine List.Sublist.trans ?_ (List.sublist_append_left _ _)
      simp only [toSend, Conn.advance, ht]
      cases s.conn.token <;> simp [Conn.interrupt, writing?, Pc.Counted]
    · cases htoken : s.conn.token <;> simp [htoken, Pc.payload?] at hp
  · rename_i packet ht
    obtain ⟨more, hturns⟩ := turns_advance s.conn
    have hpayload : ∀ payload, s.pc.payload? = some payload →
        s.pc.payload? = some payload ∧ ∀ packet, s.conn.task ≠ .dequeued packet :=
      fun _ hp => ⟨hp, fun _ h => by rw [ht] at h; cases h⟩
    refine h.turn (a := .advance) rfl hturns ?_ hpayload
    simp [toSend, Conn.advance, ht, writing?]
  · rename_i hwrite hpend hdequeued hbreaking
    exact h.keep hwrite fun ha packet ht => hdequeued packet ha ht

/-- The writer moves on within its call. -/
theorem Sends.goto (h : Sends encode sent s) {pc : Pc} {pacer : DataPacer}
    (hcount : pc.Counted = false → s.pc.Counted = false)
    (hpayload : ∀ payload, pc.payload? = some payload → s.pc.payload? = some payload) :
    Sends encode sent { s with pc := pc, pacer := pacer } := by
  refine ⟨h.good, h.ordered, ?_, fun payload hp => h.payload payload (hpayload payload hp), h.encoded⟩
  refine List.Sublist.trans ((List.Sublist.refl _).append ?_) h.order
  simp only [toSend]
  split
  · exact List.Sublist.refl _
  · cases hc : pc.Counted with
    | true => exact List.nil_sublist _
    | false => rw [hcount hc]

variable {packet : P}

/-- The writer waits. -/
theorem Sends.pend (h : Sends encode sent s) (ht : s.conn.task = .polled (.writing packet)) {pc : Pc}
    (hcount : s.pc.Counted = false) (hpayload : ∀ payload, pc.payload? = some payload →
      s.pc.payload? = some payload) : Sends encode sent (s.pend pc) := by
  have hdeq : (s.pend pc).conn.dequeued = s.conn.dequeued := by simp [UdpSend.pend, Conn.pend, ht]
  have htask : (s.pend pc).conn.task = .parked (.writing packet) := by
    simp [UdpSend.pend, Conn.pend, ht]
  refine ⟨Conn.good_pend h.good, Conn.ordered_step h.good h.ordered .pend, ?_,
    fun payload hp packet' hw => h.payload payload (hpayload payload hp) packet' ?_, h.encoded⟩
  · rw [hdeq]
    refine List.Sublist.trans ((List.Sublist.refl _).append ?_) h.order
    simp only [toSend, htask, ht, hcount]
    split
    · exact List.nil_sublist _
    · exact List.Sublist.refl _
  · rw [htask] at hw
    rw [ht]
    exact hw

/-- The writer returns. -/
theorem sends_finish (h : Sends encode sent s) (ht : s.conn.task = .polled (.writing packet))
    (hconn : s'.conn = s.conn) (result : Except IoError Unit) : Sends encode sent (s'.finish result) := by
  have hfinish : (s'.finish result).conn = s.conn.write result := by rw [UdpSend.finish, hconn]
  have htask : (s'.finish result).conn.task = .written packet result := by
    rw [hfinish, Conn.write, ht]
  refine ⟨?_, ?_, ?_, fun payload hp => ?_, h.encoded⟩
  · rw [hfinish]
    exact Conn.good_write h.good result
  · rw [hfinish]
    exact Conn.ordered_step h.good h.ordered (.write result)
  · rw [hfinish, Conn.write, ht, toSend, htask]
    refine List.Sublist.trans ?_ h.order
    simp [writing?]
  · cases hp

/-- The serializer has answered. -/
theorem sends_serialized (h : Sends encode sent s) (ht : s.conn.task = .polled (.writing packet)) :
    Sends encode sent (s.serialized packet (encode packet)) := by
  unfold serialized
  split
  · rename_i hpc
    split
    · refine sends_finish h ht ?_ _
      rfl
    · rename_i payload he
      split
      · refine sends_finish h ht ?_ _
        rfl
      · refine ⟨h.good, h.ordered, ?_, fun payload' hp packet' hw => ?_, h.encoded⟩
        · have horder := h.order
          simp only [toSend, ht, hpc, Pc.Counted] at horder ⊢
          exact horder
        · cases hp
          rw [ht] at hw
          cases hw
          exact he
  · exact h

/-- **The socket takes the datagram**, or waits, or fails. -/
theorem sends_socketReady (h : Sends encode sent s) (ht : s.conn.task = .polled (.writing packet))
    (outcome : Option (Except IoError ℕ)) :
    Sends encode (sent ++ (s.transmits? (.socketReady outcome)).toList)
      (s.socketReady packet outcome) := by
  unfold socketReady
  split
  · rename_i payload hpc
    have hcount : s.pc.Counted = false := by rw [hpc]; rfl
    split
    · simp only [transmits?, Option.toList_none, List.append_nil]
      exact h.pend ht hcount fun _ hp => by rw [hpc]; exact hp
    · simp only [transmits?, Option.toList_none, List.append_nil]
      exact h.goto (fun _ => hcount) fun _ hp => by cases hp
    · rename_i bytes
      split
      · rename_i hbytes
        simp only [transmits?, ht, hpc, if_neg hbytes, Option.toList_none, List.append_nil]
        exact h.goto (fun _ => hcount) fun _ hp => by cases hp
      · rename_i hbytes
        simp only [transmits?, ht, hpc, if_pos (not_not.mp hbytes), Option.toList_some]
        have horder := h.order
        simp only [toSend, ht, hcount, Bool.false_eq_true, if_false] at horder
        refine ⟨h.good, h.ordered, ?_, fun _ hp => (by cases hp), fun x hx => ?_⟩
        · simpa [toSend, count, ht, Pc.Counted, writing?] using horder
        · rcases List.mem_append.mp hx with hx | hx
          · exact h.encoded x hx
          · rw [List.mem_singleton.mp hx]
            exact h.payload payload (by rw [hpc]; rfl) packet (by rw [ht]; rfl)
  · rename_i hpc
    have hnone : s.transmits? (.socketReady outcome) = none := by
      unfold transmits?
      split
      · split
        · rename_i hsocket
          exact absurd hsocket (hpc _)
        · rfl
      · rfl
    rw [hnone, Option.toList_none, List.append_nil]
    exact h

theorem sends_advance (h : Sends encode sent s) (ht : s.conn.task = .polled (.writing packet)) :
    Sends encode sent (s.advance packet) := by
  have hmove : ∀ {payload : Datagram} {pc : Pc} {pacer : DataPacer}, s.pc.payload? = some payload →
      s.pc.Counted = false → (pc.payload? = some payload ∨ pc.payload? = none) →
      Sends encode sent { s with pc := pc, pacer := pacer } := by
    intro payload pc pacer hp hc hpc
    refine h.goto (fun _ => hc) fun payload' hp' => ?_
    rcases hpc with hpc | hpc
    · rw [hpc] at hp'
      rw [hp, hp']
    · rw [hpc] at hp'
      cases hp'
  cases hpc : s.pc with
  | pacing payload =>
    have hp : s.pc.payload? = some payload := by rw [hpc]; rfl
    have hc : s.pc.Counted = false := by rw [hpc]; rfl
    simp only [advance, hpc]
    split
    · split
      · exact hmove hp hc (Or.inl rfl)
      · exact hmove hp hc (Or.inl rfl)
    · exact hmove hp hc (Or.inl rfl)
  | pausing payload deadline =>
    simp only [advance, hpc]
    split
    · refine sends_finish h ht ?_ _
      rfl
    · exact hmove (by rw [hpc]; rfl) (by rw [hpc]; rfl) (Or.inl rfl)
  | rating payload deadline =>
    simp only [advance, hpc]
    split
    · exact hmove (by rw [hpc]; rfl) (by rw [hpc]; rfl) (Or.inl rfl)
    · exact hmove (by rw [hpc]; rfl) (by rw [hpc]; rfl) (Or.inl rfl)
  | sleeping payload deadline =>
    simp only [advance, hpc]
    split
    · exact hmove (by rw [hpc]; rfl) (by rw [hpc]; rfl) (Or.inl rfl)
    · exact h.pend ht (by rw [hpc]; rfl) fun _ hp => by rw [hpc]; exact hp
  | entering payload =>
    simp only [advance, hpc]
    split
    · exact hmove (by rw [hpc]; rfl) (by rw [hpc]; rfl) (Or.inr rfl)
    · exact hmove (by rw [hpc]; rfl) (by rw [hpc]; rfl) (Or.inl rfl)
  | selecting payload =>
    simp only [advance, hpc]
    split
    · exact hmove (by rw [hpc]; rfl) (by rw [hpc]; rfl) (Or.inr rfl)
    · exact hmove (by rw [hpc]; rfl) (by rw [hpc]; rfl) (Or.inl rfl)
  | returned bytes result =>
    simp only [advance, hpc]
    split
    · refine sends_finish h ht ?_ _
      rfl
    · exact h.goto (fun _ => by rw [hpc]; rfl) fun _ hp => by cases hp
  | checking err =>
    simp only [advance, hpc]
    split
    · refine sends_finish h ht ?_ _
      rfl
    · refine sends_finish h ht ?_ _
      rfl
  | _ =>
    simp only [advance, hpc]
    exact h

/-- **Every step**, with the datagram that it sends. -/
theorem sends_step (h : Sends encode sent s) (a : Act P) :
    Sends encode (sent ++ (s.transmits? (s.coded encode a)).toList) (s.step (s.coded encode a)) := by
  have hkeep : ∀ {s' : UdpSend P} {b : Act P}, s.transmits? b = none → Sends encode sent s' →
      Sends encode (sent ++ (s.transmits? b).toList) s' := by
    intro s' b hb hs'
    rw [hb, Option.toList_none, List.append_nil]
    exact hs'
  cases a with
  | conn a => exact hkeep rfl (sends_connStep h a)
  | serialized result =>
    simp only [coded]
    split
    · rename_i packet hw
      refine hkeep rfl ?_
      simp only [step]
      split
      · rename_i packet' ht
        rw [ht] at hw
        cases hw
        exact sends_serialized h ht
      · exact h
    · rename_i hw
      refine hkeep rfl ?_
      simp only [step]
      split
      · rename_i packet' ht
        rw [ht] at hw
        cases hw
      · exact h
  | socketReady outcome =>
    simp only [coded, step]
    split
    · rename_i packet ht
      exact sends_socketReady h ht outcome
    · rename_i ht
      refine hkeep ?_ h
      unfold transmits?
      split
      · split
        · rename_i htask _
          exact absurd htask (ht _)
        · rfl
      · rfl
  | advance =>
    refine hkeep rfl ?_
    simp only [coded, step]
    split
    · rename_i packet ht
      exact sends_advance h ht
    · exact h
  | close => exact hkeep rfl ⟨h.good, h.ordered, h.order, h.payload, h.encoded⟩
  | setSendRate rate => exact hkeep rfl ⟨h.good, h.ordered, h.order, h.payload, h.encoded⟩
  | tick nanos => exact hkeep rfl ⟨h.good, h.ordered, h.order, h.payload, h.encoded⟩

/-- The packets sent are among those that the queue accepted, in their order. -/
theorem Sends.accepted (h : Sends encode sent s) :
    (sent.map Prod.fst).Sublist s.conn.accepted :=
  ((List.sublist_append_left _ _).trans h.order).trans
    ((List.sublist_append_left _ _).trans h.ordered)

end Steps

end UdpSend
end Slinet
