/-
# What a listener's peers can hold

Anyone can send datagrams to a UDP listener, from any number of addresses, so the
memory of its raw queues has to be bounded by the options alone
(`src/protocols/udp/settings.rs`). Each queue is bounded in datagrams and in
bytes; a queue that is not drained yet belongs to a session with a slot, for a
read half drains its queue before it gives the slot back. The drop of a stream
that was never split gives it back first (`src/protocols/udp/stream.rs`): as long
as such a drop is under way its queue is one more (`undrained`).

`raw_memory_bounded` is the bound over all runs of the listener's machine
(`Slinet.UdpPeers`). The bytes that a queue counts are those of its datagrams
(`Session.Weighed`), for the listener weighs each by its length.
-/
import Slinet.UdpRouting

namespace Slinet

/-- The sum of what only some of the elements have, and have not more than `n` of. -/
theorem sum_map_le_countP_mul {α : Type*} (f : α → ℕ) (P : α → Bool) (n : ℕ) (l : List α)
    (h : ∀ x ∈ l, f x ≤ n ∧ (P x = false → f x = 0)) : (l.map f).sum ≤ l.countP P * n := by
  induction l with
  | nil => simp
  | cons x l ih =>
    have hrest := ih fun y hy => h y (List.mem_cons_of_mem x hy)
    obtain ⟨hle, hzero⟩ := h x List.mem_cons_self
    rw [List.map_cons, List.sum_cons, List.countP_cons]
    cases hx : P x with
    | false =>
      rw [hzero hx]
      simpa using hrest
    | true =>
      rw [if_pos rfl, Nat.add_mul, Nat.one_mul]
      omega

namespace Lossy

variable {q : Limits} {T : Type*}

/-- What a send leaves in the queue was there, or is the item sent. -/
theorem Queue.mem_items_trySend (s : Queue q T) (value : T) (bytes : ℕ) {x : T × ℕ}
    (h : x ∈ (s.trySend value bytes).2.state.items) : x ∈ s.state.items ∨ x = (value, bytes) := by
  have hpush : ∀ (state : State T) (evicted : List T), (∀ y ∈ state.items, y ∈ s.state.items) →
      x ∈ (pushBack q state value bytes evicted).2.items → x ∈ s.state.items ∨ x = (value, bytes) := by
    intro state evicted hsub hx
    unfold pushBack at hx
    split at hx
    · exact Or.inl (hsub x hx)
    · rcases List.mem_append.mp hx with hx | hx
      · exact Or.inl (hsub x hx)
      · exact Or.inr (List.mem_singleton.mp hx)
  change x ∈ (Lossy.trySendWhere q s.state value bytes fun _ => true).2.items at h
  unfold Lossy.trySendWhere at h
  split at h
  · exact Or.inl h
  split at h
  · exact Or.inl h
  split at h
  · split at h
    · exact Or.inl h
    · exact hpush _ _ (fun y hy => List.mem_of_mem_drop hy) h
  · exact hpush _ _ (fun _ hy => hy) h

theorem Queue.mem_items_tryRecv (s : Queue q T) {x : T × ℕ} (h : x ∈ s.tryRecv.2.state.items) :
    x ∈ s.state.items := by
  change x ∈ (Lossy.tryRecvIf s.state fun _ => true).2.items at h
  unfold Lossy.tryRecvIf at h
  split at h
  · rename_i hitems
    rw [hitems]
    split at h
    · exact List.mem_cons_of_mem _ h
    · rwa [hitems] at h
  · split at h
    · exact h
    · exact h

end Lossy

/-! ### A session -/

namespace Session

variable {q : Lossy.Limits} {Addr : Type*} {p : Session q Addr}

/-- Every queued datagram weighs its bytes. -/
def Weighed (p : Session q Addr) : Prop := ∀ x ∈ p.queue.state.items, x.2 = x.1.length

theorem Weighed.of_mem {p' : Session q Addr} (h : p.Weighed)
    (hsub : ∀ x ∈ p'.queue.state.items, x ∈ p.queue.state.items ∨ x.2 = x.1.length) : p'.Weighed :=
  fun x hx => (hsub x hx).elim (h x) id

theorem weighed_push (h : p.Weighed) (datagram : Datagram) : (p.push datagram).Weighed := by
  have hqueue : (p.push datagram).queue = (p.queue.trySend datagram datagram.length).2 := by
    unfold Session.push
    split
    · rename_i he
      rw [he]
    · rename_i he
      rw [he]
    · rename_i he
      rw [he]
  refine h.of_mem fun x hx => ?_
  rw [hqueue] at hx
  rcases p.queue.mem_items_trySend datagram datagram.length hx with hx | rfl
  · exact Or.inl hx
  · exact Or.inr rfl

theorem weighed_next (h : p.Weighed) : p.next.Weighed := by
  have hrecv : ∀ {result : Except TryRecvError Datagram} {queue : Lossy.Queue q Datagram},
      p.queue.tryRecv = (result, queue) → ∀ x ∈ queue.state.items, x ∈ p.queue.state.items := by
    intro result queue he x hx
    refine p.queue.mem_items_tryRecv ?_
    rw [he]
    exact hx
  unfold Session.next
  split
  · split
    · rename_i he
      exact h.of_mem fun x hx => Or.inl (hrecv he x hx)
    · rename_i he
      exact h.of_mem fun x hx => Or.inl (hrecv he x hx)
    · rename_i he
      exact h.of_mem fun x hx => Or.inl (hrecv he x hx)
  · exact h

theorem weighed_dropLocal (h : p.Weighed) (d : DropStep) (rest : List DropStep) :
    (p.dropLocal d rest).Weighed := by
  cases d with
  | drain => exact fun x hx => by cases hx
  | inner => exact fun x hx => by cases hx
  | _ => exact h

/-- A step that leaves the queue alone. -/
theorem weighed_of_queue {p' : Session q Addr} (h : p.Weighed) (hq : p'.queue = p.queue) :
    p'.Weighed := by
  rw [Weighed, hq]
  exact h

theorem queue_poll : p.poll.queue = p.queue := by
  unfold Session.poll
  split
  · split
    · rfl
    · rfl
  · rfl

theorem queue_decode (limit : ℕ) (decodes : Bool) : (p.decode limit decodes).queue = p.queue := by
  unfold Session.decode
  split
  · dsimp only
    split
    · rfl
    split
    · rfl
    split
    · rfl
    · rfl
  · rfl

theorem queue_close : p.close.queue = p.queue := by
  unfold Session.close
  split
  · rfl
  · rfl

theorem queue_split : p.split.queue = p.queue := by
  unfold Session.split
  split
  · rfl
  · rfl

theorem queue_dropOwner : p.dropOwner.queue = p.queue := by
  unfold Session.dropOwner
  split
  · rfl
  · rfl
  · rfl

/-- The bytes of the queued datagrams are those that the queue counts. -/
theorem Weighed.bytes (h : p.Weighed) :
    (p.queue.values.map List.length).sum = p.queue.state.bytes := by
  rw [p.queue.inv.bytes_eq, Lossy.weight, Lossy.Queue.values, Lossy.State.values, List.map_map]
  refine congrArg List.sum (List.map_congr_left fun x hx => ?_)
  exact (h x hx).symm

end Session

/-! ### The listener -/

namespace UdpPeers

variable {o : UdpOptions} {Addr : Type*}

/-- The queue of the session is not drained, though its slot is back. -/
def undrained (s : UdpPeers o Addr) : ℕ :=
  s.sessions.countP fun p => decide (.drain ∈ p.owner.todo) && !p.HoldsSlot

theorem undrained_of_atRest {s : UdpPeers o Addr} (h : s.AtRest) : s.undrained = 0 := by
  refine List.countP_eq_zero.mpr fun p hp => ?_
  cases ho : p.owner with
  | stream => simp [Session.HoldsSlot, ho, Owner.todo, dropStream]
  | reading r => simp [Session.HoldsSlot, ho, Owner.todo, dropRead]
  | dropping todo =>
    cases todo with
    | nil => simp [Owner.todo]
    | cons d rest => exact absurd ho (h p hp d rest)

/-- Every session weighs its datagrams. -/
def Weighed (s : UdpPeers o Addr) : Prop := ∀ p ∈ s.sessions, p.Weighed

theorem Weighed.modify {s s' : UdpPeers o Addr} (h : s.Weighed) {i : ℕ}
    {f : Session o.limits Addr → Session o.limits Addr} (hs : s'.sessions = s.sessions.modify i f)
    (hf : ∀ p, p.Weighed → (f p).Weighed) : s'.Weighed := by
  intro p hp
  rw [hs] at hp
  obtain ⟨j, hj⟩ := List.mem_iff_getElem?.mp hp
  rw [List.getElem?_modify] at hj
  obtain ⟨p', hp', rfl⟩ := Option.map_eq_some_iff.mp hj
  have hw := h p' (List.mem_of_getElem? hp')
  split
  · exact hf p' hw
  · exact hw

variable [DecidableEq Addr]

theorem weighed_accept {s : UdpPeers o Addr} (h : s.Weighed) (bytes : Datagram) (address : Addr) :
    (s.accept bytes address).Weighed := by
  unfold accept
  split
  · exact h
  split
  · exact h
  rename_i queue he
  -- the new session has its first datagram in its queue
  have hnew : (Session.accepted address ((s.table.insert address s.sessions.length).lookup address)
      bytes queue).Weighed := by
    intro x hx
    have hx' : x ∈ ((Lossy.Queue.new : Lossy.Queue o.limits Datagram).trySend bytes
        bytes.length).2.state.items := by
      rw [he]
      exact hx
    rcases Lossy.Queue.mem_items_trySend _ bytes bytes.length hx' with hx' | rfl
    · cases hx'
    · rfl
  have happend : ∀ old : List (Session o.limits Addr), (∀ p ∈ old, p.Weighed) →
      ∀ p ∈ old ++ [Session.accepted address
        ((s.table.insert address s.sessions.length).lookup address) bytes queue], p.Weighed := by
    intro old hold p hp
    rcases List.mem_append.mp hp with hp | hp
    · exact hold p hp
    · rw [List.mem_singleton.mp hp]
      exact hnew
  dsimp only
  split
  · rename_i k _
    have hdrop : (s.update k Session.dropSender).Weighed := h.modify rfl fun _ hp => hp
    exact happend _ hdrop
  · exact happend _ h

/-- **Every step** weighs what it queues. -/
theorem weighed_step {s : UdpPeers o Addr} (h : s.Weighed) (a : Act Addr) : (s.step a).Weighed := by
  cases a with
  | dispatch bytes address =>
    simp only [step, dispatch]
    split
    · exact h
    split
    · exact h
    split
    · exact h.modify rfl fun _ hp => hp
    split
    · exact h
    · exact weighed_accept h bytes address
  | push =>
    simp only [step, push]
    split
    · exact h
    · split
      · exact h
      split
      · exact h.modify rfl fun _ hp => hp
      · exact h
    · exact h.modify rfl fun _ hp => Session.weighed_push hp _
  | split i => exact h.modify rfl fun _ hp => Session.weighed_of_queue hp Session.queue_split
  | poll i => exact h.modify rfl fun _ hp => Session.weighed_of_queue hp Session.queue_poll
  | next i => exact h.modify rfl fun _ hp => Session.weighed_next hp
  | decode i limit decodes =>
    exact h.modify rfl fun _ hp => Session.weighed_of_queue hp (Session.queue_decode limit decodes)
  | close i => exact h.modify rfl fun _ hp => Session.weighed_of_queue hp Session.queue_close
  | dropOwner i => exact h.modify rfl fun _ hp => Session.weighed_of_queue hp Session.queue_dropOwner
  | dropStep i =>
    simp only [step, dropStep]
    split
    · exact h
    split
    · split
      · exact h
      split
      · exact h.modify rfl fun _ hp => hp
      · exact h.modify rfl fun _ hp => hp
    · exact h.modify rfl fun _ hp => hp
    · exact h.modify rfl fun _ hp => Session.weighed_dropLocal hp _ _
    · exact h
  | dropWrite i => exact h
  | dropListener =>
    simp only [step, dropListener]
    split
    · exact h
    intro p hp
    obtain ⟨j, hj⟩ := List.mem_iff_getElem?.mp hp
    rw [List.getElem?_mapIdx] at hj
    obtain ⟨p', hp', rfl⟩ := Option.map_eq_some_iff.mp hj
    have hw := h p' (List.mem_of_getElem? hp')
    split
    · exact hw
    · exact hw

/-- Only a session that is still to be drained holds anything, and it has a slot
or its slot is just back. -/
theorem held_le {s : UdpPeers o Addr} (hg : Good s) (hr : s.Routes)
    (f : Session o.limits Addr → ℕ) (n : ℕ) (hf : ∀ p ∈ s.sessions, f p ≤ n)
    (hempty : ∀ p : Session o.limits Addr, p.queue.values = [] → f p = 0) :
    (s.sessions.map f).sum ≤ (o.maxPeers + s.undrained) * n := by
  have hsum : (s.sessions.map f).sum ≤
      (s.sessions.countP fun p => decide (.drain ∈ p.owner.todo)) * n := by
    refine sum_map_le_countP_mul f _ n s.sessions fun p hp => ⟨hf p hp, fun hd => ?_⟩
    obtain ⟨i, hi⟩ := List.mem_iff_getElem?.mp hp
    have hshut := (hr i p hi).shut (by simpa using hd)
    refine hempty p ?_
    rw [Lossy.Queue.values, Lossy.State.values, p.queue.inv.closed_empty hshut]
    rfl
  have hcount : (s.sessions.countP fun p => decide (.drain ∈ p.owner.todo)) ≤
      s.sessions.countP Session.HoldsSlot + s.undrained := by
    rw [undrained]
    induction s.sessions with
    | nil => simp
    | cons p l ih =>
      simp only [List.countP_cons]
      cases p.HoldsSlot <;> cases decide (DropStep.drain ∈ p.owner.todo) <;> simp <;> omega
  have hslots := hg.slots
  exact hsum.trans (Nat.mul_le_mul_right n (by omega))

/-- **The memory of the raw queues.** After any datagrams from any addresses, and
any steps of the sessions and their drops: all raw queues together hold at most
`receiveQueueCapacity` datagrams and `receiveQueueBytes` bytes for each of
`maxPeers` sessions, and for each stream that is just being dropped unsplit; of
these there are none when no drop is under way. -/
theorem raw_memory_bounded (o : UdpOptions) (as : List (Act Addr)) :
    let s := run step (new o Addr) as
    (s.sessions.map fun p => p.queue.values.length).sum ≤
      (o.maxPeers + s.undrained) * o.receiveQueueCapacity ∧
    (s.sessions.map fun p => (p.queue.values.map List.length).sum).sum ≤
      (o.maxPeers + s.undrained) * o.receiveQueueBytes ∧
    (s.AtRest → s.undrained = 0) := by
  intro s
  have hg : Good s := good_run o as
  have hr : s.Routes := routes_run o as
  have hw : s.Weighed :=
    run_inv (I := Weighed) (fun _ a h => weighed_step h a) as (fun p hp => by cases hp)
  refine ⟨?_, ?_, undrained_of_atRest⟩
  · refine held_le hg hr _ _ (fun p _ => ?_) fun p hp => by simp [hp]
    rw [Lossy.Queue.values, Lossy.State.values, List.length_map]
    exact p.queue.inv.items_le
  · refine held_le hg hr _ _ (fun p hp => ?_) fun p hp => by simp [hp]
    rw [(hw p hp).bytes]
    exact p.queue.inv.bytes_le

end UdpPeers
end Slinet
