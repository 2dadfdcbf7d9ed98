/-
# The bounded lossy queue

`src/connection/queue/lossy.rs`: a deque of weighted items behind one mutex,
bounded in items and in bytes, that either rejects an item that does not fit
or evicts the oldest items to make room for it. Every function here is one lock
section of the source, a function of the `State` under the lock; the wake-ups
that follow a lock section are `LossyWake`'s.

The invariant `Inv` (the byte count is the sum of the weights, both limits
hold, a closed queue is empty) is kept by every lock section, and a `Queue`
is a state with its invariant. What a lock section does to the values in the
queue is one lemma each: `trySendWhere_spec`, `sendTurn_spec`,
`tryRecvIf_spec`, `values_closeAndDrain`. They give the law of whole runs
(`accepted_eq_departed_append_values`): the items that left, in the order they left,
followed by the items still queued are the items accepted, in the order they
were accepted.
-/
import Mathlib.Data.List.Basic
import Mathlib.Tactic
import Slinet.Run

namespace Slinet

/-- Which queued datagram to discard when a datagram queue fills. -/
inductive OverflowPolicy
  | dropNewest
  | dropOldest
  deriving DecidableEq, Repr

/-- A momentary view of an outgoing queue: its occupied slots, and all of them. -/
structure QueueSnapshot where
  queued : ℕ
  capacity : ℕ
  deriving DecidableEq, Repr

/-- Why a value was handed back by a bounded channel. -/
inductive TrySendError (T : Type*)
  | full (value : T)
  | closed (value : T)
  deriving DecidableEq, Repr

inductive TryRecvError
  | empty
  | disconnected
  deriving DecidableEq, Repr

namespace Lossy

variable {T : Type*}

/-- What the handles share and never change. -/
structure Limits where
  maxItems : ℕ
  maxBytes : ℕ
  policy : OverflowPolicy
  deriving DecidableEq, Repr

/-- What the mutex guards. -/
structure State (T : Type*) where
  items : List (T × ℕ)
  bytes : ℕ
  senders : ℕ
  receiverOpen : Bool
  deriving DecidableEq, Repr

/-- The state `lossy_channel` creates. -/
def State.new : State T := ⟨[], 0, 1, true⟩

/-- The queued values, oldest first. -/
def State.values (s : State T) : List T := s.items.map Prod.fst

/-- The sum of the byte weights of a list of items. -/
def weight (items : List (T × ℕ)) : ℕ := (items.map Prod.snd).sum

@[simp] theorem weight_nil : weight ([] : List (T × ℕ)) = 0 := rfl

@[simp] theorem weight_cons (x : T × ℕ) (l : List (T × ℕ)) : weight (x :: l) = x.2 + weight l := rfl

@[simp] theorem weight_append (a b : List (T × ℕ)) : weight (a ++ b) = weight a + weight b := by
  simp [weight]

theorem weight_drop_le (l : List (T × ℕ)) (k : ℕ) : weight (l.drop k) ≤ weight l := by
  have : weight (l.take k) + weight (l.drop k) = weight l := by
    rw [← weight_append, List.take_append_drop]
  omega

/-! ### The lock sections -/

def State.clone (s : State T) : State T := { s with senders := s.senders + 1 }

def State.dropSender (s : State T) : State T := { s with senders := s.senders - 1 }

/-- The pass of `try_send_where` that counts what must go: from the front of
the queue, with the items and bytes that would remain, until the new item
fits; `none` at an item that may not be evicted. -/
def evictScan (q : Limits) (bytes : ℕ) (canEvict : T → Bool) :
    List (T × ℕ) → ℕ → ℕ → Option (ℕ × ℕ)
  | [], remainingItems, remainingBytes => some (remainingItems, remainingBytes)
  | (old, oldBytes) :: rest, remainingItems, remainingBytes =>
    if remainingItems < q.maxItems ∧ remainingBytes ≤ q.maxBytes - bytes then
      some (remainingItems, remainingBytes)
    else if canEvict old = false then none
    else evictScan q bytes canEvict rest (remainingItems - 1) (remainingBytes - oldBytes)

/-- The end of `try_send_where`: the capacity check after the drain, and the
push. On the `full` exit the state is the drained one. -/
def pushBack (q : Limits) (s : State T) (value : T) (bytes : ℕ) (evicted : List T) :
    Except (TrySendError T) (List T) × State T :=
  if s.items.length ≥ q.maxItems ∨ s.bytes > q.maxBytes - bytes then (.error (.full value), s)
  else (.ok evicted, { s with bytes := s.bytes + bytes, items := s.items ++ [(value, bytes)] })

def trySendWhere (q : Limits) (s : State T) (value : T) (bytes : ℕ) (canEvict : T → Bool) :
    Except (TrySendError T) (List T) × State T :=
  if s.receiverOpen = false then (.error (.closed value), s)
  else if q.maxItems = 0 ∨ bytes > q.maxBytes then (.error (.full value), s)
  else
    match q.policy with
    | .dropOldest =>
      match evictScan q bytes canEvict s.items s.items.length s.bytes with
      | none => (.error (.full value), s)
      | some (remainingItems, remainingBytes) =>
        let evictedCount := s.items.length - remainingItems
        pushBack q { s with items := s.items.drop evictedCount, bytes := remainingBytes } value bytes
          ((s.items.take evictedCount).map Prod.fst)
    | .dropNewest => pushBack q s value bytes []

def trySend (q : Limits) (s : State T) (value : T) (bytes : ℕ) :
    Except (TrySendError T) (List T) × State T :=
  trySendWhere q s value bytes fun _ => true

/-- How one turn of the loop of `send` ends. -/
inductive SendTurn (T : Type*)
  | sent
  | failed (error : TrySendError T)
  | blocked
  deriving DecidableEq, Repr

/-- One turn of `send`: the test before the loop and the lock section in it. -/
def sendTurn (q : Limits) (s : State T) (value : T) (bytes : ℕ) : SendTurn T × State T :=
  if q.maxItems = 0 ∨ bytes > q.maxBytes then (.failed (.full value), s)
  else if s.receiverOpen = false then (.failed (.closed value), s)
  else if s.items.length < q.maxItems ∧ s.bytes ≤ q.maxBytes - bytes then
    (.sent, { s with bytes := s.bytes + bytes, items := s.items ++ [(value, bytes)] })
  else (.blocked, s)

def tryRecvIf (s : State T) (ready : T → Bool) : Except TryRecvError T × State T :=
  match s.items with
  | (item, bytes) :: rest =>
    if ready item then (.ok item, { s with items := rest, bytes := s.bytes - bytes })
    else (.error .empty, s)
  | [] =>
    if s.senders = 0 ∨ s.receiverOpen = false then (.error .disconnected, s)
    else (.error .empty, s)

/-- `try_recv`, and the lock section of `recv`. -/
def tryRecv (s : State T) : Except TryRecvError T × State T := tryRecvIf s fun _ => true

def closeAndDrain (s : State T) : List T × State T :=
  (s.values, { s with receiverOpen := false, bytes := 0, items := [] })

/-! ### The invariant -/

/-- What holds of the guarded state whenever the lock is free. -/
structure Inv (q : Limits) (s : State T) : Prop where
  bytes_eq : s.bytes = weight s.items
  items_le : s.items.length ≤ q.maxItems
  bytes_le : s.bytes ≤ q.maxBytes
  closed_empty : s.receiverOpen = false → s.items = []

theorem inv_new (q : Limits) : Inv q (State.new : State T) :=
  ⟨rfl, Nat.zero_le _, Nat.zero_le _, fun _ => rfl⟩

theorem inv_clone {q : Limits} {s : State T} (h : Inv q s) : Inv q s.clone :=
  ⟨h.bytes_eq, h.items_le, h.bytes_le, h.closed_empty⟩

theorem inv_dropSender {q : Limits} {s : State T} (h : Inv q s) : Inv q s.dropSender :=
  ⟨h.bytes_eq, h.items_le, h.bytes_le, h.closed_empty⟩

/-- The new item fits behind the items `l`. -/
def Room (q : Limits) (bytes : ℕ) (l : List (T × ℕ)) : Prop :=
  l.length < q.maxItems ∧ weight l ≤ q.maxBytes - bytes

/-- **The eviction scan.** Run on a whole queue it stops after the `k` oldest
items: the rest leaves room, no shorter eviction would, and each of the `k`
may be evicted. -/
theorem evictScan_spec (q : Limits) (bytes : ℕ) (canEvict : T → Bool) (hpos : 0 < q.maxItems) :
    ∀ (l : List (T × ℕ)) (r : ℕ × ℕ), evictScan q bytes canEvict l l.length (weight l) = some r →
      ∃ k ≤ l.length, r = ((l.drop k).length, weight (l.drop k)) ∧ Room q bytes (l.drop k) ∧
        (∀ j < k, ¬ Room q bytes (l.drop j)) ∧ ∀ x ∈ l.take k, canEvict x.1 = true
  | [], r, h => by
    simp only [evictScan, List.length_nil, weight_nil, Option.some.injEq] at h
    refine ⟨0, le_rfl, h.symm, ⟨hpos, Nat.zero_le _⟩, fun j hj => by omega, fun x hx => by simp at hx⟩
  | (old, oldBytes) :: rest, r, h => by
    rw [evictScan] at h
    split at h
    · rename_i hroom
      simp only [Option.some.injEq] at h
      exact ⟨0, Nat.zero_le _, h.symm, hroom, fun j hj => by omega, fun x hx => by simp at hx⟩
    · rename_i hroom
      split at h
      · simp at h
      · rename_i hev
        have hlen : ((old, oldBytes) :: rest).length - 1 = rest.length := by simp
        have hw : weight ((old, oldBytes) :: rest) - oldBytes = weight rest := by simp
        rw [hlen, hw] at h
        obtain ⟨k, hk, hr, hfit, hmin, hall⟩ := evictScan_spec q bytes canEvict hpos rest r h
        refine ⟨k + 1, by simpa using hk, by simpa using hr, by simpa using hfit, ?_, ?_⟩
        · intro j hj
          cases j with
          | zero => simpa [Room] using hroom
          | succ j => simpa using hmin j (by omega)
        · intro x hx
          rw [List.take_succ_cons] at hx
          rcases List.mem_cons.mp hx with rfl | hx
          · simpa using hev
          · exact hall x hx

/-- **`try_send_where`.** An accepted item joins the back and what makes room
for it leaves the front, in order; a rejected one leaves the state as it was,
for the capacity check after the drain cannot fail. -/
theorem trySendWhere_spec {q : Limits} {s : State T} (hi : Inv q s) (value : T) (bytes : ℕ)
    (canEvict : T → Bool) :
    (∃ evicted s', trySendWhere q s value bytes canEvict = (.ok evicted, s') ∧ Inv q s' ∧
      s.receiverOpen = true ∧ s'.receiverOpen = true ∧ s'.senders = s.senders ∧
      evicted ++ s'.values = s.values ++ [value] ∧ s'.items ≠ []) ∨
    (trySendWhere q s value bytes canEvict = (.error (.closed value), s) ∧
      s.receiverOpen = false) ∨
    (trySendWhere q s value bytes canEvict = (.error (.full value), s) ∧
      s.receiverOpen = true) := by
  unfold trySendWhere
  by_cases hopen : s.receiverOpen = false
  · exact Or.inr (Or.inl ⟨by rw [if_pos hopen], hopen⟩)
  have hopen' : s.receiverOpen = true := by simpa using hopen
  rw [if_neg hopen]
  by_cases hbig : q.maxItems = 0 ∨ bytes > q.maxBytes
  · exact Or.inr (Or.inr ⟨by rw [if_pos hbig], hopen'⟩)
  rw [if_neg hbig]
  push Not at hbig
  have hmax := hi.bytes_le
  have hsum := hi.bytes_eq
  cases hp : q.policy with
  | dropNewest =>
    simp only [pushBack]
    split
    · exact Or.inr (Or.inr ⟨rfl, hopen'⟩)
    · rename_i hfit
      push Not at hfit
      refine Or.inl ⟨[], _, rfl, ⟨?_, ?_, ?_, ?_⟩, hopen', hopen', rfl, ?_, by simp⟩
      · simp [hsum]
      · simp only [List.length_append, List.length_singleton]; omega
      · simp only; omega
      · simp [hopen']
      · simp [State.values]
  | dropOldest =>
    simp only
    split
    · exact Or.inr (Or.inr ⟨rfl, hopen'⟩)
    · rename_i r ri rb hscan
      rw [hsum] at hscan
      obtain ⟨k, hk, hr, hroom, -, -⟩ :=
        evictScan_spec q bytes canEvict (Nat.pos_of_ne_zero hbig.1) s.items _ hscan
      obtain ⟨rfl, rfl⟩ := Prod.mk.inj hr
      have hcount : s.items.length - (s.items.drop k).length = k := by
        rw [List.length_drop]; omega
      simp only [hcount, pushBack]
      -- the check after the drain sees exactly the room the scan found
      have hfit : ¬ ((s.items.drop k).length ≥ q.maxItems ∨
          weight (s.items.drop k) > q.maxBytes - bytes) := by
        have h1 := hroom.1
        have h2 := hroom.2
        omega
      rw [if_neg hfit]
      have hle := weight_drop_le s.items k
      refine Or.inl ⟨_, _, rfl, ⟨?_, ?_, ?_, ?_⟩, hopen', hopen', rfl, ?_, by simp⟩
      · simp
      · simp only [List.length_append, List.length_singleton]
        exact hroom.1
      · simp only
        have := hroom.2
        omega
      · simp [hopen']
      · simp only [State.values, List.map_append, List.map_cons, List.map_nil]
        rw [← List.append_assoc, ← List.map_append, List.take_append_drop]

theorem inv_trySendWhere {q : Limits} {s : State T} (hi : Inv q s) (value : T) (bytes : ℕ)
    (canEvict : T → Bool) : Inv q (trySendWhere q s value bytes canEvict).2 := by
  rcases trySendWhere_spec hi value bytes canEvict with ⟨_, s', h, hi', -⟩ | ⟨h, -⟩ | ⟨h, -⟩
  · rw [h]; exact hi'
  · rw [h]; exact hi
  · rw [h]; exact hi

/-- **A turn of `send`.** It pushes only when both limits leave room, and
never evicts. -/
theorem sendTurn_spec {q : Limits} {s : State T} (hi : Inv q s) (value : T) (bytes : ℕ) :
    (∃ s', sendTurn q s value bytes = (.sent, s') ∧ Inv q s' ∧ s.receiverOpen = true ∧
      s'.receiverOpen = true ∧ s'.senders = s.senders ∧ s'.values = s.values ++ [value] ∧
      s'.items ≠ []) ∨
    (∃ e, sendTurn q s value bytes = (.failed e, s) ∧
      ((q.maxItems = 0 ∨ bytes > q.maxBytes) ∨ s.receiverOpen = false)) ∨
    (sendTurn q s value bytes = (.blocked, s) ∧ s.receiverOpen = true ∧ s.items ≠ []) := by
  unfold sendTurn
  split
  · rename_i hbig
    exact Or.inr (Or.inl ⟨_, rfl, Or.inl hbig⟩)
  · rename_i hbig
    push Not at hbig
    split
    · rename_i hclosed
      exact Or.inr (Or.inl ⟨_, rfl, Or.inr hclosed⟩)
    · rename_i hopen
      have hopen' : s.receiverOpen = true := by simpa using hopen
      have hsum := hi.bytes_eq
      split
      · rename_i hfit
        have hmax := hi.bytes_le
        refine Or.inl ⟨_, rfl, ⟨?_, ?_, ?_, ?_⟩, hopen', hopen', rfl, by simp [State.values], by simp⟩
        · simp [hsum]
        · simpa using hfit.1
        · simp only; omega
        · simp [hopen']
      · rename_i hfit
        refine Or.inr (Or.inr ⟨rfl, hopen', fun hnil => hfit ⟨?_, ?_⟩⟩)
        · rw [hnil]; exact Nat.pos_of_ne_zero hbig.1
        · rw [hsum, hnil]; exact Nat.zero_le _

theorem inv_sendTurn {q : Limits} {s : State T} (hi : Inv q s) (value : T) (bytes : ℕ) :
    Inv q (sendTurn q s value bytes).2 := by
  rcases sendTurn_spec hi value bytes with ⟨s', h, hi', -⟩ | ⟨_, h, -⟩ | ⟨h, -⟩
  · rw [h]; exact hi'
  · rw [h]; exact hi
  · rw [h]; exact hi

/-- **`try_recv_if`.** It takes the oldest item or leaves the state as it was. -/
theorem tryRecvIf_spec {q : Limits} {s : State T} (hi : Inv q s) (ready : T → Bool) :
    (∃ item s', tryRecvIf s ready = (.ok item, s') ∧ Inv q s' ∧ ready item = true ∧
      s'.receiverOpen = s.receiverOpen ∧ s'.senders = s.senders ∧
      item :: s'.values = s.values) ∨
    (∃ e, tryRecvIf s ready = (.error e, s) ∧
      (e = .disconnected ↔ s.items = [] ∧ (s.senders = 0 ∨ s.receiverOpen = false))) := by
  unfold tryRecvIf
  split
  · rename_i item bytes rest hitems
    have hsum := hi.bytes_eq
    have hlen := hi.items_le
    have hmax := hi.bytes_le
    rw [hitems] at hsum hlen
    simp only [weight_cons, List.length_cons] at hsum hlen
    split
    · rename_i hready
      refine Or.inl ⟨item, _, rfl, ⟨?_, ?_, ?_, ?_⟩, hready, rfl, rfl, ?_⟩
      · simp only; omega
      · simp only; omega
      · simp only; omega
      · intro hclosed
        rw [hi.closed_empty hclosed] at hitems
        simp at hitems
      · simp [State.values, hitems]
    · exact Or.inr ⟨_, rfl, by simp [hitems]⟩
  · rename_i hitems
    split
    · rename_i hdone
      exact Or.inr ⟨_, rfl, by simp [hitems, hdone]⟩
    · rename_i hdone
      exact Or.inr ⟨_, rfl, by simp only [reduceCtorEq, false_iff]; exact fun h => hdone h.2⟩

theorem inv_tryRecvIf {q : Limits} {s : State T} (hi : Inv q s) (ready : T → Bool) :
    Inv q (tryRecvIf s ready).2 := by
  rcases tryRecvIf_spec hi ready with ⟨_, s', h, hi', -⟩ | ⟨_, h, -⟩
  · rw [h]; exact hi'
  · rw [h]; exact hi

theorem inv_closeAndDrain (q : Limits) (s : State T) : Inv q (closeAndDrain s).2 :=
  ⟨rfl, Nat.zero_le _, Nat.zero_le _, fun _ => rfl⟩

@[simp] theorem values_closeAndDrain (s : State T) : (closeAndDrain s).2.values = [] := rfl

/-! ### The queue with its invariant -/

/-- A guarded state no sequence of lock sections can leave. -/
structure Queue (q : Limits) (T : Type*) where
  state : State T
  inv : Inv q state

namespace Queue

variable {q : Limits}

def new : Queue q T := ⟨State.new, inv_new q⟩

def values (s : Queue q T) : List T := s.state.values

def isClosed (s : Queue q T) : Bool := !s.state.receiverOpen

def snapshot (s : Queue q T) : QueueSnapshot := ⟨s.state.items.length, q.maxItems⟩

def clone (s : Queue q T) : Queue q T := ⟨s.state.clone, inv_clone s.inv⟩

def dropSender (s : Queue q T) : Queue q T := ⟨s.state.dropSender, inv_dropSender s.inv⟩

def trySendWhere (s : Queue q T) (value : T) (bytes : ℕ) (canEvict : T → Bool) :
    Except (TrySendError T) (List T) × Queue q T :=
  ((Lossy.trySendWhere q s.state value bytes canEvict).1,
    ⟨(Lossy.trySendWhere q s.state value bytes canEvict).2, inv_trySendWhere s.inv _ _ _⟩)

def trySend (s : Queue q T) (value : T) (bytes : ℕ) : Except (TrySendError T) (List T) × Queue q T :=
  s.trySendWhere value bytes fun _ => true

def sendTurn (s : Queue q T) (value : T) (bytes : ℕ) : SendTurn T × Queue q T :=
  ((Lossy.sendTurn q s.state value bytes).1,
    ⟨(Lossy.sendTurn q s.state value bytes).2, inv_sendTurn s.inv _ _⟩)

def tryRecvIf (s : Queue q T) (ready : T → Bool) : Except TryRecvError T × Queue q T :=
  ((Lossy.tryRecvIf s.state ready).1, ⟨(Lossy.tryRecvIf s.state ready).2, inv_tryRecvIf s.inv _⟩)

def tryRecv (s : Queue q T) : Except TryRecvError T × Queue q T := s.tryRecvIf fun _ => true

def closeAndDrain (s : Queue q T) : List T × Queue q T :=
  ((Lossy.closeAndDrain s.state).1, ⟨(Lossy.closeAndDrain s.state).2, inv_closeAndDrain q _⟩)

theorem trySend_spec (s : Queue q T) (value : T) (bytes : ℕ) :
    (∃ evicted s', s.trySend value bytes = (.ok evicted, s') ∧ s.state.receiverOpen = true ∧
      s'.state.receiverOpen = true ∧ s'.state.senders = s.state.senders ∧
      evicted ++ s'.values = s.values ++ [value] ∧ s'.values ≠ []) ∨
    (s.trySend value bytes = (.error (.closed value), s) ∧ s.state.receiverOpen = false) ∨
    (s.trySend value bytes = (.error (.full value), s) ∧ s.state.receiverOpen = true) := by
  obtain ⟨state, inv⟩ := s
  simp only [trySend, trySendWhere]
  rcases Lossy.trySendWhere_spec inv value bytes (fun _ => true) with
    ⟨evicted, s', he, hi, ho, ho', hs, hv, hne⟩ | ⟨he, ho⟩ | ⟨he, ho⟩
  · exact Or.inl ⟨evicted, ⟨s', hi⟩, by simp [he], ho, ho', hs, hv,
      by simpa [values, State.values] using hne⟩
  · exact Or.inr (Or.inl ⟨by simp [he], ho⟩)
  · exact Or.inr (Or.inr ⟨by simp [he], ho⟩)

theorem tryRecvIf_spec (s : Queue q T) (ready : T → Bool) :
    (∃ item s', s.tryRecvIf ready = (.ok item, s') ∧ ready item = true ∧
      s'.state.receiverOpen = s.state.receiverOpen ∧ s'.state.senders = s.state.senders ∧
      item :: s'.values = s.values) ∨
    (∃ e, s.tryRecvIf ready = (.error e, s) ∧
      (e = .disconnected ↔
        s.values = [] ∧ (s.state.senders = 0 ∨ s.state.receiverOpen = false))) := by
  obtain ⟨state, inv⟩ := s
  simp only [tryRecvIf]
  rcases Lossy.tryRecvIf_spec inv ready with ⟨item, s', he, hi, hr, ho, hs, hv⟩ | ⟨e, he, hdis⟩
  · exact Or.inl ⟨item, ⟨s', hi⟩, by simp [he], hr, ho, hs, hv⟩
  · exact Or.inr ⟨e, by simp [he], by simpa [values, State.values] using hdis⟩

end Queue

/-! ### Whole runs -/

/-- The operations on the handles of one queue, each a lock section: `try_send`
and `try_recv` are the cases with no condition, `recv` is a `try_recv` each
time it looks, and a receiver is dropped by draining it. -/
inductive Op (T : Type*)
  | clone
  | dropSender
  | trySendWhere (value : T) (bytes : ℕ) (canEvict : T → Bool)
  | send (value : T) (bytes : ℕ)
  | tryRecvIf (ready : T → Bool)
  | closeAndDrain
  | dropReceiver

/-- The queue and what its callers have seen: the items accepted, in order,
and the items that left it, in order. -/
structure History (T : Type*) where
  state : State T
  accepted : List T
  departed : List T

def History.new : History T := ⟨State.new, [], []⟩

/-- One operation, with what its result says. -/
def History.step (q : Limits) (h : History T) : Op T → History T
  | .clone => { h with state := h.state.clone }
  | .dropSender => { h with state := h.state.dropSender }
  | .trySendWhere value bytes canEvict =>
    match trySendWhere q h.state value bytes canEvict with
    | (.ok evicted, s) => ⟨s, h.accepted ++ [value], h.departed ++ evicted⟩
    | (.error _, s) => { h with state := s }
  | .send value bytes =>
    match sendTurn q h.state value bytes with
    | (.sent, s) => { h with state := s, accepted := h.accepted ++ [value] }
    | (.failed _, s) => { h with state := s }
    | (.blocked, s) => { h with state := s }
  | .tryRecvIf ready =>
    match tryRecvIf h.state ready with
    | (.ok item, s) => { h with state := s, departed := h.departed ++ [item] }
    | (.error _, s) => { h with state := s }
  | .closeAndDrain =>
    match closeAndDrain h.state with
    | (drained, s) => { h with state := s, departed := h.departed ++ drained }
  | .dropReceiver =>
    match closeAndDrain h.state with
    | (drained, s) => { h with state := s, departed := h.departed ++ drained }

/-- What every operation keeps. -/
structure History.Good (q : Limits) (h : History T) : Prop where
  inv : Inv q h.state
  law : h.departed ++ h.state.values = h.accepted

theorem History.good_new (q : Limits) : (History.new : History T).Good q :=
  ⟨inv_new q, rfl⟩

theorem History.good_drain {q : Limits} {h : History T} (hg : h.Good q) :
    History.Good q
      { h with state := (Lossy.closeAndDrain h.state).2, departed := h.departed ++ h.state.values } := by
  refine ⟨inv_closeAndDrain q _, ?_⟩
  simpa using hg.law

theorem History.good_step {q : Limits} {h : History T} (hg : h.Good q) (op : Op T) :
    (h.step q op).Good q := by
  obtain ⟨hi, hl⟩ := hg
  cases op with
  | clone => exact ⟨inv_clone hi, hl⟩
  | dropSender => exact ⟨inv_dropSender hi, hl⟩
  | trySendWhere value bytes canEvict =>
    rcases trySendWhere_spec hi value bytes canEvict with
      ⟨evicted, s', he, hi', -, -, -, hv, -⟩ | ⟨he, -⟩ | ⟨he, -⟩
    · simp only [History.step, he]
      refine ⟨hi', ?_⟩
      simp only [List.append_assoc, hv]
      rw [← List.append_assoc, hl]
    · simp only [History.step, he]
      exact ⟨hi, hl⟩
    · simp only [History.step, he]
      exact ⟨hi, hl⟩
  | send value bytes =>
    rcases sendTurn_spec hi value bytes with ⟨s', he, hi', -, -, -, hv, -⟩ | ⟨_, he, -⟩ | ⟨he, -⟩
    · simp only [History.step, he]
      refine ⟨hi', ?_⟩
      simp only [hv]
      rw [← List.append_assoc, hl]
    · simp only [History.step, he]
      exact ⟨hi, hl⟩
    · simp only [History.step, he]
      exact ⟨hi, hl⟩
  | tryRecvIf ready =>
    rcases tryRecvIf_spec hi ready with ⟨item, s', he, hi', -, -, -, hv⟩ | ⟨_, he, -⟩
    · simp only [History.step, he]
      refine ⟨hi', ?_⟩
      simp only [List.append_assoc, List.singleton_append, hv]
      exact hl
    · simp only [History.step, he]
      exact ⟨hi, hl⟩
  | closeAndDrain => exact History.good_drain ⟨hi, hl⟩
  | dropReceiver => exact History.good_drain ⟨hi, hl⟩

/-- A closed queue stays closed and accepts nothing. -/
theorem History.step_closed {q : Limits} {h : History T} (hg : h.Good q) (op : Op T)
    (hc : h.state.receiverOpen = false) :
    (h.step q op).state.receiverOpen = false ∧ (h.step q op).accepted = h.accepted := by
  obtain ⟨hi, -⟩ := hg
  cases op with
  | clone => exact ⟨hc, rfl⟩
  | dropSender => exact ⟨hc, rfl⟩
  | trySendWhere value bytes canEvict =>
    rcases trySendWhere_spec hi value bytes canEvict with
      ⟨_, _, -, -, ho, -⟩ | ⟨he, -⟩ | ⟨-, ho⟩
    · rw [hc] at ho; cases ho
    · simp only [History.step, he]
      exact ⟨hc, trivial⟩
    · rw [hc] at ho; cases ho
  | send value bytes =>
    rcases sendTurn_spec hi value bytes with ⟨_, -, -, ho, -⟩ | ⟨_, he, -⟩ | ⟨-, ho, -⟩
    · rw [hc] at ho; cases ho
    · simp only [History.step, he]
      exact ⟨hc, trivial⟩
    · rw [hc] at ho; cases ho
  | tryRecvIf ready =>
    rcases tryRecvIf_spec hi ready with ⟨_, _, he, -, -, ho, -⟩ | ⟨_, he, -⟩
    · simp only [History.step, he, ho]
      exact ⟨hc, trivial⟩
    · simp only [History.step, he]
      exact ⟨hc, trivial⟩
  | closeAndDrain => exact ⟨rfl, rfl⟩
  | dropReceiver => exact ⟨rfl, rfl⟩

theorem History.good_run (q : Limits) (ops : List (Op T)) :
    (run (History.step q) History.new ops).Good q :=
  run_inv (I := History.Good q) (fun _ op hg => History.good_step hg op) ops (History.good_new q)

theorem History.run_closed {q : Limits} :
    ∀ (ops : List (Op T)) {h : History T}, h.Good q → h.state.receiverOpen = false →
      (run (History.step q) h ops).accepted = h.accepted
  | [], _, _, _ => rfl
  | op :: ops, h, hg, hc => by
    have hs := History.step_closed hg op hc
    rw [run_cons, History.run_closed ops (History.good_step hg op) hs.1, hs.2]

/-- **Conservation and order.** After any operations, in any order, the items
that left followed by the items queued are the items accepted; so the queue
is a suffix of what was accepted, and once the receiver has closed nothing
more is accepted. -/
theorem accepted_eq_departed_append_values (q : Limits) (ops : List (Op T)) :
    (run (History.step q) History.new ops).departed ++
        (run (History.step q) History.new ops).state.values =
      (run (History.step q) History.new ops).accepted ∧
    (run (History.step q) History.new ops).state.values <:+
      (run (History.step q) History.new ops).accepted ∧
    ((run (History.step q) History.new ops).state.receiverOpen = false →
      ∀ later, (run (History.step q) History.new (ops ++ later)).accepted =
        (run (History.step q) History.new ops).accepted) := by
  have hg := History.good_run q ops
  refine ⟨hg.law, ⟨_, hg.law⟩, fun hc later => ?_⟩
  rw [run_append]
  exact History.run_closed later hg hc

/-- The run of the test `oldest_eviction_accounts_bytes_and_preserves_fifo`:
4 of weight 4 evicts 1 and 2, and the oversized 3 evicts nothing. -/
example :
    let h := run (History.step ⟨2, 5, .dropOldest⟩) (History.new : History ℕ)
      [.trySendWhere 1 2 fun _ => true, .trySendWhere 2 3 fun _ => true,
        .trySendWhere 3 6 fun _ => true, .trySendWhere 4 4 fun _ => true]
    h.accepted = [1, 2, 4] ∧ h.departed = [1, 2] ∧ h.state.bytes = 4 := by
  decide

end Lossy
end Slinet
