/-
# The lossy queue in machine words

The counts of `src/connection/queue/lossy.rs` are `usize`s, and its sums and
differences are not checked. Here the lock sections of `Slinet.Lossy` are
written once more with every such operation partial, in the order in which the
source evaluates them; `none` is an overflow. Under the queue's invariant each
of them is the lock section over natural numbers (`trySendWhere_eq`,
`sendTurn_eq`, `tryRecvIf_eq`).

A `Channel` is the queue with its handles. The number of senders is the number
of sender handles alive, and it fits a word with one to spare, because each
handle has a reference to the shared state and `Arc` aborts the process before
there are more of those than `isize::MAX`. So no operation of any run
overflows (`no_overflow`).
-/
import Slinet.LengthCodec
import Slinet.Lossy

namespace Slinet

/-- A sum of `usize`s, unless it overflows. -/
def Target.add? (t : Target) (a b : ℕ) : Option ℕ := if a + b < t.usize then some (a + b) else none

/-- A difference of `usize`s, unless it underflows. -/
def sub? (a b : ℕ) : Option ℕ := if b ≤ a then some (a - b) else none

theorem Target.add?_eq {t : Target} {a b : ℕ} (h : a + b < t.usize) : t.add? a b = some (a + b) :=
  if_pos h

theorem sub?_eq {a b : ℕ} (h : b ≤ a) : sub? a b = some (a - b) := if_pos h

namespace LossyWords

open Lossy

variable {T : Type}

/-- Limits that a `usize` holds. -/
structure WordLimits (t : Target) extends Limits where
  items_lt : maxItems < t.usize
  bytes_lt : maxBytes < t.usize

/-! ### The lock sections -/

def clone (t : Target) (s : State T) : Option (State T) := do
  let senders ← t.add? s.senders 1
  return { s with senders := senders }

def dropSender (s : State T) : Option (State T) := do
  let senders ← sub? s.senders 1
  return { s with senders := senders }

/-- `items < max_items && bytes <= max_bytes - w`: the difference is formed only
where the first test holds. -/
def hasRoom (q : Limits) (items bytes w : ℕ) : Option Bool :=
  if items < q.maxItems then do
    let room ← sub? q.maxBytes w
    return decide (bytes ≤ room)
  else some false

def evictScan (q : Limits) (w : ℕ) (canEvict : T → Bool) :
    List (T × ℕ) → ℕ → ℕ → Option (Option (ℕ × ℕ))
  | [], remainingItems, remainingBytes => some (some (remainingItems, remainingBytes))
  | (old, oldBytes) :: rest, remainingItems, remainingBytes => do
    let room ← hasRoom q remainingItems remainingBytes w
    if room then return some (remainingItems, remainingBytes)
    else if canEvict old = false then return none
    else
      let remainingItems ← sub? remainingItems 1
      let remainingBytes ← sub? remainingBytes oldBytes
      evictScan q w canEvict rest remainingItems remainingBytes

def pushBack (t : Target) (q : Limits) (s : State T) (value : T) (w : ℕ) (evicted : List T) :
    Option (Except (TrySendError T) (List T) × State T) := do
  let room ← hasRoom q s.items.length s.bytes w
  if room then
    let bytes ← t.add? s.bytes w
    return (.ok evicted, { s with bytes := bytes, items := s.items ++ [(value, w)] })
  else return (.error (.full value), s)

def trySendWhere (t : Target) (q : Limits) (s : State T) (value : T) (w : ℕ) (canEvict : T → Bool) :
    Option (Except (TrySendError T) (List T) × State T) :=
  if s.receiverOpen = false then some (.error (.closed value), s)
  else if q.maxItems = 0 ∨ w > q.maxBytes then some (.error (.full value), s)
  else
    match q.policy with
    | .dropOldest => do
      match ← evictScan q w canEvict s.items s.items.length s.bytes with
      | none => return (.error (.full value), s)
      | some (remainingItems, remainingBytes) =>
        let evictedCount ← sub? s.items.length remainingItems
        pushBack t q { s with items := s.items.drop evictedCount, bytes := remainingBytes } value w
          ((s.items.take evictedCount).map Prod.fst)
    | .dropNewest => pushBack t q s value w []

def sendTurn (t : Target) (q : Limits) (s : State T) (value : T) (w : ℕ) :
    Option (SendTurn T × State T) :=
  if q.maxItems = 0 ∨ w > q.maxBytes then some (.failed (.full value), s)
  else if s.receiverOpen = false then some (.failed (.closed value), s)
  else do
    let room ← hasRoom q s.items.length s.bytes w
    if room then
      let bytes ← t.add? s.bytes w
      return (.sent, { s with bytes := bytes, items := s.items ++ [(value, w)] })
    else return (.blocked, s)

def tryRecvIf (s : State T) (ready : T → Bool) : Option (Except TryRecvError T × State T) :=
  match s.items with
  | (item, bytes) :: rest =>
    if ready item then do
      let left ← sub? s.bytes bytes
      return (.ok item, { s with items := rest, bytes := left })
    else some (.error .empty, s)
  | [] =>
    if s.senders = 0 ∨ s.receiverOpen = false then some (.error .disconnected, s)
    else some (.error .empty, s)

/-! ### They never overflow -/

theorem hasRoom_eq {q : Limits} {w : ℕ} (hw : w ≤ q.maxBytes) (items bytes : ℕ) :
    hasRoom q items bytes w = some (decide (items < q.maxItems ∧ bytes ≤ q.maxBytes - w)) := by
  unfold hasRoom
  by_cases hitems : items < q.maxItems
  · rw [if_pos hitems, sub?_eq hw]
    simp [hitems]
  · rw [if_neg hitems]
    simp [hitems]

/-- The scan takes off what it has counted. -/
theorem evictScan_eq {q : Limits} {w : ℕ} (hw : w ≤ q.maxBytes) (canEvict : T → Bool) :
    ∀ l : List (T × ℕ), evictScan q w canEvict l l.length (weight l) =
      some (Lossy.evictScan q w canEvict l l.length (weight l))
  | [] => rfl
  | (old, oldBytes) :: rest => by
    have hlen : sub? ((old, oldBytes) :: rest).length 1 = some rest.length := by
      rw [sub?_eq (by simp)]
      simp
    have hweight : sub? (weight ((old, oldBytes) :: rest)) oldBytes = some (weight rest) := by
      rw [sub?_eq (by simp)]
      simp
    have hlen' : ((old, oldBytes) :: rest).length - 1 = rest.length := by simp
    have hweight' : weight ((old, oldBytes) :: rest) - oldBytes = weight rest := by simp
    rw [evictScan, Lossy.evictScan, hasRoom_eq hw, hlen, hweight, hlen', hweight']
    by_cases hroom : ((old, oldBytes) :: rest).length < q.maxItems ∧
        weight ((old, oldBytes) :: rest) ≤ q.maxBytes - w
    · rw [if_pos hroom]
      simp only [hroom, and_self, decide_true]
      rfl
    · rw [if_neg hroom]
      simp only [hroom, decide_false]
      by_cases hold : canEvict old = false
      · rw [if_pos hold]
        simp [hold]
      · rw [if_neg hold]
        simp only [Option.bind_eq_bind, Option.bind_some, Bool.false_eq_true, if_false, hold]
        exact evictScan_eq hw canEvict rest

theorem pushBack_eq {t : Target} {q : WordLimits t} {w : ℕ} (hw : w ≤ q.maxBytes) (s : State T)
    (value : T) (evicted : List T) :
    pushBack t q.toLimits s value w evicted = some (Lossy.pushBack q.toLimits s value w evicted) := by
  have hlt := q.bytes_lt
  rw [pushBack, Lossy.pushBack, hasRoom_eq hw]
  by_cases hroom : s.items.length < q.maxItems ∧ s.bytes ≤ q.maxBytes - w
  · rw [if_neg (by omega), Target.add?_eq (by omega)]
    simp [hroom]
  · rw [if_pos (by omega)]
    simp [hroom]

theorem trySendWhere_eq {t : Target} {q : WordLimits t} {s : State T} (hi : Inv q.toLimits s) (value : T)
    (w : ℕ) (canEvict : T → Bool) :
    trySendWhere t q.toLimits s value w canEvict =
      some (Lossy.trySendWhere q.toLimits s value w canEvict) := by
  unfold trySendWhere Lossy.trySendWhere
  by_cases hopen : s.receiverOpen = false
  · rw [if_pos hopen, if_pos hopen]
  rw [if_neg hopen, if_neg hopen]
  by_cases hbig : q.maxItems = 0 ∨ w > q.maxBytes
  · rw [if_pos hbig, if_pos hbig]
  rw [if_neg hbig, if_neg hbig]
  have hw : w ≤ q.maxBytes := by omega
  have hpos : 0 < q.maxItems := by omega
  cases hp : q.policy with
  | dropNewest => exact pushBack_eq hw s value []
  | dropOldest =>
    rw [hi.bytes_eq]
    simp only [evictScan_eq hw]
    cases hscan : Lossy.evictScan q.toLimits w canEvict s.items s.items.length (weight s.items) with
    | none => rfl
    | some r =>
      obtain ⟨k, hk, rfl, -⟩ := evictScan_spec q.toLimits w canEvict hpos s.items _ hscan
      have hle : (s.items.drop k).length ≤ s.items.length := by
        rw [List.length_drop]
        omega
      simp only [Option.bind_eq_bind, Option.bind_some, sub?_eq hle]
      exact pushBack_eq hw _ value _

theorem sendTurn_eq {t : Target} {q : WordLimits t} (s : State T) (value : T) (w : ℕ) :
    sendTurn t q.toLimits s value w = some (Lossy.sendTurn q.toLimits s value w) := by
  unfold sendTurn Lossy.sendTurn
  by_cases hbig : q.maxItems = 0 ∨ w > q.maxBytes
  · rw [if_pos hbig, if_pos hbig]
  rw [if_neg hbig, if_neg hbig]
  by_cases hopen : s.receiverOpen = false
  · rw [if_pos hopen, if_pos hopen]
  rw [if_neg hopen, if_neg hopen]
  have hw : w ≤ q.maxBytes := by omega
  have hlt := q.bytes_lt
  rw [hasRoom_eq hw]
  by_cases hroom : s.items.length < q.maxItems ∧ s.bytes ≤ q.maxBytes - w
  · rw [if_pos hroom, Target.add?_eq (by omega)]
    simp [hroom]
  · rw [if_neg hroom]
    simp [hroom]

theorem tryRecvIf_eq {q : Limits} {s : State T} (hi : Inv q s) (ready : T → Bool) :
    tryRecvIf s ready = some (Lossy.tryRecvIf s ready) := by
  unfold tryRecvIf Lossy.tryRecvIf
  cases hitems : s.items with
  | nil =>
    simp only
    split
    · rfl
    · rfl
  | cons x rest =>
    have hle : x.2 ≤ s.bytes := by
      rw [hi.bytes_eq, hitems, weight_cons]
      omega
    simp only [sub?_eq hle]
    split
    · rfl
    · rfl

/-! ### The handles -/

/-- How an operation may fail to return: a word overflows, or `Arc::clone`
aborts the process. -/
inductive Fault
  | overflow
  | aborted
  deriving DecidableEq, Repr

/-- The shared state with the handles on it: the senders alive, each by its
serial number, whether the receiver is, and how many senders there have been. -/
structure Channel (T : Type) where
  state : State T
  senders : List ℕ
  receiver : Bool
  created : ℕ

/-- What `lossy_channel` returns. -/
def Channel.new : Channel T := ⟨State.new, [0], true, 1⟩

/-- The references to the shared state: one for each handle, and those that the
`send`s and `recv`s under way hold. -/
def Channel.references (c : Channel T) (held : ℕ) : ℕ := c.senders.length + c.receiver.toNat + held

/-- The operations, on the handle they are called on. A `send` is a turn of its
loop, and a `recv` is a `try_recv` each time it looks. -/
inductive Op (t : Target) (T : Type)
  | clone (handle held : ℕ)
  | dropSender (handle : ℕ)
  | trySendWhere (handle : ℕ) (value : T) (w : Fin t.usize) (canEvict : T → Bool)
  | send (handle : ℕ) (value : T) (w : Fin t.usize)
  | tryRecvIf (ready : T → Bool)
  | closeAndDrain
  | dropReceiver

/-- The channel after a lock section. -/
def Channel.set (c : Channel T) : Option (State T) → Except Fault (Channel T)
  | none => .error .overflow
  | some s => .ok { c with state := s }

/-- One operation; there is none on a handle that is gone. -/
def Channel.step {t : Target} (q : WordLimits t) (c : Channel T) : Op t T → Except Fault (Channel T)
  | .clone handle held =>
    if handle ∉ c.senders then .ok c
    else
      match clone t c.state with
      | none => .error .overflow
      | some s =>
        -- the new reference is counted after the sender
        if t.isizeMax < c.references held then .error .aborted
        else .ok { c with state := s, senders := c.senders ++ [c.created], created := c.created + 1 }
  | .dropSender handle =>
    if handle ∉ c.senders then .ok c
    else { c with senders := c.senders.erase handle }.set (dropSender c.state)
  | .trySendWhere handle value w canEvict =>
    if handle ∉ c.senders then .ok c
    else c.set ((trySendWhere t q.toLimits c.state value w canEvict).map Prod.snd)
  | .send handle value w =>
    if handle ∉ c.senders then .ok c
    else c.set ((sendTurn t q.toLimits c.state value w).map Prod.snd)
  | .tryRecvIf ready =>
    if c.receiver = false then .ok c
    else c.set ((tryRecvIf c.state ready).map Prod.snd)
  | .closeAndDrain =>
    if c.receiver = false then .ok c
    else .ok { c with state := (Lossy.closeAndDrain c.state).2 }
  | .dropReceiver =>
    if c.receiver = false then .ok c
    else .ok { c with state := (Lossy.closeAndDrain c.state).2, receiver := false }

/-- Nothing follows a fault. -/
def Channel.next {t : Target} (q : WordLimits t) (r : Except Fault (Channel T)) (op : Op t T) :
    Except Fault (Channel T) :=
  r.bind fun c => c.step q op

/-- What every operation keeps. -/
structure Channel.Good {t : Target} (q : WordLimits t) (c : Channel T) : Prop where
  inv : Inv q.toLimits c.state
  senders_eq : c.state.senders = c.senders.length
  length_le : c.senders.length ≤ t.isizeMax + 1
  nodup : c.senders.Nodup
  created_gt : ∀ handle ∈ c.senders, handle < c.created

theorem Channel.good_new {t : Target} (q : WordLimits t) : (Channel.new : Channel T).Good q := by
  refine ⟨inv_new q.toLimits, rfl, ?_, List.nodup_singleton 0, ?_⟩
  · simp [Channel.new]
  · simp [Channel.new]

section Step

variable {t : Target} {q : WordLimits t} {c : Channel T}

/-- A lock section that does not count senders keeps the handles as they are. -/
theorem Channel.Good.set (hg : c.Good q) {s : State T} (hi : Inv q.toLimits s)
    (hs : s.senders = c.state.senders) : Channel.Good q { c with state := s } :=
  ⟨hi, hs.trans hg.senders_eq, hg.length_le, hg.nodup, hg.created_gt⟩

theorem Channel.step_clone (hg : c.Good q) (handle held : ℕ) :
    c.step q (.clone handle held) = .error .aborted ∨
      ∃ c', c.step q (.clone handle held) = .ok c' ∧ c'.Good q := by
  obtain ⟨hi, hs, hlen, hnodup, hcreated⟩ := hg
  by_cases hmem : handle ∉ c.senders
  · exact Or.inr ⟨c, if_pos hmem, hi, hs, hlen, hnodup, hcreated⟩
  have hfits : c.state.senders + 1 < t.usize := by
    have := t.isizeMax_lt
    omega
  have hclone : clone t c.state = some c.state.clone := by
    rw [clone, Target.add?_eq hfits]
    rfl
  simp only [Channel.step, if_neg hmem, hclone]
  by_cases habort : t.isizeMax < c.references held
  · exact Or.inl (if_pos habort)
  refine Or.inr ⟨_, if_neg habort, inv_clone hi, ?_, ?_, ?_, ?_⟩
  · simp [State.clone, hs]
  · have hle : c.senders.length ≤ c.references held := by
      unfold Channel.references
      omega
    simp only [List.length_append, List.length_singleton]
    omega
  · refine List.nodup_append.mpr ⟨hnodup, List.nodup_singleton _, fun a ha b hb => ?_⟩
    have := hcreated a ha
    rw [List.mem_singleton] at hb
    omega
  · intro h hh
    rcases List.mem_append.mp hh with hh | hh
    · have := hcreated h hh
      simp only
      omega
    · rw [List.mem_singleton] at hh
      simp only
      omega

theorem Channel.step_dropSender (hg : c.Good q) (handle : ℕ) :
    ∃ c', c.step q (.dropSender handle) = .ok c' ∧ c'.Good q := by
  by_cases hmem : handle ∉ c.senders
  · exact ⟨c, if_pos hmem, hg⟩
  have hlive : handle ∈ c.senders := by simpa using hmem
  have hpos : 1 ≤ c.state.senders := by
    rw [hg.senders_eq]
    exact List.length_pos_of_mem hlive
  have hdrop : dropSender c.state = some c.state.dropSender := by
    rw [dropSender, sub?_eq hpos]
    rfl
  simp only [Channel.step, if_neg hmem, hdrop, Channel.set]
  have hlen : (c.senders.erase handle).length = c.senders.length - 1 := List.length_erase_of_mem hlive
  have hle := hg.length_le
  refine ⟨_, rfl, inv_dropSender hg.inv, ?_, ?_, hg.nodup.erase handle, ?_⟩
  · simp [State.dropSender, hlen, hg.senders_eq]
  · simp only [hlen]
    omega
  · exact fun h hh => hg.created_gt h (List.mem_of_mem_erase hh)

theorem Channel.step_trySendWhere (hg : c.Good q) (handle : ℕ) (value : T) (w : Fin t.usize)
    (canEvict : T → Bool) :
    ∃ c', c.step q (.trySendWhere handle value w canEvict) = .ok c' ∧ c'.Good q := by
  by_cases hmem : handle ∉ c.senders
  · exact ⟨c, if_pos hmem, hg⟩
  simp only [Channel.step, if_neg hmem, trySendWhere_eq hg.inv, Option.map_some, Channel.set]
  refine ⟨_, rfl, hg.set (inv_trySendWhere hg.inv value w canEvict) ?_⟩
  rcases trySendWhere_spec hg.inv value w canEvict with ⟨_, _, he, -, -, -, hs, -⟩ | ⟨he, -⟩ | ⟨he, -⟩
  · rw [he]
    exact hs
  · rw [he]
  · rw [he]

theorem Channel.step_send (hg : c.Good q) (handle : ℕ) (value : T) (w : Fin t.usize) :
    ∃ c', c.step q (.send handle value w) = .ok c' ∧ c'.Good q := by
  by_cases hmem : handle ∉ c.senders
  · exact ⟨c, if_pos hmem, hg⟩
  simp only [Channel.step, if_neg hmem, sendTurn_eq, Option.map_some, Channel.set]
  refine ⟨_, rfl, hg.set (inv_sendTurn hg.inv value w) ?_⟩
  rcases sendTurn_spec hg.inv value w with ⟨_, he, -, -, -, hs, -⟩ | ⟨_, he, -⟩ | ⟨he, -⟩
  · rw [he]
    exact hs
  · rw [he]
  · rw [he]

theorem Channel.step_tryRecvIf (hg : c.Good q) (ready : T → Bool) :
    ∃ c', c.step q (.tryRecvIf ready) = .ok c' ∧ c'.Good q := by
  by_cases hgone : c.receiver = false
  · exact ⟨c, if_pos hgone, hg⟩
  simp only [Channel.step, if_neg hgone, tryRecvIf_eq hg.inv, Option.map_some, Channel.set]
  refine ⟨_, rfl, hg.set (inv_tryRecvIf hg.inv ready) ?_⟩
  rcases tryRecvIf_spec hg.inv ready with ⟨_, _, he, -, -, -, hs, -⟩ | ⟨_, he, -⟩
  · rw [he]
    exact hs
  · rw [he]

/-- **One operation.** It returns, or `Arc::clone` has aborted the process. -/
theorem Channel.good_step (hg : c.Good q) (op : Op t T) :
    c.step q op = .error .aborted ∨ ∃ c', c.step q op = .ok c' ∧ c'.Good q := by
  cases op with
  | clone handle held => exact Channel.step_clone hg handle held
  | dropSender handle => exact Or.inr (Channel.step_dropSender hg handle)
  | trySendWhere handle value w canEvict =>
    exact Or.inr (Channel.step_trySendWhere hg handle value w canEvict)
  | send handle value w => exact Or.inr (Channel.step_send hg handle value w)
  | tryRecvIf ready => exact Or.inr (Channel.step_tryRecvIf hg ready)
  | closeAndDrain =>
    refine Or.inr ?_
    by_cases hgone : c.receiver = false
    · exact ⟨c, if_pos hgone, hg⟩
    · exact ⟨_, if_neg hgone, hg.set (inv_closeAndDrain q.toLimits c.state) rfl⟩
  | dropReceiver =>
    refine Or.inr ?_
    by_cases hgone : c.receiver = false
    · exact ⟨c, if_pos hgone, hg⟩
    · have hg' := hg.set (inv_closeAndDrain q.toLimits c.state) rfl
      exact ⟨_, if_neg hgone, hg'.inv, hg'.senders_eq, hg'.length_le, hg'.nodup, hg'.created_gt⟩

end Step

/-- What a run has come to. -/
def Channel.Sound {t : Target} (q : WordLimits t) (r : Except Fault (Channel T)) : Prop :=
  r = .error .aborted ∨ ∃ c, r = .ok c ∧ c.Good q

theorem Channel.sound_next {t : Target} {q : WordLimits t} {r : Except Fault (Channel T)}
    (h : Channel.Sound q r) (op : Op t T) : Channel.Sound q (Channel.next q r op) := by
  rcases h with rfl | ⟨c, rfl, hg⟩
  · exact Or.inl rfl
  · exact Channel.good_step hg op

/-- **The representation invariant, and no overflow.** Whatever operations are
called on whatever handles, with any limits, no sum or difference leaves the
words; and wherever the run has come to, the counts are what they count. -/
theorem no_overflow (t : Target) (q : WordLimits t) (ops : List (Op t T)) :
    run (Channel.next q) (.ok Channel.new) ops ≠ .error .overflow ∧
    ∀ c : Channel T, run (Channel.next q) (.ok Channel.new) ops = .ok c →
      c.state.bytes = weight c.state.items ∧ c.state.items.length ≤ q.maxItems ∧
      c.state.bytes ≤ q.maxBytes ∧ c.state.senders = c.senders.length ∧ c.senders.Nodup ∧
      (c.state.receiverOpen = false → c.state.items = [] ∧ c.state.bytes = 0) := by
  have hs : Channel.Sound q (run (Channel.next q) (.ok (Channel.new : Channel T)) ops) :=
    run_inv (I := Channel.Sound q) (fun _ op h => Channel.sound_next h op) ops
      (Or.inr ⟨_, rfl, Channel.good_new q⟩)
  rcases hs with habort | ⟨c', hc', hg⟩
  · rw [habort]
    exact ⟨fun h => (by cases h), fun _ h => (by cases h)⟩
  · rw [hc']
    refine ⟨fun h => (by cases h), fun c hc => ?_⟩
    obtain rfl := Except.ok.inj hc
    refine ⟨hg.inv.bytes_eq, hg.inv.items_le, hg.inv.bytes_le, hg.senders_eq, hg.nodup, fun hclosed => ?_⟩
    have hnil := hg.inv.closed_empty hclosed
    exact ⟨hnil, by rw [hg.inv.bytes_eq, hnil, weight_nil]⟩

/-- At the largest limits an item of the largest weight goes in and out. -/
example :
    (match run (Channel.next (t := .bits32) ⟨⟨2 ^ 32 - 1, 2 ^ 32 - 1, .dropOldest⟩, by decide, by decide⟩)
        (.ok Channel.new)
        [.clone 0 0, .trySendWhere 1 true ⟨2 ^ 32 - 1, by decide⟩ fun _ => true, .dropSender 0,
          .tryRecvIf fun _ => true] with
    | .ok c => some (c.state, c.senders)
    | .error _ => none) = some (⟨[], 0, 1, true⟩, [1]) := by
  decide

end LossyWords
end Slinet
