/-
# What an eviction costs

`try_send_where` (`Slinet.Lossy`) counts in one pass what has to go, with two
running totals against the two limits, drains it in a second step and then
checks the limits again. Here is what comes out: the least number of oldest
items whose removal lets the new one in (`leastEvictions`), all of them or
none (`trySendWhere_exact`).
-/
import Slinet.Lossy

namespace Slinet
namespace Lossy

variable {T : Type*} {q : Limits} {w : ℕ} {items : List (T × ℕ)}

/-- An item of weight `w` fits once the `k` oldest are gone. -/
def FitsAfter (q : Limits) (w : ℕ) (items : List (T × ℕ)) (k : ℕ) : Prop :=
  (items.drop k).length < q.maxItems ∧ weight (items.drop k) + w ≤ q.maxBytes

/-- The least number of oldest items that have to go for it. -/
noncomputable def leastEvictions (q : Limits) (w : ℕ) (items : List (T × ℕ)) : ℕ :=
  sInf { k | FitsAfter q w items k }

theorem fitsAfter_iff (hw : w ≤ q.maxBytes) (k : ℕ) :
    FitsAfter q w items k ↔ Room q w (items.drop k) := by
  unfold FitsAfter Room
  omega

/-- An empty queue has room for any item within the limits. -/
theorem isLeast_leastEvictions (items : List (T × ℕ)) (hpos : 0 < q.maxItems) (hw : w ≤ q.maxBytes) :
    IsLeast { k | FitsAfter q w items k } (leastEvictions q w items) := by
  have hall : FitsAfter q w items items.length := by
    simp only [FitsAfter, List.drop_length, List.length_nil, weight_nil]
    omega
  exact ⟨Nat.sInf_mem ⟨_, hall⟩, fun k hk => Nat.sInf_le hk⟩

/-- **The scan is exact.** Where `k` is the least number of items to remove, it
finds what remains without them, unless one of them may not be evicted. -/
theorem evictScan_eq (canEvict : T → Bool) : ∀ (l : List (T × ℕ)) (k : ℕ),
    Room q w (l.drop k) → (∀ j < k, ¬ Room q w (l.drop j)) →
    evictScan q w canEvict l l.length (weight l) =
      if ∀ x ∈ l.take k, canEvict x.1 = true then some ((l.drop k).length, weight (l.drop k)) else none
  | [], k, _, _ => by simp [evictScan]
  | (old, oldBytes) :: rest, 0, hroom, _ => by
    have hfits : ((old, oldBytes) :: rest).length < q.maxItems ∧
        weight ((old, oldBytes) :: rest) ≤ q.maxBytes - w := hroom
    rw [evictScan, if_pos hfits]
    simp
  | (old, oldBytes) :: rest, k + 1, hroom, hmin => by
    have hfull : ¬ (((old, oldBytes) :: rest).length < q.maxItems ∧
        weight ((old, oldBytes) :: rest) ≤ q.maxBytes - w) := hmin 0 (Nat.succ_pos k)
    have hlen : ((old, oldBytes) :: rest).length - 1 = rest.length := by simp
    have hweight : weight ((old, oldBytes) :: rest) - oldBytes = weight rest := by simp
    have ih := evictScan_eq canEvict rest k (by simpa using hroom)
      fun j hj => by simpa using hmin (j + 1) (by omega)
    rw [evictScan, if_neg hfull, hlen, hweight, ih]
    by_cases hold : canEvict old = true
    · rw [if_neg (by simp [hold])]
      simp only [List.take_succ_cons, List.forall_mem_cons, hold, true_and, List.drop_succ_cons]
    · rw [if_pos (by simpa using hold)]
      simp [hold]

section Send

variable {s : State T}

/-- The state with the new item, when the `k` oldest are gone. -/
def State.pushed (s : State T) (k : ℕ) (value : T) (w : ℕ) : State T :=
  { s with items := s.items.drop k ++ [(value, w)], bytes := weight (s.items.drop k) + w }

theorem pushBack_of_room {k : ℕ} (h : Room q w (s.items.drop k)) (value : T) (evicted : List T) :
    pushBack q { s with items := s.items.drop k, bytes := weight (s.items.drop k) } value w evicted =
      (.ok evicted, s.pushed k value w) := by
  obtain ⟨h1, h2⟩ := h
  rw [pushBack, if_neg (by simp only; omega)]
  rfl

/-- Under `DropOldest`, within the limits. -/
theorem trySendWhere_dropOldest (hi : Inv q s) (hp : q.policy = .dropOldest)
    (hopen : s.receiverOpen = true) (hpos : 0 < q.maxItems) (hw : w ≤ q.maxBytes) (value : T)
    (canEvict : T → Bool) :
    trySendWhere q s value w canEvict =
      if ∀ x ∈ s.items.take (leastEvictions q w s.items), canEvict x.1 = true then
        (.ok ((s.items.take (leastEvictions q w s.items)).map Prod.fst),
          s.pushed (leastEvictions q w s.items) value w)
      else (.error (.full value), s) := by
  obtain ⟨hfits, hmin⟩ := isLeast_leastEvictions s.items hpos hw
  set k := leastEvictions q w s.items with hk
  have hroom : Room q w (s.items.drop k) := (fitsAfter_iff hw k).mp hfits
  have hscan := evictScan_eq (q := q) (w := w) canEvict s.items k hroom fun j hj hr =>
    absurd (hmin ((fitsAfter_iff hw j).mpr hr)) (by omega)
  have hle : k ≤ s.items.length := by
    refine hmin ?_
    refine (fitsAfter_iff hw _).mpr ?_
    rw [List.drop_length]
    exact ⟨hpos, Nat.zero_le _⟩
  have hcount : s.items.length - (s.items.drop k).length = k := by
    rw [List.length_drop]
    omega
  rw [trySendWhere, if_neg (by simp [hopen]), if_neg (by omega), hp]
  simp only [hi.bytes_eq, hscan]
  split_ifs with hall
  · simp only [hcount]
    exact pushBack_of_room hroom value _
  · rfl

/-- Under `DropNewest`, within the limits. -/
theorem trySendWhere_dropNewest (hi : Inv q s) (hp : q.policy = .dropNewest)
    (hopen : s.receiverOpen = true) (hpos : 0 < q.maxItems) (hw : w ≤ q.maxBytes) (value : T)
    (canEvict : T → Bool) :
    trySendWhere q s value w canEvict =
      if leastEvictions q w s.items = 0 then (.ok [], s.pushed 0 value w)
      else (.error (.full value), s) := by
  obtain ⟨hfits, hmin⟩ := isLeast_leastEvictions s.items hpos hw
  have hzero : leastEvictions q w s.items = 0 ↔ Room q w s.items := by
    constructor
    · intro h0
      rw [h0] at hfits
      simpa using (fitsAfter_iff hw 0).mp hfits
    · intro hroom
      exact Nat.le_zero.mp (hmin ((fitsAfter_iff hw 0).mpr (by simpa using hroom)))
  have hbytes := hi.bytes_eq
  rw [trySendWhere, if_neg (by simp [hopen]), if_neg (by omega), hp]
  simp only [pushBack, hzero, Room]
  split_ifs with hfull hroom hroom
  · omega
  · rfl
  · simp [State.pushed, hbytes]
  · omega

/-- The conditions under which an open queue takes the item. -/
def Admits (q : Limits) (s : State T) (w : ℕ) (canEvict : T → Bool) : Prop :=
  0 < q.maxItems ∧ w ≤ q.maxBytes ∧
    match q.policy with
    | .dropOldest => ∀ x ∈ s.items.take (leastEvictions q w s.items), canEvict x.1 = true
    | .dropNewest => leastEvictions q w s.items = 0

open Classical in
/-- Closed, or admitted behind what stays, or full. -/
theorem trySendWhere_eq (hi : Inv q s) (value : T) (w : ℕ) (canEvict : T → Bool) :
    trySendWhere q s value w canEvict =
      if s.receiverOpen = false then (.error (.closed value), s)
      else if Admits q s w canEvict then
        (.ok ((s.items.take (leastEvictions q w s.items)).map Prod.fst),
          s.pushed (leastEvictions q w s.items) value w)
      else (.error (.full value), s) := by
  by_cases hopen : s.receiverOpen = false
  · rw [trySendWhere, if_pos hopen, if_pos hopen]
  have hopen' : s.receiverOpen = true := by simpa using hopen
  rw [if_neg hopen]
  by_cases hlim : 0 < q.maxItems ∧ w ≤ q.maxBytes
  case neg =>
    have hbig : q.maxItems = 0 ∨ w > q.maxBytes := by omega
    rw [trySendWhere, if_neg hopen, if_pos hbig, if_neg fun h => hlim ⟨h.1, h.2.1⟩]
  obtain ⟨hpos, hw⟩ := hlim
  cases hp : q.policy with
  | dropOldest =>
    rw [trySendWhere_dropOldest hi hp hopen' hpos hw]
    simp only [Admits, hp, hpos, hw, true_and]
  | dropNewest =>
    rw [trySendWhere_dropNewest hi hp hopen' hpos hw]
    simp only [Admits, hp, hpos, hw, true_and]
    split_ifs with hzero
    · rw [hzero]
      rfl
    · rfl

/-- The item is taken by an open queue that admits it; else it is handed back, and
the state is as it was. -/
theorem trySendWhere_cases (hi : Inv q s) (value : T) (w : ℕ) (canEvict : T → Bool) :
    ((s.receiverOpen = true ∧ Admits q s w canEvict) ∧ trySendWhere q s value w canEvict =
      (.ok ((s.items.take (leastEvictions q w s.items)).map Prod.fst),
        s.pushed (leastEvictions q w s.items) value w)) ∨
    (¬ (s.receiverOpen = true ∧ Admits q s w canEvict) ∧ trySendWhere q s value w canEvict =
      (.error (if s.receiverOpen then .full value else .closed value), s)) := by
  rw [trySendWhere_eq hi]
  by_cases hopen : s.receiverOpen = false
  · exact Or.inr ⟨by simp [hopen], by simp [hopen]⟩
  have hopen' : s.receiverOpen = true := by simpa using hopen
  rw [if_neg hopen]
  by_cases hadm : Admits q s w canEvict
  · exact Or.inl ⟨⟨hopen', hadm⟩, if_pos hadm⟩
  · refine Or.inr ⟨fun h => hadm h.2, ?_⟩
    rw [if_neg hadm, if_pos hopen']

/-- **Exactly what `try_send_where` does**, from any state that the lock
guards, where `k` is the least number of oldest items in the way. It succeeds
under the conditions given and then evicts those `k`, in order; otherwise it
hands the value back and changes nothing, for the check of the limits after the
drain finds the room that the scan has found. -/
theorem trySendWhere_exact (hi : Inv q s) (value : T) (w : ℕ) (canEvict : T → Bool) :
    let k := leastEvictions q w s.items
    let result := (trySendWhere q s value w canEvict).1
    let s' := (trySendWhere q s value w canEvict).2
    (0 < q.maxItems → w ≤ q.maxBytes → IsLeast { k | FitsAfter q w s.items k } k) ∧
    (q.policy = .dropOldest →
      ((∃ evicted, result = .ok evicted) ↔ s.receiverOpen = true ∧ 0 < q.maxItems ∧ w ≤ q.maxBytes ∧
        ∀ x ∈ s.items.take k, canEvict x.1 = true) ∧
      ∀ evicted, result = .ok evicted →
        evicted = (s.items.take k).map Prod.fst ∧ s' = s.pushed k value w) ∧
    (q.policy = .dropNewest →
      (result = .ok [] ↔ s.receiverOpen = true ∧ 0 < q.maxItems ∧ w ≤ q.maxBytes ∧ k = 0) ∧
      ∀ evicted, result = .ok evicted → evicted = [] ∧ s' = s.pushed 0 value w) ∧
    ((∀ evicted, result ≠ .ok evicted) →
      result = .error (if s.receiverOpen then .full value else .closed value) ∧ s' = s) ∧
    (0 < q.maxItems → w ≤ q.maxBytes → ∀ remainingItems remainingBytes,
      evictScan q w canEvict s.items s.items.length s.bytes = some (remainingItems, remainingBytes) →
      (s.items.drop (s.items.length - remainingItems)).length < q.maxItems ∧
        remainingBytes ≤ q.maxBytes - w) := by
  intro k result s'
  refine ⟨isLeast_leastEvictions s.items, ?_, ?_, ?_, fun hpos hw ri rb hscan => ?_⟩
  · intro hp
    have hadmits : Admits q s w canEvict ↔ 0 < q.maxItems ∧ w ≤ q.maxBytes ∧
        ∀ x ∈ s.items.take k, canEvict x.1 = true := by rw [Admits, hp]
    rw [← hadmits]
    rcases trySendWhere_cases hi value w canEvict with ⟨hadm, he⟩ | ⟨hadm, he⟩
    · simp only [result, s', he]
      exact ⟨⟨fun _ => hadm, fun _ => ⟨_, rfl⟩⟩, fun evicted hok => ⟨(Except.ok.inj hok).symm, rfl⟩⟩
    · simp only [result, s', he]
      exact ⟨⟨fun ⟨_, hok⟩ => (by cases hok), fun h => absurd h hadm⟩, fun _ hok => by cases hok⟩
  · intro hp
    have hadmits : Admits q s w canEvict ↔ 0 < q.maxItems ∧ w ≤ q.maxBytes ∧ k = 0 := by
      rw [Admits, hp]
    rw [← hadmits]
    rcases trySendWhere_cases hi value w canEvict with ⟨hadm, he⟩ | ⟨hadm, he⟩
    · have hk : leastEvictions q w s.items = 0 := (hadmits.mp hadm.2).2.2
      simp only [result, s', he, hk, List.take_zero, List.map_nil]
      exact ⟨⟨fun _ => hadm, fun _ => trivial⟩, fun evicted hok => ⟨(Except.ok.inj hok).symm, trivial⟩⟩
    · simp only [result, s', he]
      exact ⟨⟨fun hok => (by cases hok), fun h => absurd h hadm⟩, fun _ hok => by cases hok⟩
  · intro hnone
    rcases trySendWhere_cases hi value w canEvict with ⟨-, he⟩ | ⟨-, he⟩
    · exact absurd (congrArg Prod.fst he) (hnone _)
    · simp only [result, s', he]
      exact ⟨trivial, trivial⟩
  · rw [hi.bytes_eq] at hscan
    obtain ⟨j, hj, hr, hroom, -, -⟩ := evictScan_spec q w canEvict hpos s.items _ hscan
    obtain ⟨rfl, rfl⟩ := Prod.mk.inj hr
    have hcount : s.items.length - (s.items.drop j).length = j := by
      rw [List.length_drop]
      omega
    rw [hcount]
    exact hroom

end Send

/-- In the queue of the test `oldest_eviction_accounts_bytes_and_preserves_fifo`
an item of weight 4 is in the way of both others. -/
theorem trySendWhere_exact_four :
    let q : Limits := ⟨2, 5, .dropOldest⟩
    let s : State ℕ := ⟨[(1, 2), (2, 3)], 5, 1, true⟩
    (trySendWhere q s 4 4 fun _ => true).1 = .ok [1, 2] ∧
      [1, 2] = (s.items.take (leastEvictions q 4 s.items)).map Prod.fst := by
  intro q s
  have hi : Inv q s := ⟨rfl, le_rfl, le_rfl, fun h => by cases h⟩
  exact ⟨rfl, ((trySendWhere_exact hi 4 4 fun _ => true).2.1 rfl).2 [1, 2] rfl |>.1⟩

end Lossy
end Slinet
