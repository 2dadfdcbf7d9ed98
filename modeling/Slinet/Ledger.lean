/-
# Ledgers

A ledger says where every one of some things is: the list of all of them is a
permutation of the lists of the places, joined. A step moves a thing from one
place to another, which keeps the permutation (`perm_of_count`). One kind of
place is a list of workers, each of which holds some things; taking out the
worker `k` leaves the things of the others (`flatMap_perm_eraseIdx`). Where the
workers are counted rather than listed, `countP_modify` says what the change of
one of them does to the count.
-/
import Mathlib.Data.List.Perm.Basic
import Mathlib.Tactic

namespace Slinet

variable {A B : Type*}

/-- Two lists in which everything occurs equally often, whichever way equality
is decided. -/
theorem perm_of_count {l l' : List A}
    (h : ∀ [DecidableEq A] (a : A), l.count a = l'.count a) : l.Perm l' := by
  classical
  exact List.perm_iff_count.mpr fun a => h a

/-- A list in which nothing occurs more often than in the other. -/
theorem subperm_of_count {l l' : List A}
    (h : ∀ [DecidableEq A] (a : A), l.count a ≤ l'.count a) : l.Subperm l' := by
  classical
  exact List.subperm_ext_iff.mpr fun a _ => h a

theorem flatMap_perm_eraseIdx (f : A → List B) {l : List A} {k : ℕ} {a : A} (h : l[k]? = some a) :
    (l.flatMap f).Perm (f a ++ (l.eraseIdx k).flatMap f) := by
  obtain ⟨hk, rfl⟩ := List.getElem?_eq_some_iff.mp h
  have hperm := (List.getElem_cons_eraseIdx_perm hk).symm.flatMap_right f
  simpa using hperm

theorem length_eraseIdx_of_getElem? {l : List A} {k : ℕ} {a : A} (h : l[k]? = some a) :
    (l.eraseIdx k).length + 1 = l.length := by
  obtain ⟨hk, -⟩ := List.getElem?_eq_some_iff.mp h
  rw [List.length_eraseIdx_of_lt hk]
  omega

theorem count_eraseIdx_of_getElem? [DecidableEq A] {l : List A} {k : ℕ} {a : A} (h : l[k]? = some a)
    (x : A) : l.count x = (l.eraseIdx k).count x + [a].count x := by
  have hp := (flatMap_perm_eraseIdx (fun y => [y]) h).count_eq x
  simp only [List.flatMap_singleton', List.count_append] at hp
  omega

/-- The list around its entry `k`, without it, and with another in its place. -/
theorem exists_split_of_getElem? {l : List A} {k : ℕ} {a : A} (h : l[k]? = some a) :
    ∃ l₁ l₂, l = l₁ ++ a :: l₂ ∧ l.eraseIdx k = l₁ ++ l₂ ∧ ∀ b, l.set k b = l₁ ++ b :: l₂ := by
  obtain ⟨hk, rfl⟩ := List.getElem?_eq_some_iff.mp h
  refine ⟨l.take k, l.drop (k + 1), ?_, List.eraseIdx_eq_take_drop_succ _ _, fun b => ?_⟩
  · rw [← List.drop_eq_getElem_cons hk, List.take_append_drop]
  · rw [List.set_eq_take_append_cons_drop, if_pos hk]

theorem getElem?_concat_cases {l : List A} {a b : A} {i : ℕ} (h : (l ++ [a])[i]? = some b) :
    l[i]? = some b ∨ i = l.length ∧ b = a := by
  rcases Nat.lt_or_ge i l.length with hlt | hge
  · rw [List.getElem?_append_left hlt] at h
    exact Or.inl h
  · rw [List.getElem?_append_right hge, List.getElem?_singleton] at h
    split at h
    · exact Or.inr ⟨by omega, (Option.some.inj h).symm⟩
    · cases h

/-- One worker changes, and is counted by what it was and what it is. -/
theorem countP_modify (p : A → Bool) (f : A → A) :
    ∀ (l : List A) (i : ℕ) {a : A}, l[i]? = some a →
      (l.modify i f).countP p + (if p a then 1 else 0) = l.countP p + if p (f a) then 1 else 0
  | [], _, _, h => by simp at h
  | b :: l, 0, a, h => by
    have hb : b = a := by simpa using h
    subst hb
    simp only [List.modify_zero_cons, List.countP_cons]
    omega
  | b :: l, i + 1, a, h => by
    have ih := countP_modify p f l i (by simpa using h)
    simp only [List.modify_succ_cons, List.countP_cons]
    omega

theorem countP_mapIdx (p : A → Bool) :
    ∀ (l : List A) (f : ℕ → A → A), (∀ i a, p (f i a) = p a) → (l.mapIdx f).countP p = l.countP p
  | [], _, _ => by simp
  | a :: l, f, h => by
    simp [List.mapIdx_cons, List.countP_cons, h 0 a,
      countP_mapIdx p l (fun i => f (i + 1)) fun i b => h (i + 1) b]

/-- The workers that are counted, by their places. -/
theorem countP_eq_length_filter_range (p : A → Bool) (l : List A) :
    l.countP p = ((List.range l.length).filter fun i => (l[i]?).any p).length := by
  induction l using List.reverseRecOn with
  | nil => rfl
  | append_singleton l a ih =>
    have hl : (List.range l.length).filter (fun i => ((l ++ [a])[i]?).any p) =
        (List.range l.length).filter fun i => (l[i]?).any p := by
      refine List.filter_congr fun i hi => ?_
      rw [List.getElem?_append_left (List.mem_range.mp hi)]
    rw [List.countP_append, ih, List.length_append, List.length_singleton, List.range_succ,
      List.filter_append, hl, List.length_append]
    cases hp : p a <;> simp [hp]

end Slinet
