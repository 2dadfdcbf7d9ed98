/-
# A notification with one permit

Tokio's `Notify`: tasks wait on it by enabling a waiter, `notify_one` wakes
the oldest enabled waiter or, when there is none, stores a single permit that
the next waiter to be enabled takes, and `notify_waiters` wakes all enabled
waiters and stores nothing. A waiter woken by `notify_one` that is dropped
before its task resumed passes the wake-up on.

`Has` says that a waiter is enabled, asleep or woken; `Good` that it is not
both. The lemmas say what each operation does to who is asleep, who is woken
and who is there at all.
-/
import Mathlib.Data.List.Basic
import Mathlib.Tactic

namespace Slinet

/-- Which call woke a waiter. -/
inductive Woken
  | one
  | all
  deriving DecidableEq, Repr

/-- `waiters` are the enabled waiters not woken yet, oldest first; `woken`
those woken whose task has not resumed. -/
structure Notify (W : Type*) where
  permit : Bool
  waiters : List W
  woken : W → Option Woken

namespace Notify

variable {W : Type*}

def new : Notify W := ⟨false, [], fun _ => none⟩

/-- Enables the waiter `w`; the flag says that it took the permit and is
complete already. -/
def enable (n : Notify W) (w : W) : Notify W × Bool :=
  if n.permit then ({ n with permit := false }, true)
  else ({ n with waiters := n.waiters ++ [w] }, false)

/-- The waiter `w` is enabled and not complete. -/
def Has (n : Notify W) (w : W) : Prop := w ∈ n.waiters ∨ n.woken w ≠ none

/-- No waiter is enabled twice, and none is asleep and woken. -/
structure Good (n : Notify W) : Prop where
  nodup : n.waiters.Nodup
  asleep : ∀ w ∈ n.waiters, n.woken w = none

theorem good_new : (new : Notify W).Good := ⟨List.nodup_nil, fun _ h => by cases h⟩

theorem not_has_new (w : W) : ¬ (new : Notify W).Has w := by simp [new, Has]

theorem mem_waiters_of_has {n : Notify W} {w : W} (h : n.Has w) (hw : n.woken w = none) :
    w ∈ n.waiters := h.resolve_right (not_not.mpr hw)

/-! ### Enabling -/

theorem enable_of_permit {n : Notify W} (w : W) (h : n.permit = true) :
    n.enable w = ({ n with permit := false }, true) := by simp [enable, h]

theorem enable_of_not {n : Notify W} (w : W) (h : n.permit = false) :
    n.enable w = ({ n with waiters := n.waiters ++ [w] }, false) := by simp [enable, h]

theorem good_push {n : Notify W} (hg : n.Good) {w : W} (hw : ¬ n.Has w) :
    Good { n with waiters := n.waiters ++ [w] } := by
  simp only [Has, not_or, not_not] at hw
  refine ⟨?_, fun v hv => ?_⟩
  · exact List.nodup_append.mpr ⟨hg.nodup, List.nodup_singleton w,
      fun a ha b hb => by rw [List.mem_singleton.mp hb]; exact fun he => hw.1 (he ▸ ha)⟩
  · rcases List.mem_append.mp hv with hv | hv
    · exact hg.asleep v hv
    · rw [List.mem_singleton.mp hv]; exact hw.2

variable [DecidableEq W]

def notifyOne (n : Notify W) : Notify W :=
  match n.waiters with
  | [] => { n with permit := true }
  | w :: ws => { n with waiters := ws, woken := Function.update n.woken w (some .one) }

def notifyWaiters (n : Notify W) : Notify W :=
  { n with waiters := [], woken := fun w => if w ∈ n.waiters then some .all else n.woken w }

/-- The task of the woken waiter `w` resumes. -/
def resume (n : Notify W) (w : W) : Notify W :=
  { n with woken := Function.update n.woken w none }

/-- The waiter `w` is dropped before it completed. -/
def drop (n : Notify W) (w : W) : Notify W :=
  match n.woken w with
  | some .one => (n.resume w).notifyOne
  | some .all => n.resume w
  | none => { n with waiters := n.waiters.erase w }

/-! ### Waking -/

theorem notifyOne_nil {n : Notify W} (h : n.waiters = []) :
    n.notifyOne = { n with permit := true } := by
  unfold notifyOne; rw [h]

theorem notifyOne_cons {n : Notify W} {w : W} {ws : List W} (h : n.waiters = w :: ws) :
    n.notifyOne = { n with waiters := ws, woken := Function.update n.woken w (some .one) } := by
  unfold notifyOne; rw [h]

theorem good_notifyOne {n : Notify W} (hg : n.Good) : n.notifyOne.Good := by
  cases h : n.waiters with
  | nil => rw [notifyOne_nil h]; exact ⟨hg.nodup, hg.asleep⟩
  | cons w ws =>
    rw [notifyOne_cons h]
    have hn := hg.nodup
    rw [h, List.nodup_cons] at hn
    refine ⟨hn.2, fun v hv => ?_⟩
    have hne : v ≠ w := fun he => hn.1 (he ▸ hv)
    simp only [Function.update_of_ne hne]
    exact hg.asleep v (by rw [h]; exact List.mem_cons_of_mem _ hv)

theorem has_notifyOne {n : Notify W} (v : W) : n.notifyOne.Has v ↔ n.Has v := by
  cases h : n.waiters with
  | nil => rw [notifyOne_nil h]; rfl
  | cons w ws =>
    rw [notifyOne_cons h]
    by_cases hv : v = w
    · subst hv; simp [Has, h]
    · simp [Has, h, hv]

/-- Who sleeps after `notify_one` slept before. -/
theorem mem_of_notifyOne {n : Notify W} {v : W} (hv : v ∈ n.notifyOne.waiters) : v ∈ n.waiters := by
  cases h : n.waiters with
  | nil => rw [notifyOne_nil h, h] at hv; exact hv
  | cons w ws => rw [notifyOne_cons h] at hv; exact List.mem_cons_of_mem _ hv

/-- With a waiter asleep, `notify_one` wakes one. -/
theorem exists_woken_notifyOne {n : Notify W} {v : W} (hv : v ∈ n.waiters) :
    ∃ w, n.notifyOne.woken w = some .one := by
  cases h : n.waiters with
  | nil => rw [h] at hv; cases hv
  | cons w ws => exact ⟨w, by rw [notifyOne_cons h]; simp⟩

/-- The woken stay woken. -/
theorem woken_notifyOne {n : Notify W} (hg : n.Good) {v : W} {k : Woken} (hv : n.woken v = some k) :
    n.notifyOne.woken v = some k := by
  cases h : n.waiters with
  | nil => rw [notifyOne_nil h]; exact hv
  | cons w ws =>
    have hne : v ≠ w := fun he => by
      have := hg.asleep w (by rw [h]; exact List.mem_cons_self)
      rw [← he, hv] at this; cases this
    rw [notifyOne_cons h]
    simp only [Function.update_of_ne hne, hv]

theorem good_notifyWaiters (n : Notify W) : n.notifyWaiters.Good :=
  ⟨List.nodup_nil, fun _ h => by cases h⟩

theorem has_notifyWaiters {n : Notify W} (v : W) : n.notifyWaiters.Has v ↔ n.Has v := by
  by_cases hv : v ∈ n.waiters <;> simp [notifyWaiters, Has, hv]

/-! ### Leaving -/

theorem good_resume {n : Notify W} (hg : n.Good) (w : W) : (n.resume w).Good := by
  refine ⟨hg.nodup, fun v hv => ?_⟩
  by_cases he : v = w
  · subst he; simp [resume]
  · simpa [resume, he] using hg.asleep v hv

theorem has_resume {n : Notify W} (hg : n.Good) {w : W} (hw : n.woken w ≠ none) (v : W) :
    (n.resume w).Has v ↔ n.Has v ∧ v ≠ w := by
  by_cases he : v = w
  · subst he
    have : v ∉ n.waiters := fun hm => hw (hg.asleep v hm)
    simp [resume, Has, this]
  · simp [resume, Has, he]

theorem woken_resume {n : Notify W} {v w : W} (hne : v ≠ w) : (n.resume w).woken v = n.woken v := by
  simp [resume, hne]

theorem drop_one {n : Notify W} {w : W} (h : n.woken w = some .one) :
    n.drop w = (n.resume w).notifyOne := by simp [drop, h]

theorem drop_all {n : Notify W} {w : W} (h : n.woken w = some .all) :
    n.drop w = n.resume w := by simp [drop, h]

theorem drop_asleep {n : Notify W} {w : W} (h : n.woken w = none) :
    n.drop w = { n with waiters := n.waiters.erase w } := by simp [drop, h]

theorem good_drop {n : Notify W} (hg : n.Good) (w : W) : (n.drop w).Good := by
  rcases h : n.woken w with _ | (_ | _)
  · rw [drop_asleep h]
    exact ⟨hg.nodup.erase w, fun v hv => hg.asleep v (List.mem_of_mem_erase hv)⟩
  · rw [drop_one h]; exact good_notifyOne (good_resume hg w)
  · rw [drop_all h]; exact good_resume hg w

theorem has_drop {n : Notify W} (hg : n.Good) (v w : W) : (n.drop w).Has v ↔ n.Has v ∧ v ≠ w := by
  rcases h : n.woken w with _ | (_ | _)
  · rw [drop_asleep h]
    by_cases he : v = w
    · subst he; simp [Has, h, hg.nodup.mem_erase_iff]
    · simp [Has, he, List.mem_erase_of_ne]
  · rw [drop_one h, has_notifyOne, has_resume hg (by simp [h])]
  · rw [drop_all h, has_resume hg (by simp [h])]

/-- Who sleeps after a drop slept before. -/
theorem mem_of_drop {n : Notify W} {v w : W} (hv : v ∈ (n.drop w).waiters) : v ∈ n.waiters := by
  rcases h : n.woken w with _ | (_ | _)
  · rw [drop_asleep h] at hv; exact List.mem_of_mem_erase hv
  · rw [drop_one h] at hv; exact mem_of_notifyOne (n := n.resume w) hv
  · rw [drop_all h] at hv; exact hv

/-- **A wake-up is not lost.** If some waiter had been woken by `notify_one`
and `v` still sleeps after a drop, some waiter is woken after it. -/
theorem exists_woken_drop {n : Notify W} {u v w : W} (hu : n.woken u = some .one)
    (hv : v ∈ (n.drop w).waiters) : ∃ x, (n.drop w).woken x = some .one := by
  rcases h : n.woken w with _ | (_ | _)
  · exact ⟨u, by rw [drop_asleep h]; exact hu⟩
  · rw [drop_one h] at hv ⊢
    exact exists_woken_notifyOne (mem_of_notifyOne hv)
  · have hne : u ≠ w := fun he => by rw [he, h] at hu; cases hu
    exact ⟨u, by rw [drop_all h, woken_resume hne]; exact hu⟩

end Notify
end Slinet
