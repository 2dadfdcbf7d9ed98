/-
# Going through a table

`HashMap::retain` with a function that may also change the values, on Mathlib's
association lists: every value is changed or dropped, and looking a key up
afterwards is looking it up before and asking the function (`lookup_retain`).
-/
import Mathlib.Data.List.AList

namespace AList

universe u v

variable {α : Type u} {β : α → Type v}

theorem keys_filterMap_sublist (f : ∀ a, β a → Option (β a)) (l : List (Sigma β)) :
    (l.filterMap fun e => (f e.1 e.2).map (Sigma.mk e.1)).keys.Sublist l.keys := by
  induction l with
  | nil => exact List.Sublist.refl _
  | cons e l ih =>
    cases he : f e.1 e.2 with
    | none =>
      rw [List.filterMap_cons_none (by simp [he])]
      exact ih.cons e.1
    | some b =>
      rw [List.filterMap_cons_some (b := ⟨e.1, b⟩) (by simp [he])]
      exact ih.cons_cons e.1

/-- Every value becomes what `f` says, or goes. -/
def retain (f : ∀ a, β a → Option (β a)) (s : AList β) : AList β where
  entries := s.entries.filterMap fun e => (f e.1 e.2).map (Sigma.mk e.1)
  nodupKeys := by exact (keys_filterMap_sublist f s.entries).nodup s.nodupKeys

theorem keys_retain (f : ∀ a, β a → Option (β a)) (s : AList β) :
    (s.retain f).keys.Sublist s.keys :=
  keys_filterMap_sublist f s.entries

variable [DecidableEq α]

theorem lookup_retain (f : ∀ a, β a → Option (β a)) (s : AList β) (a : α) :
    (s.retain f).lookup a = (s.lookup a).bind (f a) := by
  obtain ⟨l, hl⟩ := s
  show (l.filterMap fun e => (f e.1 e.2).map (Sigma.mk e.1)).dlookup a = (l.dlookup a).bind (f a)
  induction l with
  | nil => rfl
  | cons e l ih =>
    obtain ⟨hnotMem, hl'⟩ := List.nodupKeys_cons.mp hl
    have hih := ih hl'
    by_cases ha : a = e.1
    · subst ha
      rw [List.dlookup_cons_eq, Option.bind_some]
      cases he : f e.1 e.2 with
      | none =>
        have hnone : l.dlookup e.1 = none := List.dlookup_eq_none.mpr hnotMem
        rw [List.filterMap_cons_none (by simp [he]), hih, hnone]
        rfl
      | some b =>
        rw [List.filterMap_cons_some (b := ⟨e.1, b⟩) (by simp [he]), List.dlookup_cons_eq]
    · rw [List.dlookup_cons_ne l ⟨e.1, e.2⟩ ha, ← hih]
      cases he : f e.1 e.2 with
      | none => rw [List.filterMap_cons_none (by simp [he])]
      | some b =>
        rw [List.filterMap_cons_some (b := ⟨e.1, b⟩) (by simp [he])]
        exact List.dlookup_cons_ne _ ⟨e.1, b⟩ ha

/-- A table does not grow by the insertion of a key that it has. -/
theorem length_keys_insert {a : α} {s : AList β} (h : a ∈ s) (b : β a) :
    (s.insert a b).keys.length = s.keys.length := by
  rw [keys_insert, List.length_cons, List.length_erase_of_mem (mem_keys.mp h)]
  have hpos : 0 < s.keys.length := List.length_pos_of_mem (mem_keys.mp h)
  omega

theorem length_keys_insert_of_notMem {a : α} {s : AList β} (h : a ∉ s) (b : β a) :
    (s.insert a b).keys.length = s.keys.length + 1 := by
  rw [keys_insert, List.length_cons, List.erase_of_not_mem fun hk => h (mem_keys.mpr hk)]

end AList
