/-
# Runs of a step function

A machine is a state, a set of actions and a total step function. An action
that is not enabled leaves the state as it is, so a run is any list of
actions, and the order of the list is the interleaving. What holds at the
start and survives a step holds after every run (`run_inv`); where a step
keeps it only under a condition on the state before it, it holds after every
run whose steps all meet the condition (`run_inv_of_meets`), and a measure that
only the other steps raise tells these runs (`meets_of_measure`).

A machine may also answer each action. Two machines whose states are related
answer every run alike, if a step gives one answer on both sides and keeps them
related (`replies_eq_of_related`).
-/
import Mathlib.Data.List.Basic

namespace Slinet

variable {S S' A O : Type*}

/-- The state after the actions `as`, taken in order. -/
def run (step : S → A → S) (s : S) (as : List A) : S := as.foldl step s

@[simp] theorem run_nil (step : S → A → S) (s : S) : run step s [] = s := rfl

@[simp] theorem run_cons (step : S → A → S) (s : S) (a : A) (as : List A) :
    run step s (a :: as) = run step (step s a) as := rfl

theorem run_append (step : S → A → S) (s : S) (as bs : List A) :
    run step s (as ++ bs) = run step (run step s as) bs := by
  simp [run, List.foldl_append]

/-- What every step keeps, every run keeps. -/
theorem run_inv {step : S → A → S} {I : S → Prop} (hstep : ∀ s a, I s → I (step s a)) :
    ∀ (as : List A) {s : S}, I s → I (run step s as)
  | [], _, h => h
  | a :: as, s, h => run_inv hstep as (hstep s a h)

/-- Every step of the run meets `C` in the state it starts from. -/
def Meets (step : S → A → S) (C : S → A → Prop) : S → List A → Prop
  | _, [] => True
  | s, a :: as => C s a ∧ Meets step C (step s a) as

/-- What every step that meets `C` keeps, every run of such steps keeps. -/
theorem run_inv_of_meets {step : S → A → S} {C : S → A → Prop} {I : S → Prop}
    (hstep : ∀ s a, C s a → I s → I (step s a)) :
    ∀ (as : List A) {s : S}, Meets step C s as → I s → I (run step s as)
  | [], _, _, h => h
  | a :: as, s, hm, h => run_inv_of_meets hstep as hm.2 (hstep s a hm.1 h)

/-- A run all of whose steps meet a decidable condition. -/
instance decidableMeets {step : S → A → S} {C : S → A → Prop} [∀ s a, Decidable (C s a)] :
    ∀ (s : S) (as : List A), Decidable (Meets step C s as)
  | _, [] => .isTrue trivial
  | s, a :: as =>
    have : Decidable (Meets step C (step s a) as) := decidableMeets (step s a) as
    inferInstanceAs (Decidable (C s a ∧ Meets step C (step s a) as))

/-- **The converse, by a measure.** Where no step lowers the measure and every
step that does not meet `C` raises it, a run that has not raised it meets `C`. -/
theorem meets_of_measure {step : S → A → S} {C : S → A → Prop} {I : S → Prop} (μ : S → ℕ)
    (hstep : ∀ s a, I s → I (step s a)) (hle : ∀ s a, I s → μ s ≤ μ (step s a))
    (hlt : ∀ s a, I s → ¬ C s a → μ s < μ (step s a)) :
    ∀ (as : List A) {s : S}, I s → μ (run step s as) ≤ μ s → Meets step C s as
  | [], _, _, _ => trivial
  | a :: as, s, h, hμ => by
    have hnext := hstep s a h
    have hrest : μ (step s a) ≤ μ (run step (step s a) as) :=
      run_inv (I := fun s' => I s' ∧ μ (step s a) ≤ μ s')
        (fun s' b h' => ⟨hstep s' b h'.1, Nat.le_trans h'.2 (hle s' b h'.1)⟩) as
        ⟨hnext, Nat.le_refl _⟩ |>.2
    have hall : μ (run step (step s a) as) ≤ μ s := hμ
    refine ⟨by_contra fun hc => ?_, meets_of_measure μ hstep hle hlt as hnext ?_⟩
    · have hraised := hlt s a h hc
      omega
    · have hfirst := hle s a h
      omega

/-- A condition on the actions alone. -/
theorem meets_of_forall {step : S → A → S} {C : A → Prop} :
    ∀ (as : List A) (s : S), (∀ a ∈ as, C a) → Meets step (fun _ a => C a) s as
  | [], _, _ => trivial
  | a :: as, s, h =>
    ⟨h a List.mem_cons_self, meets_of_forall as (step s a) fun b hb => h b (List.mem_cons_of_mem a hb)⟩

/-- The answers to the actions `as`, taken in order. -/
def replies (step : S → A → O × S) : S → List A → List O
  | _, [] => []
  | s, a :: as => (step s a).1 :: replies step (step s a).2 as

/-- **Two machines that answer alike.** What relates them before a run relates
them after it, and nobody who sees only the answers can tell them apart. -/
theorem replies_eq_of_related {step : S → A → O × S} {step' : S' → A → O × S'} {R : S → S' → Prop}
    (hstep : ∀ s s' a, R s s' → (step s a).1 = (step' s' a).1 ∧ R (step s a).2 (step' s' a).2) :
    ∀ (as : List A) {s : S} {s' : S'}, R s s' →
      replies step s as = replies step' s' as ∧
        R (run (fun s a => (step s a).2) s as) (run (fun s a => (step' s a).2) s' as)
  | [], _, _, h => ⟨rfl, h⟩
  | a :: as, s, s', h => by
    obtain ⟨hreply, hnext⟩ := hstep s s' a h
    obtain ⟨hreplies, hlast⟩ := replies_eq_of_related hstep as hnext
    refine ⟨?_, hlast⟩
    rw [replies, replies, hreply, hreplies]

end Slinet
