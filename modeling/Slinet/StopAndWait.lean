/-
# Stop and wait

A party works through a script: it sends the current message, any number of
times, until it has the reply to it, and goes on to the next. The other party
accepts some of what arrives, late or repeated, and replies to what it accepts.
`InStep` is what this keeps, whatever is lost: the messages before the current
one were accepted in the order of the script, and nothing was accepted from
beyond it.
-/
import Mathlib.Data.List.Nodup

namespace StopAndWait

variable {M R : Type*}

/-- The messages sent and accepted, the replies given, and the place `p` in the
script. -/
structure InStep (script : List M) (reply : M → R) (sent accepted : List M) (replies : List R) (p : ℕ) :
    Prop where
  asked : ∀ m ∈ sent, ∃ j ≤ p, script[j]? = some m ∧ (script.take j).Sublist accepted
  known : ∀ m ∈ accepted, m ∈ sent
  answered : ∀ r ∈ replies, ∃ j m, script[j]? = some m ∧ r = reply m ∧
    (script.take (j + 1)).Sublist accepted
  done : (script.take p).Sublist accepted

variable {script : List M} {reply : M → R} {sent accepted : List M} {replies : List R} {p : ℕ}

theorem inStep_nil (script : List M) (reply : M → R) : InStep script reply [] [] [] 0 :=
  ⟨fun _ h => (by cases h), fun _ h => (by cases h), fun _ h => (by cases h), List.nil_sublist _⟩

/-- The current message is sent, once more or not at all. -/
theorem InStep.send (h : InStep script reply sent accepted replies p) {more : List M}
    (hmore : ∀ m ∈ more, script[p]? = some m) :
    InStep script reply (sent ++ more) accepted replies p := by
  refine ⟨fun m hm => ?_, fun m hm => List.mem_append_left _ (h.known m hm), h.answered, h.done⟩
  rcases List.mem_append.mp hm with hm | hm
  · exact h.asked m hm
  · exact ⟨p, Nat.le_refl p, hmore m hm, h.done⟩

/-- A message that was sent is accepted, perhaps again, and replied to. -/
theorem InStep.accept (h : InStep script reply sent accepted replies p) {m : M} (hm : m ∈ sent) :
    InStep script reply sent (accepted ++ [m]) (replies ++ [reply m]) p := by
  have hlater : ∀ {l : List M}, l.Sublist accepted → l.Sublist (accepted ++ [m]) :=
    fun hl => hl.trans (List.sublist_append_left _ _)
  obtain ⟨j, -, hj, hbefore⟩ := h.asked m hm
  refine ⟨fun m' hm' => ?_, fun m' hm' => ?_, fun r hr => ?_, hlater h.done⟩
  · obtain ⟨j', hj'p, hj', hsub⟩ := h.asked m' hm'
    exact ⟨j', hj'p, hj', hlater hsub⟩
  · rcases List.mem_append.mp hm' with hm' | hm'
    · exact h.known m' hm'
    · rw [List.mem_singleton.mp hm']
      exact hm
  · rcases List.mem_append.mp hr with hr | hr
    · obtain ⟨j', m', hj', hr', hsub⟩ := h.answered r hr
      exact ⟨j', m', hj', hr', hlater hsub⟩
    · refine ⟨j, m, hj, List.mem_singleton.mp hr, ?_⟩
      rw [List.take_add_one, hj]
      exact hbefore.append (List.Sublist.refl _)

/-- The reply to the current message arrives. -/
theorem InStep.advance (h : InStep script reply sent accepted replies p) (hinj : (script.map reply).Nodup)
    {m : M} (hm : script[p]? = some m) (hr : reply m ∈ replies) :
    InStep script reply sent accepted replies (p + 1) := by
  refine ⟨fun m' hm' => ?_, h.known, h.answered, ?_⟩
  · obtain ⟨j, hj, hrest⟩ := h.asked m' hm'
    exact ⟨j, Nat.le_succ_of_le hj, hrest⟩
  · obtain ⟨j, m', hj, he, hsub⟩ := h.answered _ hr
    -- the reply is to the current message and no other
    have hp : (script.map reply)[p]? = some (reply m) := by rw [List.getElem?_map, hm, Option.map_some]
    have hj' : (script.map reply)[j]? = some (reply m) := by
      rw [List.getElem?_map, hj, Option.map_some, he]
    have hlt : p < (script.map reply).length := (List.getElem?_eq_some_iff.mp hp).1
    obtain rfl : p = j := (List.getElem?_inj hlt hinj).mp (hp.trans hj'.symm)
    exact hsub

/-- Nothing was accepted from beyond the current message. -/
theorem InStep.ahead (h : InStep script reply sent accepted replies p) {m : M} (hm : m ∈ accepted) :
    m ∈ script.take (p + 1) := by
  obtain ⟨j, hj, hget, -⟩ := h.asked m (h.known m hm)
  have htake : (script.take (p + 1))[j]? = some m := by
    rw [List.getElem?_take_of_lt (by omega)]
    exact hget
  exact List.mem_of_getElem? htake

end StopAndWait
