/-
# The writer's error wins

What is known of the cause of a disconnection, from the loop of the reader to
the event of the ECS (`cause_step`). The last `try_recv` is where it is decided
(`cause_left`): a published failure is taken there, and a token that the writer
was first to cancel means that there is one. The result over all runs of the
two tasks is `writer_error_wins`.
-/
import Slinet.Link

namespace Slinet
namespace Link

variable {P R D L : Type*}

/-- A step in the loop, or out of it. -/
theorem Cause.loop {s s' : Link P R D L} (h : Cause s) (he : s.reader.Early)
    (he' : s'.reader.Early) (hheard : s'.heard = s.heard) (hmsg : s'.message = s.message)
    (hev : s'.event = s.event)
    (htaken : s'.conn.sendError = .taken →
      ∃ e, s'.conn.failure = some e ∧ s'.reader = .left (.io e))
    (hleft : s'.reader = .left .intentionalDisconnection →
      s'.conn.token = true ∨ s'.worldOpen = false ∨ .error .intentionalDisconnection ∈ s'.reads) :
    Cause s' := by
  have hearly := h.early he
  rw [← hheard, ← hmsg, ← hev] at hearly
  have ho : s'.reader.outcome = none := by
    cases hr : s'.reader <;> rw [hr] at he' <;> first | rfl | exact he'.elim
  have hnot : ∀ error, ¬ s'.Carries error := fun error => by
    simp [Carries, ho, hearly.2.1, hearly.2.2]
  exact ⟨fun _ => hearly, fun ht => Or.inl (htaken ht), hleft,
    fun _ error _ hc => absurd hc (hnot error), fun hc => absurd hc (hnot _)⟩

/-- A step after the last `try_recv`: the cause is handed on. -/
theorem Cause.carry {s s' : Link P R D L} (h : Cause s) (he : ¬ s'.reader.Early)
    (hheard : s'.heard = s.heard) (hsome : s.conn.sendError = .taken → s.heard ≠ none)
    (htaken : s'.conn.sendError = .taken → s.conn.sendError = .taken)
    (hc : ∀ error, s'.Carries error → s.Carries error) (hex : s.Excused → s'.Excused)
    (hev : s'.event = some .intentionalDisconnection → s.event = some .intentionalDisconnection ∨
      s.worldOpen = true) (hw : s.worldOpen = false → s'.worldOpen = false) : Cause s' := by
  refine ⟨fun ha => absurd ha he, fun ht => Or.inr ?_, ?_, ?_, ?_⟩
  · rw [hheard]
    exact hsome (htaken ht)
  · intro hr
    rw [hr] at he
    exact absurd trivial he
  · intro e error hh hcar
    rw [hheard] at hh
    exact h.heard e error hh (hc error hcar)
  · intro hcar
    rcases h.carried (hc _ hcar) with hx | ⟨hwo, hne⟩
    · exact Or.inl (hex hx)
    · refine Or.inr ⟨hw hwo, fun hv => ?_⟩
      rcases hev hv with hv | ht
      · exact hne hv
      · rw [hwo] at ht
        cases ht

/-- Once the reader is past its loop, the value was taken before the last
`try_recv` or by it. -/
theorem Cause.taken_late {s : Link P R D L} (h : Cause s) (hl : ∀ error, s.reader ≠ .left error)
    (ht : s.conn.sendError = .taken) : s.heard ≠ none := by
  rcases h.taken ht with ⟨e, -, hr⟩ | hh
  · exact absurd hr (hl _)
  · exact hh

theorem excused_note {s s' : Link P R D L} {who : Canceller} (h : Good s)
    (hfc : s'.firstCancel = s.firstCancel) (hreads : s'.reads = s.reads) (hx : s.Excused) :
    (note who s s').Excused := by
  unfold note
  split
  · rename_i hflip
    rcases hx with ⟨w, hw, hf⟩ | hx
    · have ht : s.conn.token = true := h.first.mpr (by simp [hf])
      rw [hflip.1] at ht
      cases ht
    · exact Or.inr (by simpa [hreads] using hx)
  · rcases hx with ⟨w, hw, hf⟩ | hx
    · exact Or.inl ⟨w, hw, hfc.trans hf⟩
    · exact Or.inr (by simpa [hreads] using hx)

/-- Nothing but the first canceller is noted. -/
theorem note_fields (who : Canceller) (s s' : Link P R D L) :
    (note who s s').conn = s'.conn ∧ (note who s s').reader = s'.reader ∧
    (note who s s').heard = s'.heard ∧ (note who s s').message = s'.message ∧
    (note who s s').event = s'.event ∧ (note who s s').reads = s'.reads ∧
    (note who s s').worldOpen = s'.worldOpen := by
  unfold note
  split <;> exact ⟨rfl, rfl, rfl, rfl, rfl, rfl, rfl⟩

theorem cause_conn {s : Link P R D L} (h : Good s) (hk : Cause s) (a : Conn.Act P) :
    Cause (note (canceller a) s { s with conn := s.conn.step a }) := by
  obtain ⟨hconn, hreader, hheard, hmsg, hev, hreads, hw⟩ :=
    note_fields (canceller a) s { s with conn := s.conn.step a }
  have hex : s.Excused → (note (canceller a) s { s with conn := s.conn.step a }).Excused :=
    excused_note h rfl rfl
  have hmono : ((s.conn.step a).sendError = .taken → s.conn.sendError = .taken) ∧
      (s.conn.token = true → (s.conn.step a).token = true) ∧
      ∀ e, s.conn.failure = some e → (s.conn.step a).failure = some e := by
    by_cases hd : a = .dropSender
    · subst hd
      simp only [Conn.step, Conn.dropSender]
      split <;> exact ⟨id, id, fun _ => id⟩
    · have hfr := Conn.frame_step s.conn a hd
      exact ⟨hfr.taken.mp, hfr.token, fun e he => hfr.failure he⟩
  refine ⟨?_, ?_, ?_, ?_, ?_⟩
  · rw [hreader, hheard, hmsg, hev]
    exact hk.early
  · rw [hconn, hreader, hheard]
    intro ht
    rcases hk.taken (hmono.1 ht) with ⟨e, hf, hr⟩ | hh
    · exact Or.inl ⟨e, hmono.2.2 e hf, hr⟩
    · exact Or.inr hh
  · rw [hconn, hreader, hw, hreads]
    exact fun hr => (hk.left hr).imp hmono.2.1 id
  · simp only [Carries, hreader, hheard, hmsg, hev]
    exact hk.heard
  · simp only [Carries, hreader, hmsg, hev, hw]
    exact fun hc => (hk.carried hc).imp hex id

theorem cause_polling {s : Link P R D L} (h : Good s) (hk : Cause s) {off : Bool}
    (hr : s.reader = .polling off) : Cause s.advance := by
  have he : s.reader.Early := by rw [hr]; trivial
  have hnt := hk.not_taken (by rw [hr]; trivial)
  have hsane := (good_polling h hk hr).sane
  simp only [advance, hr] at hsane ⊢
  split
  · exact hk.loop he trivial rfl rfl rfl (fun ht => absurd ht hnt) (by simp)
  · rename_i hoff
    split
    · rename_i hc
      rw [if_neg hoff, if_pos hc] at hsane
      exact absurd rfl hsane
    · split
      · exact hk.loop he trivial rfl rfl rfl (fun ht => absurd ht hnt) (by simp)
      · rename_i e hsent
        exact hk.loop he trivial rfl rfl rfl (fun _ => ⟨e, h.reports.sent e hsent, rfl⟩) (by simp)
      · exact hk.loop he trivial rfl rfl rfl (fun ht => absurd ht hnt) (by simp)

/-- **The last `try_recv`.** A published failure is the cause; and a writer
that cancelled first has published one. -/
theorem cause_left {s : Link P R D L} (h : Good s) (hk : Cause s) {error : ReceiveError D L}
    (hr : s.reader = .left error) : Cause s.advance := by
  obtain ⟨hheard, hmsg, hev⟩ := hk.early (by rw [hr]; trivial)
  simp only [advance, hr]
  split
  · rename_i e hsent
    have hf := h.reports.sent e hsent
    refine ⟨fun ha => ha.elim, fun _ => Or.inr (by simp), fun hl => by simp at hl, ?_, ?_⟩
    · intro e' err hh hc
      have hee : e = e' := by simpa [hf] using hh
      simp only [Carries, Reader.outcome, hmsg, hev, Option.some.injEq, reduceCtorEq, or_false] at hc
      rw [← hc, hee]
    · intro hc
      simp [Carries, Reader.outcome, hmsg, hev] at hc
  · rename_i hns
    -- a failure that is not there any more is the one the loop was left with
    have hio : ∀ e, s.conn.failure = some e → error = .io e := by
      intro e hf
      cases he : s.conn.sendError with
      | waiting => simp [h.reports.unsaid (Or.inl he)] at hf
      | dropped => simp [h.reports.unsaid (Or.inr he)] at hf
      | sent e' => exact absurd he (hns e')
      | taken =>
        rcases hk.taken he with ⟨e', hf', hr'⟩ | hh
        · rw [hf'] at hf
          rw [hr] at hr'
          simp only [Reader.left.injEq] at hr'
          rw [hr', Option.some.inj hf]
        · exact absurd hheard hh
    refine ⟨fun ha => ha.elim, fun _ => Or.inr (by simp), fun hl => by simp at hl, ?_, ?_⟩
    · intro e err hh hc
      simp only [Carries, Reader.outcome, hmsg, hev, Option.some.injEq, reduceCtorEq, or_false] at hc
      rw [← hc]
      exact hio e (by simpa using hh)
    · intro hc
      simp only [Carries, Reader.outcome, hmsg, hev, Option.some.injEq, reduceCtorEq, or_false] at hc
      subst hc
      rcases hk.left hr with ht | hw | hx
      · obtain ⟨who, hwho⟩ := Option.ne_none_iff_exists'.mp (h.first.mp ht)
        refine Or.inl (Or.inl ⟨who, ?_, hwho⟩)
        rintro rfl
        obtain ⟨e, hf⟩ := h.writer hwho
        simpa using hio e hf
      · exact Or.inr ⟨hw, by simp [hev]⟩
      · exact Or.inl (Or.inr hx)

theorem cause_advance {s : Link P R D L} (h : Good s) (hk : Cause s) :
    Cause (note .reader s s.advance) := by
  cases hr : s.reader with
  | closing error =>
    obtain ⟨hconn, hreader, hheard, hmsg, hev, -, hw⟩ := note_fields .reader s s.advance
    have hex : s.Excused → (note .reader s s.advance).Excused :=
      excused_note h (by simp [advance, hr]) (by simp [advance, hr])
    refine hk.carry ?_ ?_ (hk.taken_late (by simp [hr])) ?_ ?_ hex ?_ ?_
    · rw [hreader]
      simp [advance, hr, Reader.Early, Reader.Looping]
    · rw [hheard]
      simp [advance, hr]
    · rw [hconn]
      simp [advance, hr]
    · intro err hc
      simp only [Carries, hreader, hmsg, hev] at hc ⊢
      simpa [advance, hr, Reader.outcome] using hc
    · rw [hev]
      simp only [advance, hr]
      exact Or.inl
    · rw [hw]
      simp [advance, hr]
  | polling off =>
    rw [note_of_token _ (token_advance (by simp [hr]))]
    exact cause_polling h hk hr
  | watching off =>
    rw [note_of_token _ (token_advance (by simp [hr]))]
    have he : s.reader.Early := by rw [hr]; trivial
    have hnt := hk.not_taken (by rw [hr]; trivial)
    simp only [advance, hr]
    split
    · rename_i htok
      exact hk.loop he trivial rfl rfl rfl (fun ht => absurd ht hnt) (fun _ => Or.inl htok)
    · exact hk.loop he trivial rfl rfl rfl (fun ht => absurd ht hnt) (by simp)
  | forwarding packet =>
    rw [note_of_token _ (token_advance (by simp [hr]))]
    have he : s.reader.Early := by rw [hr]; trivial
    have hnt := hk.not_taken (by rw [hr]; trivial)
    simp only [advance, hr]
    split
    · rename_i htok
      exact hk.loop he trivial rfl rfl rfl (fun ht => absurd ht hnt) (fun _ => Or.inl htok.2)
    · exact hk.loop he trivial rfl rfl rfl (fun ht => absurd ht hnt) (by simp)
  | left error =>
    rw [note_of_token _ (token_advance (by simp [hr]))]
    exact cause_left h hk hr
  | closed error =>
    rw [note_of_token _ (token_advance (by simp [hr]))]
    simp only [advance, hr]
    refine hk.carry (fun ha => ha) rfl (hk.taken_late (by simp [hr])) id ?_ id Or.inl id
    intro err hc
    simpa [Carries, hr, Reader.outcome] using hc
  | _ =>
    rw [note_of_token _ (token_advance (by simp [hr]))]
    simp only [advance, hr]
    exact hk

theorem cause_poll {s : Link P R D L} (hk : Cause s) : Cause s.poll := by
  unfold poll
  split
  · rename_i hr
    have hnt := hk.not_taken (by rw [hr]; trivial)
    exact hk.loop (by rw [hr]; trivial) trivial rfl rfl rfl (fun ht => absurd ht hnt) (by simp)
  · rename_i off hr
    have hnt := hk.not_taken (by rw [hr]; trivial)
    exact hk.loop (by rw [hr]; trivial) trivial rfl rfl rfl (fun ht => absurd ht hnt) (by simp)
  · exact hk

theorem cause_read {s : Link P R D L} (hk : Cause s)
    (result : Option (Except (ReceiveError D L) R)) : Cause (s.read result) := by
  unfold read
  split
  · rename_i off hr
    have he : s.reader.Early := by rw [hr]; trivial
    have hnt := hk.not_taken (by rw [hr]; trivial)
    split
    · exact hk.loop he trivial rfl rfl rfl (fun ht => absurd ht hnt) (by simp)
    · exact hk.loop he trivial rfl rfl rfl (fun ht => absurd ht hnt) (by simp)
    · refine hk.loop he trivial rfl rfl rfl (fun ht => absurd ht hnt) (fun hl => ?_)
      simp only [Reader.left.injEq] at hl
      exact Or.inr (Or.inr (by simp [hl]))
  · exact hk

theorem cause_offer {s : Link P R D L} (hk : Cause s) (o : Offer) : Cause (s.offer o) := by
  unfold offer
  split
  · rename_i packet hr
    have he : s.reader.Early := by rw [hr]; trivial
    have hnt := hk.not_taken (by rw [hr]; trivial)
    split
    · exact hk.loop he trivial rfl rfl rfl (fun ht => absurd ht hnt) (by simp)
    · split
      · exact hk
      · exact hk.loop he trivial rfl rfl rfl (fun ht => absurd ht hnt) (by simp)
    · split
      · exact hk
      · rename_i hw
        exact hk.loop he trivial rfl rfl rfl (fun ht => absurd ht hnt)
          (fun _ => Or.inr (Or.inl (by simpa using hw)))
  · exact hk

/-- The reader ends: what was still with it goes nowhere. -/
theorem cause_finish {s : Link P R D L} (hk : Cause s) (hl : ∀ error, s.reader ≠ .left error) :
    Cause s.finish := by
  refine hk.carry (fun ha => ha) rfl (hk.taken_late hl) id ?_ id Or.inl id
  intro error hc
  rcases hc with ho | hm | hv
  · cases ho
  · exact Or.inr (Or.inl hm)
  · exact Or.inr (Or.inr hv)

theorem cause_report {s : Link P R D L} (hk : Cause s) (delivered : Bool) :
    Cause (s.report delivered) := by
  unfold report
  split
  · rename_i error hr
    have hlate := hk.taken_late (by simp [hr])
    have hcar : ∀ err, (if delivered then some error else s.message) = some err → s.Carries err := by
      intro err hm
      cases delivered with
      | true => exact Or.inl (by simpa [hr, Reader.outcome] using hm)
      | false => exact Or.inr (Or.inl (by simpa using hm))
    split
    · exact hk
    dsimp only
    split
    · refine hk.carry (fun ha => ha) rfl hlate id ?_ id Or.inl id
      intro err hc
      rcases hc with ho | hm | hv
      · cases ho
      · exact hcar err hm
      · exact Or.inr (Or.inr hv)
    · refine hk.carry (fun ha => ha) rfl hlate id ?_ id Or.inl id
      intro err hc
      rcases hc with ho | hm | hv
      · cases ho
      · exact hcar err hm
      · exact Or.inr (Or.inr hv)
  · exact hk

theorem cause_stopReader {s : Link P R D L} (hk : Cause s) : Cause s.stopReader := by
  unfold stopReader
  split
  · split
    all_goals first | exact hk | (rename_i hr; exact cause_finish hk (by simp [hr]))
  · exact hk

theorem cause_frame {s : Link P R D L} (hk : Cause s) : Cause s.frame := by
  unfold frame
  split
  · rename_i error hm
    split
    · rename_i hw
      have hne : ¬ s.reader.Early := by
        intro he
        rw [(hk.early he).2.1] at hm
        cases hm
      refine hk.carry hne rfl (hk.taken_late fun err hr => hne (by rw [hr]; trivial)) id ?_ id
        (fun _ => Or.inr hw) id
      intro err hc
      rcases hc with ho | hm' | hv
      · exact Or.inl ho
      · cases hm'
      · exact Or.inr (Or.inl (hm.trans hv))
    · exact hk
  · exact hk

theorem cause_step {s : Link P R D L} (h : Good s) (hk : Cause s) (a : Act P R D L) :
    Cause (s.step a) := by
  cases a with
  | conn a =>
    simp only [step]
    split
    · exact cause_conn h hk a
    · exact hk
  | poll => exact cause_poll hk
  | advance => exact cause_advance h hk
  | read result => exact cause_read hk result
  | offer o => exact cause_offer hk o
  | report delivered => exact cause_report hk delivered
  | notified =>
    simp only [step, notified]
    split
    · rename_i hr
      exact cause_finish hk (by simp [hr])
    · exact hk
  | stopReader => exact cause_stopReader hk
  | frame => exact cause_frame hk
  | dropWorld =>
    refine ⟨hk.early, hk.taken, fun hl => Or.inr (Or.inl rfl), hk.heard, fun hc => ?_⟩
    exact (hk.carried hc).imp id fun hw => ⟨rfl, hw.2⟩

theorem good_run (side : Side) (datagram : Bool) (t : Target) (sendCapacity : ℕ)
    (overflow : OverflowPolicy) (as : List (Act P R D L)) :
    Good (run step (new side datagram t sendCapacity overflow) as) ∧
      Cause (run step (new side datagram t sendCapacity overflow) as) :=
  run_inv (I := fun s => Good s ∧ Cause s)
    (fun _ a h => ⟨good_step h.1 h.2 a, cause_step h.1 h.2 a⟩) as
    ⟨good_new side datagram t sendCapacity overflow, cause_new side datagram t sendCapacity overflow⟩

/-- **The writer's error wins.** In every run of the two tasks: a failure that
is published by the time of the reader's last `try_recv` is the cause that the
event carries; where the writer, ending after its failure, was the first to
cancel the token, the cause is not an intentional disconnection, unless the
transport's reader itself returned that; the reader never polls a completed
one-shot receiver, for its sender goes without a value only under a cancelled
token while the reader loops. -/
theorem writer_error_wins (side : Side) (datagram : Bool) (t : Target) (sendCapacity : ℕ)
    (overflow : OverflowPolicy) (as : List (Act P R D L)) :
    let s := run step (new side datagram t sendCapacity overflow) as
    (∀ e error, s.heard = some (some e) → s.event = some error → error = .io e) ∧
    (s.firstCancel = some .writer → .error .intentionalDisconnection ∉ s.reads →
      s.event ≠ some .intentionalDisconnection) ∧
    s.reader ≠ .panicked ∧
    (s.conn.sendError = .dropped → s.reader.Looping → s.conn.token = true) := by
  intro s
  obtain ⟨hg, hk⟩ : Good s ∧ Cause s := good_run side datagram t sendCapacity overflow as
  refine ⟨fun e error hh hv => hk.heard e error hh (Or.inr (Or.inr hv)), ?_, hg.sane, ?_⟩
  · intro hfirst hreads hv
    rcases hk.carried (Or.inr (Or.inr hv)) with (⟨who, hne, hw⟩ | hx) | ⟨-, hne⟩
    · rw [hfirst] at hw
      exact hne (Option.some.inj hw).symm
    · exact hreads hx
    · exact hne hv
  · intro hd hl
    refine hg.dropped ?_ hd
    cases hr : s.reader with
    | done => rw [hr] at hl; exact hl.elim
    | _ => trivial

/-- A write fails while the reader waits on the transport. -/
def resetActs : List (Act ℕ ℕ ℕ ℕ) :=
  [.poll, .advance, .advance, .read none, .conn (.send 7), .conn (.proceed 0), .conn (.proceed 0),
    .conn .poll, .conn .advance, .conn .advance, .conn (.write (.error ⟨.connectionReset, "reset"⟩)),
    .conn .advance, .conn .advance, .conn .advance, .poll, .advance, .advance, .advance, .advance,
    .report true, .frame]

/-- The writer ends and cancels the token, and the event carries its error. -/
theorem writer_error_wins_reset :
    let s := run step (new .client false .bits64 4 .dropNewest) resetActs
    s.heard = some (some ⟨.connectionReset, "reset"⟩) ∧ s.firstCancel = some .writer ∧
      ∃ error, s.event = some error ∧ error = .io ⟨.connectionReset, "reset"⟩ := by
  refine ⟨rfl, rfl, _, rfl, ?_⟩
  exact (writer_error_wins .client false .bits64 4 .dropNewest resetActs).1 _ _ rfl rfl

end Link
end Slinet
