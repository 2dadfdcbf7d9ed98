/-
# What a call of `receive` does to the stream

`FramedReader::receive` (`Slinet.Framing`) with a length codec that may answer
anything. `receiveCall` is `receive` with a record of the call: the slices the
codec is shown, the payloads that are decoded, and how the call ends. It may
end in a panic, for no `Vec` is longer than `isize::MAX`.

The codec's own requests lead from the first `SIZE` bytes to the prefix with
which it is done (`Rounds`). Where every request asks for something, the
stream bounds the number of rounds (`exists_stop`) and the call ends as
`exitAt` says (`receive_exact`). The loop does not look at what is requested:
a request for nothing is repeated for ever, and the calls that return are those
in which the codec makes none (`returns_iff`).
-/
import Slinet.Framing

namespace Slinet

/-- The codec's numbers are `usize`s. -/
structure PacketLengthSerializer.Words {t : Target} {L : Type*} (ls : PacketLengthSerializer t L) :
    Prop where
  size_lt : ls.size < t.usize
  additional_lt : ∀ bytes additional,
    ls.deserializePacketLength bytes = .error (.needMoreBytes additional) → additional < t.usize

namespace Framing

variable {t : Target} {σ R S EncErr DecErr L : Type*}

/-- How a call of `receive` ends: it returns, or panics on a buffer that is
longer than any `Vec`. -/
inductive Ending (DecErr L R : Type*)
  | returned (result : Except (ReceiveError DecErr L) R)
  | capacityOverflow
  deriving DecidableEq

/-- A call that has ended: what the length codec was shown and what was
decoded, in order, the serializer's state and the bytes not consumed. -/
structure Call (σ DecErr L R : Type*) where
  shown : List (List UInt8)
  decoded : List (List UInt8)
  ending : Ending DecErr L R
  st : σ
  rest : List UInt8

/-- The length of the buffer that is being filled. -/
def Reading.want : Reading → ℕ
  | .length _ want => want
  | .payload _ want => want

/-- A full buffer is shown to the codec or decoded, before the rest of the call. -/
def Call.after (r : Reading) (c : Call σ DecErr L R) : Call σ DecErr L R :=
  match r with
  | .length got _ => { c with shown := got :: c.shown }
  | .payload got _ => { c with decoded := got :: c.decoded }

/-- `FramedReader::receive` from the wait `r` on, with its record. -/
def receiveCall (serializer : Serializer t σ R S EncErr DecErr) (ls : PacketLengthSerializer t L)
    (limit : ℕ) : ℕ → Reading → σ → List UInt8 → Option (Call σ DecErr L R)
  | 0, _, _, _ => none
  | fuel + 1, r, st, stream =>
    if t.isizeMax < r.want then some ⟨[], [], .capacityOverflow, st, stream⟩
    else if stream.length < r.missing then
      some ⟨[], [], .returned (.error (.io ⟨.unexpectedEof, "early eof"⟩)), st, []⟩
    else
      let full := r.feed (stream.take r.missing)
      match full.next serializer ls limit st with
      | .inl r' => (receiveCall serializer ls limit fuel r' st (stream.drop r.missing)).map (.after full)
      | .inr (result, st') =>
        some (.after full ⟨[], [], .returned result, st', stream.drop r.missing⟩)

section Turns

variable {serializer : Serializer t σ R S EncErr DecErr} {ls : PacketLengthSerializer t L} {limit : ℕ}

@[simp] theorem Call.after_ending (r : Reading) (c : Call σ DecErr L R) : (c.after r).ending = c.ending := by
  cases r <;> rfl

@[simp] theorem Call.after_st (r : Reading) (c : Call σ DecErr L R) : (c.after r).st = c.st := by
  cases r <;> rfl

@[simp] theorem Call.after_rest (r : Reading) (c : Call σ DecErr L R) : (c.after r).rest = c.rest := by
  cases r <;> rfl

/-- Without the record it is `receive`. -/
theorem receive_of_receiveCall {result : Except (ReceiveError DecErr L) R} :
    ∀ (fuel : ℕ) (r : Reading) (st : σ) (stream : List UInt8) (c : Call σ DecErr L R),
      receiveCall serializer ls limit fuel r st stream = some c → c.ending = .returned result →
      receive serializer ls limit fuel r st stream = some (result, c.st, c.rest)
  | 0, _, _, _, _, h, _ => by simp [receiveCall] at h
  | fuel + 1, r, st, stream, c, h, hret => by
    rw [receiveCall] at h
    by_cases hbig : t.isizeMax < r.want
    · rw [if_pos hbig, Option.some.injEq] at h
      subst h
      cases hret
    rw [if_neg hbig] at h
    rw [receive]
    by_cases hend : stream.length < r.missing
    · rw [if_pos hend, Option.some.injEq] at h
      subst h
      rw [if_pos hend]
      cases hret
      rfl
    rw [if_neg hend] at h ⊢
    cases hnext : (r.feed (stream.take r.missing)).next serializer ls limit st with
    | inl r' =>
      simp only [hnext] at h ⊢
      obtain ⟨c', hc', rfl⟩ := Option.map_eq_some_iff.mp h
      simp only [Call.after_ending, Call.after_st, Call.after_rest] at hret ⊢
      exact receive_of_receiveCall fuel r' st _ c' hc' hret
    | inr x =>
      obtain ⟨result', st'⟩ := x
      simp only [hnext, Option.some.injEq] at h ⊢
      subst h
      simp only [Call.after_ending, Ending.returned.injEq] at hret
      simp [hret]

/-- **One turn of the loop of `read_length`**, with `filled` bytes of the stream
in a buffer of `p`. -/
theorem receiveCall_length (serializer : Serializer t σ R S EncErr DecErr)
    (ls : PacketLengthSerializer t L) (limit : ℕ) {stream : List UInt8} {filled p : ℕ} (hf : filled ≤ p)
    (hle : filled ≤ stream.length) (fuel : ℕ) (st : σ) :
    receiveCall serializer ls limit (fuel + 1) (.length (stream.take filled) p) st (stream.drop filled) =
      if t.isizeMax < p then some ⟨[], [], .capacityOverflow, st, stream.drop filled⟩
      else if stream.length < p then
        some ⟨[], [], .returned (.error (.io ⟨.unexpectedEof, "early eof"⟩)), st, []⟩
      else
        match (Reading.length (stream.take p) p).next serializer ls limit st with
        | .inl r' => (receiveCall serializer ls limit fuel r' st (stream.drop p)).map
            (.after (.length (stream.take p) p))
        | .inr (result, st') =>
          some (.after (.length (stream.take p) p) ⟨[], [], .returned result, st', stream.drop p⟩) := by
  have hlen : (stream.take filled).length = filled := List.length_take_of_le hle
  have hfed : stream.take filled ++ (stream.drop filled).take (p - filled) = stream.take p := by
    rw [← List.take_add]
    congr 1
    omega
  have hdrop : (stream.drop filled).drop (p - filled) = stream.drop p := by
    rw [List.drop_drop]
    congr 1
    omega
  rw [receiveCall]
  simp only [Reading.want, Reading.missing, hlen, List.length_drop, Reading.feed, hfed, hdrop]
  have hiff : stream.length - filled < p - filled ↔ stream.length < p := by omega
  simp only [hiff]

/-- **The payload.** -/
theorem receiveCall_payload {stream : List UInt8} {p : ℕ} (hle : p ≤ stream.length) (n fuel : ℕ) (st : σ) :
    receiveCall serializer ls limit (fuel + 1) (.payload [] n) st (stream.drop p) =
      if t.isizeMax < n then some ⟨[], [], .capacityOverflow, st, stream.drop p⟩
      else if stream.length < p + n then
        some ⟨[], [], .returned (.error (.io ⟨.unexpectedEof, "early eof"⟩)), st, []⟩
      else
        some ⟨[], [(stream.drop p).take n],
          .returned ((serializer.deserialize st ((stream.drop p).take n)).1.mapError .deserialization),
          (serializer.deserialize st ((stream.drop p).take n)).2, stream.drop (p + n)⟩ := by
  have hiff : stream.length - p < n ↔ stream.length < p + n := by omega
  rw [receiveCall]
  simp only [Reading.want, Reading.missing, List.length_nil, Nat.sub_zero, List.length_drop,
    Reading.feed, List.nil_append, hiff, List.drop_drop]
  by_cases hbig : t.isizeMax < n
  · rw [if_pos hbig, if_pos hbig]
  rw [if_neg hbig, if_neg hbig]
  by_cases hend : stream.length < p + n
  · rw [if_pos hend, if_pos hend]
  rw [if_neg hend, if_neg hend]
  cases hd : serializer.deserialize st ((stream.drop p).take n) with
  | mk result st' =>
    cases result with
    | ok packet => simp [Reading.next, hd, Call.after, Except.mapError]
    | error error => simp [Reading.next, hd, Call.after, Except.mapError]

/-! ### The rounds of the loop -/

/-- From a prefix of `p` bytes the codec's requests lead to one of `p'`, and the
lengths on the way at which it asks for more are `ps`. -/
inductive Rounds (ls : PacketLengthSerializer t L) (stream : List UInt8) : ℕ → List ℕ → ℕ → Prop
  | stop (p : ℕ) : Rounds ls stream p [] p
  | more {p additional p' : ℕ} {ps : List ℕ} : p ≤ t.isizeMax → p ≤ stream.length →
    ls.deserializePacketLength (stream.take p) = .error (.needMoreBytes additional) →
    p + additional < t.usize → Rounds ls stream (p + additional) ps p' → Rounds ls stream p (p :: ps) p'

/-- No further round follows. -/
def Stops (ls : PacketLengthSerializer t L) (stream : List UInt8) (p : ℕ) : Prop :=
  t.isizeMax < p ∨ stream.length < p ∨
    ∀ additional, ls.deserializePacketLength (stream.take p) = .error (.needMoreBytes additional) →
      t.usize ≤ p + additional

/-- Some bytes have been shown to the codec before. -/
def Call.examined (stream : List UInt8) (ps : List ℕ) (c : Call σ DecErr L R) : Call σ DecErr L R :=
  { c with shown := ps.map stream.take ++ c.shown }

/-- The buffer grows by what is asked for. -/
theorem next_more {st : σ} {got : List UInt8} {want additional : ℕ}
    (h : ls.deserializePacketLength got = .error (.needMoreBytes additional))
    (hlt : got.length + additional < t.usize) :
    (Reading.length got want).next serializer ls limit st = .inl (.length got (got.length + additional)) := by
  simp only [Reading.next, h, Nat.mod_eq_of_lt hlt]
  rw [if_neg (by omega)]

/-- A request past `usize::MAX`. -/
theorem next_wraps {st : σ} {got : List UInt8} {want additional : ℕ}
    (h : ls.deserializePacketLength got = .error (.needMoreBytes additional)) (hgot : got.length < t.usize)
    (hadd : additional < t.usize) (hge : t.usize ≤ got.length + additional) :
    (Reading.length got want).next serializer ls limit st =
      .inr (.error (.io ⟨.invalidData, ""⟩), st) := by
  have hmod : (got.length + additional) % t.usize = got.length + additional - t.usize := by
    rw [Nat.mod_eq_sub_mod hge]
    exact Nat.mod_eq_of_lt (by omega)
  simp only [Reading.next, h, hmod]
  rw [if_pos (by omega)]

theorem receiveCall_rounds (serializer : Serializer t σ R S EncErr DecErr) (limit : ℕ)
    {stream : List UInt8} {p p' : ℕ} {ps : List ℕ} (h : Rounds ls stream p ps p') :
    ∀ filled, filled ≤ p → filled ≤ stream.length → ∃ filled' ≤ p', filled' ≤ stream.length ∧
      ∀ fuel (st : σ),
        receiveCall serializer ls limit (fuel + ps.length) (.length (stream.take filled) p) st
            (stream.drop filled) =
          (receiveCall serializer ls limit fuel (.length (stream.take filled') p') st
            (stream.drop filled')).map (.examined stream ps) := by
  induction h with
  | stop p =>
    intro filled hf hle
    refine ⟨filled, hf, hle, fun fuel st => ?_⟩
    have hid : (Call.examined stream [] : Call σ DecErr L R → Call σ DecErr L R) = id := rfl
    rw [hid, Option.map_id]
    rfl
  | @more p additional p' ps hbig hp hreq hlt _ ih =>
    intro filled hf hle
    obtain ⟨filled', hf', hle', hrec⟩ := ih p (by omega) hp
    refine ⟨filled', hf', hle', fun fuel st => ?_⟩
    have hlen : (stream.take p).length = p := List.length_take_of_le hp
    have hnext : (Reading.length (stream.take p) p).next serializer ls limit st =
        .inl (.length (stream.take p) (p + additional)) := by
      rw [next_more hreq (by rw [hlen]; exact hlt), hlen]
    rw [List.length_cons, ← Nat.add_assoc, receiveCall_length serializer ls limit hf hle, if_neg (by omega),
      if_neg (by omega), hnext]
    simp only [hrec fuel st, Option.map_map]
    rfl

/-- **The stream bounds the rounds.** Where no request is for nothing, the
requests come to an end. -/
theorem exists_stop (stream : List UInt8) (p : ℕ)
    (hpos : ∀ ps p', Rounds ls stream p ps p' → p' ≤ stream.length →
      ls.deserializePacketLength (stream.take p') ≠ .error (.needMoreBytes 0)) :
    ∃ ps p', Rounds ls stream p ps p' ∧ Stops ls stream p' := by
  -- the part of the stream not yet asked for shrinks with every round
  induction hm : stream.length + 1 - p using Nat.strong_induction_on generalizing p with
  | _ m ih =>
    by_cases hs : Stops ls stream p
    · exact ⟨[], p, .stop p, hs⟩
    simp only [Stops, not_or, not_lt, not_forall, not_le] at hs
    obtain ⟨hbig, hp, additional, hreq, hlt⟩ := hs
    have hne : additional ≠ 0 := by
      rintro rfl
      exact hpos [] p (.stop p) hp hreq
    obtain ⟨ps, p', hr, hs'⟩ := ih (stream.length + 1 - (p + additional)) (by omega) (p + additional)
      (fun ps p' hr => hpos (p :: ps) p' (.more hbig hp hreq hlt hr)) rfl
    exact ⟨p :: ps, p', .more hbig hp hreq hlt hr, hs'⟩

/-! ### The exits -/

/-- How the call ends when the rounds stop at `p`, with `filled` bytes in the
buffer before. -/
def exitAt (serializer : Serializer t σ R S EncErr DecErr) (ls : PacketLengthSerializer t L) (limit : ℕ)
    (st : σ) (stream : List UInt8) (filled p : ℕ) : Call σ DecErr L R :=
  if t.isizeMax < p then ⟨[], [], .capacityOverflow, st, stream.drop filled⟩
  else if stream.length < p then
    ⟨[], [], .returned (.error (.io ⟨.unexpectedEof, "early eof"⟩)), st, []⟩
  else
    match ls.deserializePacketLength (stream.take p) with
    | .error (.err error) =>
      ⟨[stream.take p], [], .returned (.error (.lengthDeserialization error)), st, stream.drop p⟩
    | .error (.needMoreBytes _) =>
      ⟨[stream.take p], [], .returned (.error (.io ⟨.invalidData, ""⟩)), st, stream.drop p⟩
    | .ok n =>
      if limit < n then ⟨[stream.take p], [], .returned (.error .packetTooBig), st, stream.drop p⟩
      else if t.isizeMax < n then ⟨[stream.take p], [], .capacityOverflow, st, stream.drop p⟩
      else if stream.length < p + n then
        ⟨[stream.take p], [], .returned (.error (.io ⟨.unexpectedEof, "early eof"⟩)), st, []⟩
      else
        ⟨[stream.take p], [(stream.drop p).take n],
          .returned ((serializer.deserialize st ((stream.drop p).take n)).1.mapError .deserialization),
          (serializer.deserialize st ((stream.drop p).take n)).2, stream.drop (p + n)⟩

theorem receiveCall_last (hw : ls.Words) {stream : List UInt8} {filled p : ℕ} (hs : Stops ls stream p)
    (hf : filled ≤ p) (hle : filled ≤ stream.length) (fuel : ℕ) (st : σ) :
    receiveCall serializer ls limit (fuel + 2) (.length (stream.take filled) p) st (stream.drop filled) =
      some (exitAt serializer ls limit st stream filled p) := by
  rw [receiveCall_length serializer ls limit hf hle, exitAt]
  by_cases hbig : t.isizeMax < p
  · rw [if_pos hbig, if_pos hbig]
  rw [if_neg hbig, if_neg hbig]
  by_cases hend : stream.length < p
  · rw [if_pos hend, if_pos hend]
  rw [if_neg hend, if_neg hend]
  have hlen : (stream.take p).length = p := List.length_take_of_le (by omega)
  have hmax := t.isizeMax_lt
  cases hd : ls.deserializePacketLength (stream.take p) with
  | error error =>
    cases error with
    | err error => simp [Reading.next, hd, Call.after]
    | needMoreBytes additional =>
      have hge : t.usize ≤ p + additional := by
        rcases hs with hs | hs | hs
        · exact absurd hs hbig
        · exact absurd hs hend
        · exact hs additional hd
      rw [next_wraps hd (by omega) (hw.additional_lt _ _ hd) (by omega)]
      rfl
  | ok n =>
    by_cases hlim : limit < n
    · simp [Reading.next, hd, hlim, Call.after]
    have hnext : (Reading.length (stream.take p) p).next serializer ls limit st = .inl (.payload [] n) := by
      simp [Reading.next, hd, hlim]
    rw [hnext]
    simp only [receiveCall_payload (Nat.le_of_not_lt hend), if_neg hlim]
    split_ifs
    · rfl
    · rfl
    · rfl

/-- The whole call, along the codec's requests. -/
theorem receiveCall_start (serializer : Serializer t σ R S EncErr DecErr) (limit : ℕ) (hw : ls.Words)
    {stream : List UInt8} {ps : List ℕ} {p : ℕ}
    (hr : Rounds ls stream ls.size ps p) (hs : Stops ls stream p) (st : σ) :
    ∃ filled ≤ p, ∀ fuel ≥ ps.length + 2,
      receiveCall serializer ls limit fuel (.start ls) st stream =
        some ((exitAt serializer ls limit st stream filled p).examined stream ps) := by
  obtain ⟨filled, hf, hle, hrec⟩ := receiveCall_rounds serializer limit hr 0
    (Nat.zero_le _) (Nat.zero_le _)
  refine ⟨filled, hf, fun fuel hfuel => ?_⟩
  obtain ⟨d, rfl⟩ := Nat.exists_eq_add_of_le hfuel
  have hstart := hrec (d + 2) st
  rw [receiveCall_last hw hs hf hle d st] at hstart
  rw [show ps.length + 2 + d = d + 2 + ps.length by omega]
  simpa [Reading.start] using hstart

/-- The codec is shown the last prefix where there is one. -/
theorem shown_exitAt (st : σ) (stream : List UInt8) (filled p : ℕ) :
    (exitAt serializer ls limit st stream filled p).shown =
      (if p ≤ t.isizeMax ∧ p ≤ stream.length then [p] else []).map stream.take := by
  unfold exitAt
  by_cases hbig : t.isizeMax < p
  · rw [if_pos hbig, if_neg (by omega)]
    rfl
  rw [if_neg hbig]
  by_cases hend : stream.length < p
  · rw [if_pos hend, if_neg (by omega)]
    rfl
  rw [if_neg hend, if_pos (by omega)]
  split
  · rfl
  · rfl
  · split_ifs
    · rfl
    · rfl
    · rfl
    · rfl

theorem exitAt_io_iff (st : σ) (stream : List UInt8) (filled p : ℕ) :
    (∃ error, (exitAt serializer ls limit st stream filled p).ending = .returned (.error (.io error))) ↔
      p ≤ t.isizeMax ∧
        (stream.length < p ∨
          (∃ n, ls.deserializePacketLength (stream.take p) = .ok n ∧ n ≤ limit ∧ n ≤ t.isizeMax ∧
            stream.length < p + n) ∨
          ∃ additional,
            ls.deserializePacketLength (stream.take p) = .error (.needMoreBytes additional)) := by
  unfold exitAt
  by_cases hbig : t.isizeMax < p
  · rw [if_pos hbig]
    simp [hbig]
  rw [if_neg hbig]
  by_cases hend : stream.length < p
  · rw [if_pos hend]
    simp [hend, Nat.le_of_not_lt hbig]
  rw [if_neg hend]
  have hp := Nat.le_of_not_lt hbig
  cases hd : ls.deserializePacketLength (stream.take p) with
  | error error =>
    cases error with
    | err error => simp [hend]
    | needMoreBytes additional => simp [hp]
  | ok n =>
    simp only [hp, hend, Except.ok.injEq, exists_eq_left', reduceCtorEq, exists_false, or_false, false_or,
      true_and]
    split_ifs with hlim hcap hshort
    · simp only [Ending.returned.injEq, Except.error.injEq, reduceCtorEq, exists_false, false_iff]
      omega
    · simp only [exists_false, false_iff]
      omega
    · simp only [Ending.returned.injEq, Except.error.injEq, ReceiveError.io.injEq, exists_eq', true_iff]
      omega
    · have hno : ¬ ∃ error, (serializer.deserialize st ((stream.drop p).take n)).1.mapError
          .deserialization = (.error (.io error) : Except (ReceiveError DecErr L) R) := by
        rintro ⟨error, he⟩
        cases hr : (serializer.deserialize st ((stream.drop p).take n)).1 with
        | ok packet => simp [hr, Except.mapError] at he
        | error e => simp [hr, Except.mapError] at he
      simp only [Ending.returned.injEq, hno, false_iff]
      omega

theorem exitAt_capacityOverflow_iff (st : σ) (stream : List UInt8) (filled p : ℕ) :
    (exitAt serializer ls limit st stream filled p).ending = .capacityOverflow ↔
      t.isizeMax < p ∨ p ≤ stream.length ∧
        ∃ n, ls.deserializePacketLength (stream.take p) = .ok n ∧ n ≤ limit ∧ t.isizeMax < n := by
  unfold exitAt
  by_cases hbig : t.isizeMax < p
  · rw [if_pos hbig]
    simp [hbig]
  rw [if_neg hbig]
  by_cases hend : stream.length < p
  · rw [if_pos hend]
    simp [hbig, Nat.not_le.mpr hend]
  rw [if_neg hend]
  have hp := Nat.le_of_not_lt hend
  cases hd : ls.deserializePacketLength (stream.take p) with
  | error error =>
    cases error with
    | err error => simp [hbig]
    | needMoreBytes additional => simp [hbig]
  | ok n =>
    simp only [hbig, hp, Except.ok.injEq, exists_eq_left', false_or, true_and]
    split_ifs with hlim hcap hshort
    · simp only [false_iff]
      omega
    · simp only [true_iff]
      omega
    · simp only [false_iff]
      omega
    · simp only [false_iff]
      omega

/-- **Exactly what a call does.** The length codec asks for at least a byte
whenever it asks. Then the call ends; the codec is shown the prefixes that its
requests lead to and nothing else; and the cursor is behind the prefix, or
behind the frame when the payload is there. An I/O error is the end of the
stream, or a request past `usize::MAX`. -/
theorem receive_exact (hw : ls.Words)
    (hpos : ∀ bytes additional,
      ls.deserializePacketLength bytes = .error (.needMoreBytes additional) → 1 ≤ additional)
    (serializer : Serializer t σ R S EncErr DecErr) (limit : ℕ) (st : σ) (stream : List UInt8) :
    ∃ (ps : List ℕ) (p m : ℕ) (c : Call σ DecErr L R),
      Rounds ls stream ls.size ps p ∧ Stops ls stream p ∧
      (∀ fuel ≥ m, receiveCall serializer ls limit fuel (.start ls) st stream = some c) ∧
      c.shown = (ps ++ if p ≤ t.isizeMax ∧ p ≤ stream.length then [p] else []).map stream.take ∧
      (p ≤ t.isizeMax → p ≤ stream.length →
        (∀ n, ls.deserializePacketLength (stream.take p) = .ok n →
          (limit < n → c.ending = .returned (.error .packetTooBig) ∧ c.decoded = [] ∧
            c.rest = stream.drop p) ∧
          (n ≤ limit → n ≤ t.isizeMax → p + n ≤ stream.length →
            c.decoded = [(stream.drop p).take n] ∧
            c.ending = .returned
              ((serializer.deserialize st ((stream.drop p).take n)).1.mapError .deserialization) ∧
            c.st = (serializer.deserialize st ((stream.drop p).take n)).2 ∧
            c.rest = stream.drop (p + n))) ∧
        (∀ error, ls.deserializePacketLength (stream.take p) = .error (.err error) →
          c.ending = .returned (.error (.lengthDeserialization error)) ∧ c.rest = stream.drop p) ∧
        ∀ additional, ls.deserializePacketLength (stream.take p) = .error (.needMoreBytes additional) →
          t.usize ≤ p + additional ∧ c.ending = .returned (.error (.io ⟨.invalidData, ""⟩)) ∧
            c.rest = stream.drop p) ∧
      ((∃ error, c.ending = .returned (.error (.io error))) ↔
        p ≤ t.isizeMax ∧
          (stream.length < p ∨
            (∃ n, ls.deserializePacketLength (stream.take p) = .ok n ∧ n ≤ limit ∧ n ≤ t.isizeMax ∧
              stream.length < p + n) ∨
            ∃ additional,
              ls.deserializePacketLength (stream.take p) = .error (.needMoreBytes additional))) ∧
      (c.ending = .capacityOverflow ↔
        t.isizeMax < p ∨ p ≤ stream.length ∧
          ∃ n, ls.deserializePacketLength (stream.take p) = .ok n ∧ n ≤ limit ∧ t.isizeMax < n) := by
  obtain ⟨ps, p, hr, hs⟩ := exists_stop stream ls.size fun _ p' _ _ h0 =>
    absurd (hpos (stream.take p') 0 h0) (by omega)
  obtain ⟨filled, -, hcall⟩ := receiveCall_start serializer limit hw hr hs st
  refine ⟨ps, p, ps.length + 2, _, hr, hs, hcall, ?_, fun hbig hp => ⟨?_, ?_, ?_⟩,
    exitAt_io_iff st stream filled p, exitAt_capacityOverflow_iff st stream filled p⟩
  · simp only [Call.examined, shown_exitAt, List.map_append]
  · intro n hd
    refine ⟨fun hlim => ?_, fun hlim hcap hfull => ?_⟩
    · simp only [Call.examined, exitAt, if_neg (Nat.not_lt.mpr hbig), if_neg (Nat.not_lt.mpr hp), hd,
        if_pos hlim, and_self]
    · simp only [Call.examined, exitAt, if_neg (Nat.not_lt.mpr hbig), if_neg (Nat.not_lt.mpr hp), hd,
        if_neg (Nat.not_lt.mpr hlim), if_neg (Nat.not_lt.mpr hcap), if_neg (Nat.not_lt.mpr hfull), and_self]
  · intro error hd
    simp only [Call.examined, exitAt, if_neg (Nat.not_lt.mpr hbig), if_neg (Nat.not_lt.mpr hp), hd, and_self]
  · intro additional hd
    refine ⟨?_, ?_⟩
    · rcases hs with hs | hs | hs
      · exact absurd hs (Nat.not_lt.mpr hbig)
      · exact absurd hs (Nat.not_lt.mpr hp)
      · exact hs additional hd
    · simp only [Call.examined, exitAt, if_neg (Nat.not_lt.mpr hbig), if_neg (Nat.not_lt.mpr hp), hd,
        and_self]

/-! ### Which calls return -/

/-- What a call that returns says about the requests from `p` on. -/
theorem rounds_of_returned {stream : List UInt8} {result : Except (ReceiveError DecErr L) R} :
    ∀ (fuel filled p : ℕ) (st : σ) (c : Call σ DecErr L R), filled ≤ p → filled ≤ stream.length →
      receiveCall serializer ls limit fuel (.length (stream.take filled) p) st (stream.drop filled) = some c →
      c.ending = .returned result → ∀ ps p', Rounds ls stream p ps p' →
        p' ≤ t.isizeMax ∧ (p' ≤ stream.length →
          ls.deserializePacketLength (stream.take p') ≠ .error (.needMoreBytes 0) ∧
          ∀ n ≤ limit, ls.deserializePacketLength (stream.take p') = .ok n → n ≤ t.isizeMax)
  | 0, _, _, _, _, _, _, h, _ => by simp [receiveCall] at h
  | fuel + 1, filled, p, st, c, hf, hle, h, hret => by
    intro ps p' hr
    rw [receiveCall_length serializer ls limit hf hle] at h
    have hmax := t.isizeMax_lt
    have hbig : p ≤ t.isizeMax := by
      by_contra hbig
      rw [if_pos (by omega), Option.some.injEq] at h
      subst h
      cases hret
    rw [if_neg (by omega)] at h
    -- a further wait is in a call that returns too
    have hwait : p ≤ stream.length → ∀ r,
        (Reading.length (stream.take p) p).next serializer ls limit st = .inl r →
        ∃ c', receiveCall serializer ls limit fuel r st (stream.drop p) = some c' ∧
          c'.ending = .returned result := by
      intro hp r hnext
      rw [if_neg (by omega), hnext] at h
      obtain ⟨c', hc', rfl⟩ := Option.map_eq_some_iff.mp h
      exact ⟨c', hc', by simpa using hret⟩
    have hmore : ∀ additional, p ≤ stream.length → p + additional < t.usize →
        ls.deserializePacketLength (stream.take p) = .error (.needMoreBytes additional) →
        ∃ c', receiveCall serializer ls limit fuel (.length (stream.take p) (p + additional)) st
          (stream.drop p) = some c' ∧ c'.ending = .returned result := by
      intro additional hp hlt hreq
      have hlen : (stream.take p).length = p := List.length_take_of_le hp
      refine hwait hp _ ?_
      rw [next_more hreq (by rw [hlen]; exact hlt), hlen]
    cases hr with
    | stop =>
      refine ⟨hbig, fun hp => ⟨fun hzero => ?_, fun n hlim hd => ?_⟩⟩
      · obtain ⟨c', hc', hret'⟩ := hmore 0 hp (by omega) hzero
        have ih := rounds_of_returned fuel p p st c' le_rfl hp hc' hret' [] p (.stop p)
        exact (ih.2 hp).1 hzero
      · obtain ⟨c', hc', hret'⟩ := hwait hp (.payload [] n) (by
          simp [Reading.next, hd, Nat.not_lt.mpr hlim])
        cases fuel with
        | zero => simp [receiveCall] at hc'
        | succ fuel =>
          rw [receiveCall_payload hp] at hc'
          by_contra hcap
          rw [if_pos (by omega), Option.some.injEq] at hc'
          subst hc'
          cases hret'
    | more _ hp hreq hlt hrest =>
      obtain ⟨c', hc', hret'⟩ := hmore _ hp hlt hreq
      exact rounds_of_returned fuel p _ st c' (by omega) hp hc' hret' _ p' hrest

/-- The call returns, after finitely many turns of the loop. -/
def Returns (serializer : Serializer t σ R S EncErr DecErr) (ls : PacketLengthSerializer t L) (limit : ℕ)
    (st : σ) (stream : List UInt8) : Prop :=
  ∃ m c result, (∀ fuel ≥ m, receiveCall serializer ls limit fuel (.start ls) st stream = some c) ∧
    c.ending = .returned result

/-- **Which calls return.** A call ends with a packet or an error exactly if the
codec does not answer with a request for nothing on any prefix that its
requests lead to, and every buffer on the way is one a `Vec` can be. -/
theorem returns_iff (hw : ls.Words) (serializer : Serializer t σ R S EncErr DecErr) (limit : ℕ) (st : σ)
    (stream : List UInt8) :
    Returns serializer ls limit st stream ↔ ∀ ps p, Rounds ls stream ls.size ps p →
      p ≤ t.isizeMax ∧ (p ≤ stream.length →
        ls.deserializePacketLength (stream.take p) ≠ .error (.needMoreBytes 0) ∧
        ∀ n ≤ limit, ls.deserializePacketLength (stream.take p) = .ok n → n ≤ t.isizeMax) := by
  constructor
  · rintro ⟨m, c, result, hcall, hret⟩
    have h0 : receiveCall serializer ls limit m (.length (stream.take 0) ls.size) st (stream.drop 0) =
        some c := hcall m le_rfl
    exact rounds_of_returned m 0 ls.size st c (Nat.zero_le _) (Nat.zero_le _) h0 hret
  · intro hall
    obtain ⟨ps, p, hr, hs⟩ := exists_stop stream ls.size fun ps p' hr hp => ((hall ps p' hr).2 hp).1
    obtain ⟨filled, -, hcall⟩ := receiveCall_start serializer limit hw hr hs st
    have hno : (exitAt serializer ls limit st stream filled p).ending ≠ .capacityOverflow := by
      intro hcap
      rcases (exitAt_capacityOverflow_iff st stream filled p).mp hcap with hbig | ⟨hp, n, hd, hlim, hbig⟩
      · have := (hall ps p hr).1
        omega
      · have := ((hall ps p hr).2 hp).2 n hlim hd
        omega
    cases hend : (exitAt serializer ls limit st stream filled p).ending with
    | capacityOverflow => exact absurd hend hno
    | returned result => exact ⟨_, _, result, hcall, hend⟩

end Turns

/-! ### Codecs of an application -/

/-- `ExtendedLength` of the tests: one byte, or 255 and two more. -/
def extendedLength : PacketLengthSerializer .bits64 String where
  size := 1
  serializePacketLength length :=
    if length < 2 ^ 16 then .ok ⟨255 :: Endian.little.toBytes 2 length, by simp [Target.usize]⟩
    else .error "out of range integral type conversion attempted"
  deserializePacketLength
    | [255] => .error (.needMoreBytes 2)
    | [255, low, high] => .ok (Endian.little.fromBytes [low, high])
    | [length] => .ok length.toNat
    | _ => .error (.err "invalid prefix")

theorem extendedLength_request {bytes : List UInt8} {additional : ℕ}
    (h : extendedLength.deserializePacketLength bytes = .error (.needMoreBytes additional)) :
    additional = 2 := by
  simp only [extendedLength] at h
  split at h
  · simpa using h.symm
  · simp at h
  · simp at h
  · simp at h

theorem extendedLength_words : extendedLength.Words := by
  refine ⟨by simp [extendedLength, Target.usize], fun bytes additional h => ?_⟩
  rw [extendedLength_request h]
  simp [Target.usize]

/-- The first packet of the test `variable_prefixes_preserve_packet_boundaries`:
the codec is shown one byte and then three, the packet is the byte behind them,
and what follows is left for the next call. -/
theorem receive_exact_extended :
    ∃ (m : ℕ) (c : Call Unit String String UInt8), (∀ fuel ≥ m,
      receiveCall (.readOnly encodeByte decodeByte) extendedLength 2 fuel (.start extendedLength) ()
        [255, 1, 0, 7, 0, 1, 9] = some c) ∧
      c.shown = [[255], [255, 1, 0]] ∧ c.decoded = [[7]] ∧ c.ending = .returned (.ok 7) ∧
      c.rest = [0, 1, 9] := by
  obtain ⟨ps, p, m, c, hr, hs, hc, hshown, hexit, -⟩ := receive_exact extendedLength_words
    (fun _ _ h => by rw [extendedLength_request h]; decide) (.readOnly encodeByte decodeByte) 2 ()
    [255, 1, 0, 7, 0, 1, 9]
  obtain ⟨rfl, rfl⟩ : ps = [1] ∧ p = 3 := by
    cases hr with
    | stop =>
      rcases hs with hs | hs | hs
      · exact absurd hs (by decide)
      · exact absurd hs (by decide)
      · exact absurd (hs 2 rfl) (by decide)
    | more _ _ hask _ hrest =>
      obtain rfl := extendedLength_request hask
      cases hrest with
      | stop => exact ⟨rfl, rfl⟩
      | more _ _ hask => cases hask
  obtain ⟨hok, -⟩ := hexit (by decide) (by decide)
  obtain ⟨hdecoded, hending, -, hrest⟩ := (hok 1 rfl).2 (by decide) (by decide) (by decide)
  exact ⟨m, c, hc, hshown, hdecoded, hending, hrest⟩

/-- A codec that asks for as much as can be asked for. -/
def greedyLength : PacketLengthSerializer .bits32 String where
  size := 1
  serializePacketLength _ := .ok ⟨[], by simp [Target.usize]⟩
  deserializePacketLength bytes :=
    if bytes.length = 1 then .error (.needMoreBytes (2 ^ 32 - 1)) else .ok 0

/-- A stream that does not end inside the prefix: the sum `filled + additional`
wraps, and the guard reports invalid data. -/
theorem request_past_usize_max :
    let stream : List UInt8 := List.replicate (2 ^ 32) 0
    let serializer : Serializer .bits32 Unit Unit Unit String String :=
      .readOnly (fun _ => .ok ⟨[], by decide⟩) fun _ => .ok ()
    (receiveCall serializer greedyLength 0 1 (.start greedyLength) () stream).map Call.ending =
      some (.returned (.error (.io ⟨.invalidData, ""⟩))) ∧
    greedyLength.deserializePacketLength (stream.take greedyLength.size) =
      .error (.needMoreBytes (2 ^ 32 - 1)) ∧
    greedyLength.size + (2 ^ 32 - 1) ≤ stream.length ∧
    greedyLength.deserializePacketLength (stream.take (greedyLength.size + (2 ^ 32 - 1))) = .ok 0 := by
  intro stream serializer
  have hlen : stream.length = 2 ^ 32 := List.length_replicate
  have htake : (stream.take 1).length = 1 := by
    rw [List.length_take, hlen]
    decide
  have hreq : greedyLength.deserializePacketLength (stream.take 1) = .error (.needMoreBytes (2 ^ 32 - 1)) := by
    simp only [greedyLength, htake, if_true]
  refine ⟨?_, hreq, ?_, ?_⟩
  · have hturn := receiveCall_length serializer greedyLength 0 (Nat.zero_le 1)
      (Nat.zero_le stream.length) 0 ()
    rw [if_neg (by decide), if_neg (by rw [hlen]; decide), next_wraps hreq (by rw [htake]; decide)
      (by decide) (by rw [htake]; decide)] at hturn
    have hstart : receiveCall serializer greedyLength 0 1 (.start greedyLength) () stream = _ := hturn
    rw [hstart]
    rfl
  · rw [hlen]
    decide
  · have hne : (stream.take (greedyLength.size + (2 ^ 32 - 1))).length ≠ 1 := by
      rw [List.length_take, hlen]
      decide
    simp only [greedyLength] at hne ⊢
    rw [if_neg hne]

/-- A codec that asks for nothing. -/
def idleLength : PacketLengthSerializer .bits64 String where
  size := 1
  serializePacketLength _ := .ok ⟨[0], by simp [Target.usize]⟩
  deserializePacketLength _ := .error (.needMoreBytes 0)

theorem idleLength_words : idleLength.Words := by
  refine ⟨by simp [idleLength, Target.usize], fun bytes additional h => ?_⟩
  simp only [idleLength, Except.error.injEq, PacketLengthDeserializationError.needMoreBytes.injEq] at h
  rw [← h]
  simp [Target.usize]

/-- One byte, and the loop never gets past it. -/
theorem idle_request_spins :
    ¬ ∃ fuel c, receiveCall (.readOnly encodeByte decodeByte) idleLength 1 fuel (.start idleLength) ()
      [0] = some c := by
  rintro ⟨fuel, c, hc⟩
  -- once the byte is there, a turn leads to itself
  have hloop : ∀ fuel, receiveCall (.readOnly encodeByte decodeByte) idleLength 1 fuel
      (.length [0] 1) () [] = none := by
    intro fuel
    induction fuel with
    | zero => rfl
    | succ fuel ih =>
      have hstep : receiveCall (.readOnly encodeByte decodeByte) idleLength 1 (fuel + 1) (.length [0] 1) ()
          [] = (receiveCall (.readOnly encodeByte decodeByte) idleLength 1 fuel (.length [0] 1) () []).map
            (.after (.length [0] 1)) := rfl
      rw [hstep, ih]
      rfl
  cases fuel with
  | zero => cases hc
  | succ fuel =>
    have hstep : receiveCall (.readOnly encodeByte decodeByte) idleLength 1 (fuel + 1) (.start idleLength) ()
        [0] = (receiveCall (.readOnly encodeByte decodeByte) idleLength 1 fuel (.length [0] 1) () []).map
          (.after (.length [0] 1)) := rfl
    rw [hstep, hloop fuel] at hc
    cases hc

/-- The codec of the tests on the stream of the tests; and the idle one. -/
theorem returns_iff_extended :
    Returns (.readOnly encodeByte decodeByte) extendedLength 1 () [1, 7] ∧
      ¬ Returns (.readOnly encodeByte decodeByte) idleLength 1 () [0] := by
  constructor
  · refine (returns_iff extendedLength_words (.readOnly encodeByte decodeByte) 1 () [1, 7]).mpr ?_
    intro ps p hr
    have hfirst : p = 1 := by
      cases hr with
      | stop => rfl
      | more _ _ hreq => cases hreq
    subst hfirst
    refine ⟨by decide, fun _ => ⟨fun h => (by cases h), fun n _ hd => ?_⟩⟩
    cases hd
    decide
  · intro hret
    have hall := (returns_iff idleLength_words (.readOnly encodeByte decodeByte) 1 () [0]).mp hret
    exact ((hall [] 1 (.stop 1)).2 le_rfl).1 rfl

end Framing
end Slinet
