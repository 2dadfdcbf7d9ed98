/-
# The table of peers and its slots

What every step of the listener's machine (`Slinet.UdpPeers`) keeps: the slots
of the semaphore are free or with a session; every entry of the table is a
session of that address whose registration stands; and a session that is open
and registered is the table's entry for its address, as long as there is a
table. A closed session keeps its slot, and its entry until it is replaced or
its registration is dropped, so sessions of one address overlap; the last of
the facts is what keeps them apart.

Between the removal from the table and the release of the slot a registration
is neither: `releasing` counts those, and is zero when no drop is under way.
`peer_table` collects the results.
-/
import Slinet.Ledger
import Slinet.UdpPeers

namespace Slinet

/-! ### The registration in a drop -/

/-- The steps of the drop of a registration. -/
def DropStep.OfRegistration : DropStep → Bool
  | unregister => true
  | cancel => true
  | release => true
  | _ => false

namespace Session

variable {q : Lossy.Limits} {Addr : Type*}

/-- What is left of the drop of the registration. -/
def plan (p : Session q Addr) : List DropStep := p.owner.todo.filter DropStep.OfRegistration

/-- The drop of the registration is taken from its end. -/
def Planned (p : Session q Addr) : Prop := p.plan <:+ [.unregister, .cancel, .release]

theorem registered_iff (p : Session q Addr) : p.Registered = true ↔ .unregister ∈ p.plan := by
  simp [Registered, plan, DropStep.OfRegistration]

theorem holdsSlot_iff (p : Session q Addr) : p.HoldsSlot = true ↔ .release ∈ p.plan := by
  simp [HoldsSlot, plan, DropStep.OfRegistration]

/-- The four ways a registration can stand. -/
theorem Planned.cases {p : Session q Addr} (h : p.Planned) :
    p.plan = [.unregister, .cancel, .release] ∨ p.plan = [.cancel, .release] ∨
      p.plan = [.release] ∨ p.plan = [] := by
  obtain ⟨pre, hpre⟩ := h
  match pre, hpre with
  | [], hpre => exact Or.inl hpre
  | [_], hpre => exact Or.inr (Or.inl (by simpa using (List.cons.inj hpre).2))
  | [_, _], hpre =>
    exact Or.inr (Or.inr (Or.inl (by simpa using (List.cons.inj (List.cons.inj hpre).2).2)))
  | _ :: _ :: _ :: pre, hpre =>
    have hlen := congrArg List.length hpre
    simp only [List.cons_append, List.length_cons, List.length_append, List.length_nil] at hlen
    exact Or.inr (Or.inr (Or.inr (List.eq_nil_of_length_eq_zero (by omega))))

theorem Planned.holdsSlot {p : Session q Addr} (h : p.Planned) (hr : p.Registered = true) :
    p.HoldsSlot = true := by
  rw [registered_iff] at hr
  rw [holdsSlot_iff]
  rcases h.cases with hp | hp | hp | hp <;> simp [hp] at hr ⊢

/-- What a step keeps that touches neither the table nor the slots. -/
structure Local (p p' : Session q Addr) : Prop where
  address : p'.address = p.address
  registered : p'.Registered = p.Registered
  holdsSlot : p'.HoldsSlot = p.HoldsSlot
  closed : p.closed = true → p'.closed = true
  planned : p'.Planned

/-- A step that leaves the registration alone. -/
theorem local_of_plan {p p' : Session q Addr} (h : p.Planned) (ha : p'.address = p.address)
    (hp : p'.plan = p.plan) (hc : p.closed = true → p'.closed = true) : Local p p' := by
  refine ⟨ha, ?_, ?_, hc, by rw [Planned, hp]; exact h⟩
  · rw [Bool.eq_iff_iff, registered_iff, registered_iff, hp]
  · rw [Bool.eq_iff_iff, holdsSlot_iff, holdsSlot_iff, hp]

theorem local_refl {p : Session q Addr} (h : p.Planned) : Local p p :=
  local_of_plan h rfl rfl id

theorem local_push {p : Session q Addr} (h : p.Planned) (datagram : Datagram) :
    Local p (p.push datagram) := by
  unfold push
  split
  · exact local_of_plan h rfl rfl id
  · exact local_of_plan h rfl rfl id
  · exact local_of_plan h rfl rfl id

theorem local_dropSender {p : Session q Addr} (h : p.Planned) : Local p p.dropSender :=
  local_of_plan h rfl rfl id

theorem local_poll {p : Session q Addr} (h : p.Planned) : Local p p.poll := by
  unfold poll
  split
  · rename_i ho
    split
    · exact local_refl h
    · exact local_of_plan h rfl (by simp [plan, ho, Owner.todo]) id
  · exact local_refl h

theorem local_next {p : Session q Addr} (h : p.Planned) : Local p p.next := by
  unfold next
  split
  · rename_i ho
    have hp : dropRead.filter DropStep.OfRegistration = p.plan := by simp [plan, ho, Owner.todo]
    split
    · exact local_of_plan h rfl hp id
    · exact local_of_plan h rfl hp fun _ => rfl
    · exact local_of_plan h rfl hp id
  · exact local_refl h

theorem local_decode {p : Session q Addr} (h : p.Planned) (limit : ℕ) (decodes : Bool) :
    Local p (p.decode limit decodes) := by
  unfold decode
  split
  · rename_i datagram ho
    have hp : dropRead.filter DropStep.OfRegistration = p.plan := by simp [plan, ho, Owner.todo]
    dsimp only
    split
    · exact local_of_plan h rfl hp id
    split
    · exact local_of_plan h rfl hp id
    split
    · exact local_of_plan h rfl hp id
    · exact local_of_plan h rfl hp id
  · exact local_refl h

theorem local_close {p : Session q Addr} (h : p.Planned) : Local p p.close := by
  unfold close
  split
  · exact local_of_plan h rfl rfl fun _ => rfl
  · exact local_refl h

theorem local_split {p : Session q Addr} (h : p.Planned) : Local p p.split := by
  unfold split
  split
  · rename_i ho
    exact local_of_plan h rfl (by rw [plan, plan, ho]; rfl) id
  · exact local_refl h

theorem local_dropOwner {p : Session q Addr} (h : p.Planned) : Local p p.dropOwner := by
  unfold dropOwner
  split
  · rename_i ho
    exact local_of_plan h rfl (by simp [plan, ho, Owner.todo]) id
  · rename_i ho
    exact local_of_plan h rfl (by simp [plan, ho, Owner.todo]) id
  · exact local_refl h

theorem plan_dropping {p : Session q Addr} {d : DropStep} {rest : List DropStep}
    (ho : p.owner = .dropping (d :: rest)) :
    p.plan = if d.OfRegistration then d :: rest.filter DropStep.OfRegistration
      else rest.filter DropStep.OfRegistration := by
  simp [plan, ho, Owner.todo, List.filter_cons]

/-- The removal from the table leaves the cancellation and the release. -/
theorem plan_unregister {p : Session q Addr} (h : p.Planned) {rest : List DropStep}
    (ho : p.owner = .dropping (.unregister :: rest)) :
    rest.filter DropStep.OfRegistration = [.cancel, .release] := by
  have hp := plan_dropping ho
  simp only [DropStep.OfRegistration, if_true] at hp
  rcases h.cases with hc | hc | hc | hc <;> rw [hp] at hc <;> simp at hc
  exact hc

theorem plan_release {p : Session q Addr} (h : p.Planned) {rest : List DropStep}
    (ho : p.owner = .dropping (.release :: rest)) :
    rest.filter DropStep.OfRegistration = [] := by
  have hp := plan_dropping ho
  simp only [DropStep.OfRegistration, if_true] at hp
  rcases h.cases with hc | hc | hc | hc <;> rw [hp] at hc <;> simp at hc
  simpa using hc

/-- A step of the drop, the removal and the release apart. -/
theorem local_dropLocal {p : Session q Addr} (h : p.Planned) {d : DropStep} {rest : List DropStep}
    (ho : p.owner = .dropping (d :: rest)) (hu : d ≠ .unregister) (hr : d ≠ .release) :
    Local p (p.dropLocal d rest) := by
  have hp := plan_dropping ho
  cases d with
  | unregister => exact absurd rfl hu
  | release => exact absurd rfl hr
  | close => exact local_of_plan h rfl hp.symm fun _ => rfl
  | drain =>
    refine local_of_plan h rfl ?_ id
    have hcount : (p.queue.closeAndDrain.1.map DropStep.count).filter DropStep.OfRegistration = [] := by
      simp [DropStep.OfRegistration]
    simp [dropLocal, plan, Owner.todo, List.filter_append, hcount, ho, DropStep.OfRegistration]
  | count datagram => exact local_of_plan h rfl hp.symm id
  | inner => exact local_of_plan h rfl hp.symm id
  | cancel =>
    -- the registration is out of the table already, and keeps its slot
    have hp' : (p.dropLocal .cancel rest).plan = rest.filter DropStep.OfRegistration := rfl
    simp only [DropStep.OfRegistration, if_true] at hp
    have hrest : rest.filter DropStep.OfRegistration = [.release] := by
      rcases h.cases with hc | hc | hc | hc <;> rw [hp] at hc <;> simp at hc
      exact hc
    refine ⟨rfl, ?_, ?_, fun _ => rfl, ?_⟩
    · rw [Bool.eq_iff_iff, registered_iff, registered_iff, hp', hp, hrest]
      simp
    · rw [Bool.eq_iff_iff, holdsSlot_iff, holdsSlot_iff, hp', hp, hrest]
      simp
    · rw [Planned, hp', hrest]
      exact ⟨[.unregister, .cancel], rfl⟩

end Session

/-! ### The invariant -/

namespace UdpPeers

variable {o : UdpOptions} {Addr : Type*}

/-- The registrations whose drop has not begun. -/
def live (s : UdpPeers o Addr) : ℕ := s.sessions.countP Session.Registered

/-- The registrations out of the table whose slot is not back yet. -/
def releasing (s : UdpPeers o Addr) : ℕ :=
  s.sessions.countP fun p => p.HoldsSlot && !p.Registered

theorem getElem?_update (s : UdpPeers o Addr) (i : ℕ)
    (f : Session o.limits Addr → Session o.limits Addr) (j : ℕ) :
    (s.update i f).sessions[j]? = (s.sessions[j]?).map fun p => if i = j then f p else p :=
  List.getElem?_modify f i s.sessions j

theorem sessions_update_self {s : UdpPeers o Addr} {i : ℕ} {p : Session o.limits Addr}
    (hp : s.sessions[i]? = some p) (f : Session o.limits Addr → Session o.limits Addr) :
    (s.update i f).sessions[i]? = some (f p) := by
  rw [getElem?_update, hp]
  simp

theorem sessions_update_ne {s : UdpPeers o Addr} {i j : ℕ} (hij : j ≠ i)
    (f : Session o.limits Addr → Session o.limits Addr) :
    (s.update i f).sessions[j]? = s.sessions[j]? := by
  rw [getElem?_update]
  cases s.sessions[j]? with
  | none => rfl
  | some p => simp [Ne.symm hij]

/-- No drop is under way. -/
def AtRest (s : UdpPeers o Addr) : Prop :=
  ∀ p ∈ s.sessions, ∀ d rest, p.owner ≠ .dropping (d :: rest)

theorem releasing_of_atRest {s : UdpPeers o Addr} (h : s.AtRest) : s.releasing = 0 := by
  refine List.countP_eq_zero.mpr fun p hp => ?_
  cases ho : p.owner with
  | stream => simp [Session.Registered, ho, Owner.todo, dropStream]
  | reading r => simp [Session.Registered, ho, Owner.todo, dropRead]
  | dropping todo =>
    cases todo with
    | nil => simp [Session.HoldsSlot, ho, Owner.todo]
    | cons d rest => exact absurd ho (h p hp d rest)

variable [DecidableEq Addr]

/-- What every step keeps. -/
structure Good (s : UdpPeers o Addr) : Prop where
  planned : ∀ (i : ℕ) (p : Session o.limits Addr), s.sessions[i]? = some p → p.Planned
  slots : s.free + s.sessions.countP Session.HoldsSlot = o.maxPeers
  entry : ∀ a i, s.table.lookup a = some i →
    ∃ p : Session o.limits Addr, s.sessions[i]? = some p ∧ p.address = a ∧ p.Registered = true
  gone : s.alive = false → s.table = ∅
  current : ∀ (i : ℕ) (p : Session o.limits Addr), s.sessions[i]? = some p → p.Registered = true →
    p.closed = false →
    s.alive = true ∧ s.table.lookup p.address = some i

theorem good_new (o : UdpOptions) (Addr : Type*) [DecidableEq Addr] : Good (new o Addr) :=
  ⟨by simp [new], by simp [new], by simp [new], by simp [new], by simp [new]⟩

/-- A change of sessions that keeps each of them in its place. -/
theorem Good.sessions {s s' : UdpPeers o Addr} (h : Good s) (halive : s'.alive = s.alive)
    (htable : s'.table = s.table) (hfree : s'.free = s.free)
    (hcount : s'.sessions.countP Session.HoldsSlot = s.sessions.countP Session.HoldsSlot)
    (hback : ∀ (i : ℕ) p', s'.sessions[i]? = some p' → ∃ p, s.sessions[i]? = some p ∧ Session.Local p p')
    (hforth : ∀ (i : ℕ) p, s.sessions[i]? = some p → ∃ p', s'.sessions[i]? = some p' ∧ Session.Local p p') :
    Good s' := by
  refine ⟨?_, by rw [hfree, hcount]; exact h.slots, ?_, by rw [halive, htable]; exact h.gone, ?_⟩
  · intro i p' hp'
    obtain ⟨p, -, hl⟩ := hback i p' hp'
    exact hl.planned
  · intro a i hl
    rw [htable] at hl
    obtain ⟨p, hp, ha, hr⟩ := h.entry a i hl
    obtain ⟨p', hp', hloc⟩ := hforth i p hp
    exact ⟨p', hp', hloc.address.trans ha, hloc.registered.trans hr⟩
  · intro i p' hp' hr hc
    obtain ⟨p, hp, hloc⟩ := hback i p' hp'
    rw [halive, htable, hloc.address]
    refine h.current i p hp (hloc.registered ▸ hr) ?_
    cases hpc : p.closed with
    | false => rfl
    | true =>
      rw [hloc.closed hpc] at hc
      cases hc

/-- A step of one session that touches neither the table nor the slots. -/
theorem Good.update {s : UdpPeers o Addr} (h : Good s) {i : ℕ}
    {f : Session o.limits Addr → Session o.limits Addr}
    (hf : ∀ p, s.sessions[i]? = some p → Session.Planned p → Session.Local p (f p)) : Good (s.update i f) := by
  have hloc : ∀ (j : ℕ) p, s.sessions[j]? = some p → Session.Local p (if i = j then f p else p) := by
    intro j p hp
    split
    · rename_i hij
      subst hij
      exact hf p hp (h.planned i p hp)
    · exact Session.local_refl (h.planned j p hp)
  refine h.sessions rfl rfl rfl ?_ ?_ ?_
  · cases hp : s.sessions[i]? with
    | none =>
      simp only [UdpPeers.update]
      rw [List.modify_eq_self (by simpa using hp)]
    | some p =>
      have hcount := countP_modify Session.HoldsSlot f s.sessions i hp
      rw [(hf p hp (h.planned i p hp)).holdsSlot] at hcount
      simp only [UdpPeers.update]
      omega
  · intro j p' hp'
    rw [getElem?_update] at hp'
    obtain ⟨p, hp, rfl⟩ := Option.map_eq_some_iff.mp hp'
    exact ⟨p, hp, hloc j p hp⟩
  · intro j p hp
    exact ⟨_, by rw [getElem?_update, hp]; rfl, hloc j p hp⟩

/-- A new session enters the table, where no open one stands for its address. -/
theorem Good.append {s : UdpPeers o Addr} (h : Good s) (halive : s.alive = true)
    (hfree : s.free ≠ 0) {address : Addr}
    (hnone : ∀ (i : ℕ) p, s.table.lookup address = some i → s.sessions[i]? = some p → p.closed = true)
    {p : Session o.limits Addr} (ha : p.address = address) (ho : p.owner = .stream) :
    Good { s with
      free := s.free - 1
      table := s.table.insert address s.sessions.length
      sessions := s.sessions ++ [p] } := by
  have hplan : p.plan = [.unregister, .cancel, .release] := by rw [Session.plan, ho]; rfl
  have hslot : p.HoldsSlot = true := by rw [Session.holdsSlot_iff, hplan]; simp
  have hreg : p.Registered = true := by rw [Session.registered_iff, hplan]; simp
  have hat : ∀ (i : ℕ) r, (s.sessions ++ [p])[i]? = some r →
      s.sessions[i]? = some r ∨ i = s.sessions.length ∧ r = p :=
    fun _ _ hr => getElem?_concat_cases hr
  have hold : ∀ (i : ℕ) r, s.sessions[i]? = some r → (s.sessions ++ [p])[i]? = some r := by
    intro i r hr
    rw [List.getElem?_append_left (List.getElem?_eq_some_iff.mp hr).1]
    exact hr
  refine ⟨?_, ?_, ?_, fun hd => ?_, ?_⟩
  · intro i r hr
    rcases hat i r hr with hr | ⟨-, rfl⟩
    · exact h.planned i r hr
    · rw [Session.Planned, hplan]
  · have hs := h.slots
    simp only [List.countP_append, List.countP_singleton, hslot, if_true]
    omega
  · intro a i hl
    by_cases haa : a = address
    · subst haa
      rw [AList.lookup_insert] at hl
      cases hl
      exact ⟨p, by simp, ha, hreg⟩
    · rw [AList.lookup_insert_ne haa] at hl
      obtain ⟨r, hr, hra, hrr⟩ := h.entry a i hl
      exact ⟨r, hold i r hr, hra, hrr⟩
  · rw [show s.alive = false from hd] at halive
    cases halive
  · intro i r hr hrr hrc
    rcases hat i r hr with hr | ⟨rfl, rfl⟩
    · obtain ⟨-, hl⟩ := h.current i r hr hrr hrc
      refine ⟨halive, ?_⟩
      -- an open session of the address would have been the entry
      have hne : r.address ≠ address := by
        intro haa
        rw [haa] at hl
        rw [hnone i r hl hr] at hrc
        cases hrc
      rw [AList.lookup_insert_ne hne]
      exact hl
    · exact ⟨halive, by rw [ha, AList.lookup_insert]⟩

/-- An entry that is not open is of a closed session. -/
theorem closed_of_open? {s : UdpPeers o Addr} {address : Addr} (h : s.open? address = none) {i : ℕ}
    {p : Session o.limits Addr} (hl : s.table.lookup address = some i)
    (hp : s.sessions[i]? = some p) : p.closed = true := by
  simp only [open?, hl, hp] at h
  split at h
  · assumption
  · cases h

theorem good_accept {s : UdpPeers o Addr} (h : Good s) (halive : s.alive = true)
    {address : Addr} (hnone : s.open? address = none) (bytes : Datagram) :
    Good (s.accept bytes address) := by
  unfold accept
  split
  · exact h
  rename_i hfree
  split
  · exact h
  · rename_i evicted queue htry
    dsimp only
    split
    · rename_i k hk
      -- the closed session's `Peer` goes first
      have hg : Good (s.update k Session.dropSender) :=
        h.update fun p _ hp => Session.local_dropSender hp
      have hclosed : ∀ (i : ℕ) p, s.table.lookup address = some i →
          (s.update k Session.dropSender).sessions[i]? = some p → p.closed = true := by
        intro i p hl hp
        rw [getElem?_update] at hp
        obtain ⟨r, hr, rfl⟩ := Option.map_eq_some_iff.mp hp
        have hc := closed_of_open? hnone hl hr
        split
        · exact hc
        · exact hc
      have hlen : (s.update k Session.dropSender).sessions.length = s.sessions.length :=
        List.length_modify _ _ _
      rw [← hlen]
      exact hg.append halive hfree hclosed rfl rfl
    · exact h.append (p := .accepted address _ bytes queue) halive hfree
        (fun i p hl hp => closed_of_open? hnone hl hp) rfl rfl

/-- The lock is no part of the invariant. -/
theorem Good.locked {s : UdpPeers o Addr} (h : Good s) (d : Option Push) :
    Good (s.lock d) :=
  ⟨h.planned, h.slots, h.entry, h.gone, h.current⟩

theorem good_dispatch {s : UdpPeers o Addr} (h : Good s) (bytes : Datagram) (address : Addr) :
    Good (s.dispatch bytes address) := by
  unfold dispatch
  split
  · exact h
  rename_i hfree
  have halive : s.alive = true := by
    cases ha : s.alive with
    | true => rfl
    | false => exact absurd (Or.inl ha) hfree
  split
  · exact h
  split
  · refine (h.update fun p _ hp => ?_).locked _
    exact Session.local_of_plan hp rfl rfl id
  · rename_i hnone
    split
    · exact h
    · exact good_accept h halive hnone bytes

theorem good_push {s : UdpPeers o Addr} (h : Good s) : Good s.push := by
  unfold push
  split
  · exact h
  · split
    · exact h
    · split
      · refine (h.update fun p _ hp => ?_).locked _
        exact Session.local_of_plan hp rfl rfl id
      · exact h.locked _
  · exact (h.update fun p _ hp => Session.local_push hp _).locked _

/-- The registration of session `i` takes its next step: the removal from the
table, or the release of the slot. -/
theorem Good.retire {s s' : UdpPeers o Addr} (h : Good s) {i : ℕ} {p p' : Session o.limits Addr}
    (hp : s.sessions[i]? = some p) (hi : s'.sessions[i]? = some p')
    (hj : ∀ j, j ≠ i → s'.sessions[j]? = s.sessions[j]?) (hplan : p'.Planned)
    (hreg : p'.Registered = false) (hslots : s'.free + s'.sessions.countP Session.HoldsSlot = o.maxPeers)
    (halive : s'.alive = s.alive)
    (htable : ∀ a k, s'.table.lookup a = some k → s.table.lookup a = some k ∧ k ≠ i)
    (hkept : ∀ a k, s.table.lookup a = some k → k ≠ i → s'.table.lookup a = some k)
    (hempty : s.table = ∅ → s'.table = ∅) : Good s' := by
  refine ⟨?_, hslots, ?_, ?_, ?_⟩
  · intro j r hr
    by_cases hji : j = i
    · subst hji
      rw [hi] at hr
      cases hr
      exact hplan
    · rw [hj j hji] at hr
      exact h.planned j r hr
  · intro a k hl
    obtain ⟨hl, hki⟩ := htable a k hl
    obtain ⟨r, hr, hra, hrr⟩ := h.entry a k hl
    exact ⟨r, by rw [hj k hki]; exact hr, hra, hrr⟩
  · rw [halive]
    exact fun ha => hempty (h.gone ha)
  · intro j r hr hrr hrc
    by_cases hji : j = i
    · subst hji
      rw [hi] at hr
      cases hr
      rw [hreg] at hrr
      cases hrr
    · rw [hj j hji] at hr
      obtain ⟨ha, hl⟩ := h.current j r hr hrr hrc
      exact ⟨halive.trans ha, hkept _ j hl hji⟩

/-- **The removal.** The session `i` is out of the table, if it was its own
entry; and it was, if it had one. -/
theorem good_unregister {s s' : UdpPeers o Addr} (h : Good s) {i : ℕ} {p p' : Session o.limits Addr}
    {rest : List DropStep} (hp : s.sessions[i]? = some p)
    (ho : p.owner = .dropping (.unregister :: rest)) (ho' : p'.owner = .dropping rest)
    (hi : s'.sessions[i]? = some p') (hj : ∀ j, j ≠ i → s'.sessions[j]? = s.sessions[j]?)
    (hcount : s'.sessions.countP Session.HoldsSlot = s.sessions.countP Session.HoldsSlot)
    (hfree : s'.free = s.free) (halive : s'.alive = s.alive)
    (htable : s'.table = if s.alive ∧ s.table.lookup p.address = some i
      then s.table.erase p.address else s.table) : Good s' := by
  have hrest := Session.plan_unregister (h.planned i p hp) ho
  have hplan : p'.plan = [.cancel, .release] := by rw [Session.plan, ho', ← hrest]; rfl
  have hreg : p'.Registered = false := by
    rw [← Bool.not_eq_true, Session.registered_iff, hplan]
    simp
  -- an entry of `i` stands under its own address, in a table that is there
  have hown : ∀ a, s.table.lookup a = some i → a = p.address ∧ s.alive = true := by
    intro a hl
    obtain ⟨r, hr, hra, -⟩ := h.entry a i hl
    rw [hp] at hr
    cases hr
    refine ⟨hra.symm, ?_⟩
    cases ha : s.alive with
    | true => rfl
    | false =>
      rw [h.gone ha] at hl
      simp at hl
  refine h.retire hp hi hj ⟨[.unregister], by rw [hplan]; rfl⟩ hreg
    (by rw [hfree, hcount]; exact h.slots) halive ?_ ?_ ?_
  · intro a k hl
    rw [htable] at hl
    split at hl
    · rename_i hc
      have hne : a ≠ p.address := by
        rintro rfl
        rw [AList.lookup_erase] at hl
        cases hl
      rw [AList.lookup_erase_ne hne] at hl
      refine ⟨hl, ?_⟩
      rintro rfl
      exact hne (hown a hl).1
    · rename_i hc
      refine ⟨hl, ?_⟩
      rintro rfl
      obtain ⟨rfl, ha⟩ := hown a hl
      exact hc ⟨ha, hl⟩
  · intro a k hl hki
    rw [htable]
    split
    · rename_i hc
      have hne : a ≠ p.address := by
        rintro rfl
        rw [hc.2] at hl
        exact hki (Option.some.inj hl).symm
      rw [AList.lookup_erase_ne hne]
      exact hl
    · exact hl
  · intro he
    rw [htable]
    split
    · rename_i hc
      rw [he] at hc
      simp at hc
    · exact he

theorem good_dropStep {s : UdpPeers o Addr} (h : Good s) (i : ℕ) : Good (s.dropStep i) := by
  unfold dropStep
  split
  · exact h
  rename_i p hp
  split
  · rename_i rest ho
    have hslot : p.HoldsSlot = (p.proceed rest).HoldsSlot := by
      have hrest := Session.plan_unregister (h.planned i p hp) ho
      rw [Bool.eq_iff_iff, Session.holdsSlot_iff, Session.holdsSlot_iff, Session.plan_dropping ho]
      simp [Session.plan, Session.proceed, Owner.todo, hrest, DropStep.OfRegistration]
    have hcount : ∀ f : Session o.limits Addr → Session o.limits Addr,
        (f p).HoldsSlot = (p.proceed rest).HoldsSlot →
        (s.sessions.modify i f).countP Session.HoldsSlot = s.sessions.countP Session.HoldsSlot := by
      intro f hf
      have hc := countP_modify Session.HoldsSlot f s.sessions i hp
      rw [hf, hslot] at hc
      omega
    split
    · exact h
    split
    · rename_i hc
      refine good_unregister h hp ho rfl
        (sessions_update_self (s := { s with table := s.table.erase p.address }) hp _)
        (fun j hji => sessions_update_ne (s := { s with table := s.table.erase p.address }) hji _)
        (hcount _ rfl) rfl rfl ?_
      rw [if_pos hc]
      rfl
    · rename_i hc
      refine good_unregister h hp ho rfl (sessions_update_self hp _)
        (fun j hji => sessions_update_ne hji _) (hcount _ rfl) rfl rfl ?_
      rw [if_neg hc]
      rfl
  · rename_i rest ho
    have hrest := Session.plan_release (h.planned i p hp) ho
    have hplan : (p.proceed rest).plan = [] := hrest
    have hnot : p.Registered = false := by
      rw [← Bool.not_eq_true, Session.registered_iff, Session.plan_dropping ho]
      simp [DropStep.OfRegistration, hrest]
    have hslot : p.HoldsSlot = true := by
      rw [Session.holdsSlot_iff, Session.plan_dropping ho]
      simp [DropStep.OfRegistration]
    have hslot' : (p.proceed rest).HoldsSlot = false := by
      rw [← Bool.not_eq_true, Session.holdsSlot_iff, hplan]
      simp
    refine h.retire hp (sessions_update_self (s := { s with free := s.free + 1 }) hp _)
      (fun j hji => sessions_update_ne (s := { s with free := s.free + 1 }) hji _)
      (by rw [Session.Planned, hplan]; exact List.nil_suffix) ?_ ?_ rfl ?_ (fun a k hl _ => hl) id
    · rw [← Bool.not_eq_true, Session.registered_iff, hplan]
      simp
    · have hc := countP_modify Session.HoldsSlot (fun p => p.proceed rest) s.sessions i hp
      have hs := h.slots
      simp only [hslot, hslot', if_true, Bool.false_eq_true, if_false] at hc
      simp only [update]
      omega
    · intro a k hl
      refine ⟨hl, ?_⟩
      rintro rfl
      obtain ⟨r, hr, -, hrr⟩ := h.entry a k hl
      rw [hp] at hr
      cases hr
      rw [hnot] at hrr
      cases hrr
  · rename_i d rest hu hr ho
    refine h.update fun r hr' hpl => ?_
    rw [hp] at hr'
    cases hr'
    exact Session.local_dropLocal hpl ho hu hr
  · exact h

/-- Every session in the table is closed with the listener. -/
theorem good_dropListener {s : UdpPeers o Addr} (h : Good s) : Good s.dropListener := by
  unfold dropListener
  split
  · exact h
  have hat : ∀ (i : ℕ) p', (s.sessions.mapIdx fun i p =>
      if s.table.entries.any (fun e => e.2 = i) then { p.dropSender with closed := true } else p)[i]? =
        some p' → ∃ p, s.sessions[i]? = some p ∧ p'.plan = p.plan ∧ p'.Registered = p.Registered ∧
          p'.address = p.address ∧
          (p'.closed = false → s.table.entries.any (fun e => e.2 = i) = false ∧ p.closed = false) := by
    intro i p' hp'
    rw [List.getElem?_mapIdx] at hp'
    obtain ⟨p, hp, rfl⟩ := Option.map_eq_some_iff.mp hp'
    refine ⟨p, hp, ?_⟩
    split
    · exact ⟨rfl, rfl, rfl, fun hc => by cases hc⟩
    · rename_i hin
      exact ⟨rfl, rfl, rfl, fun hc => ⟨Bool.eq_false_iff.mpr hin, hc⟩⟩
  refine ⟨?_, ?_, fun a i hl => ?_, fun _ => rfl, ?_⟩
  · intro i p' hp'
    obtain ⟨p, hp, hplan, -⟩ := hat i p' hp'
    rw [Session.Planned, hplan]
    exact h.planned i p hp
  · have hs := h.slots
    have hcount : (s.sessions.mapIdx fun i p => if s.table.entries.any (fun e => e.2 = i)
        then { p.dropSender with closed := true } else p).countP Session.HoldsSlot =
        s.sessions.countP Session.HoldsSlot := by
      refine countP_mapIdx _ _ _ fun i p => ?_
      split <;> rfl
    simp only [hcount]
    exact hs
  · simp at hl
  · intro i p' hp' hr hc
    obtain ⟨p, hp, -, hreg, -, hclosed⟩ := hat i p' hp'
    obtain ⟨hnot, hpc⟩ := hclosed hc
    obtain ⟨-, hl⟩ := h.current i p hp (hreg ▸ hr) hpc
    have hmem := AList.mem_lookup_iff.mp hl
    have hin : s.table.entries.any (fun e => e.2 = i) = true := List.any_eq_true.mpr ⟨_, hmem, by simp⟩
    rw [hin] at hnot
    cases hnot

theorem good_step {s : UdpPeers o Addr} (h : Good s) (a : Act Addr) : Good (s.step a) := by
  cases a with
  | dispatch bytes address => exact good_dispatch h bytes address
  | push => exact good_push h
  | split i => exact h.update fun p _ hp => Session.local_split hp
  | poll i => exact h.update fun p _ hp => Session.local_poll hp
  | next i => exact h.update fun p _ hp => Session.local_next hp
  | decode i limit decodes => exact h.update fun p _ hp => Session.local_decode hp limit decodes
  | close i => exact h.update fun p _ hp => Session.local_close hp
  | dropOwner i => exact h.update fun p _ hp => Session.local_dropOwner hp
  | dropStep i => exact good_dropStep h i
  | dropWrite i => exact h
  | dropListener => exact good_dropListener h

theorem good_run (o : UdpOptions) (as : List (Act Addr)) : Good (run step (new o Addr) as) :=
  run_inv (I := Good) (fun _ a h => good_step h a) as (good_new o Addr)

/-! ### The results -/

/-- Every slot that is not free is with a live registration, or on its way
back. -/
theorem Good.slots_eq {s : UdpPeers o Addr} (h : Good s) :
    s.free + s.live + s.releasing = o.maxPeers := by
  have hsplit : s.sessions.countP Session.HoldsSlot = s.live + s.releasing := by
    have hreg : s.live = s.sessions.countP fun p => p.HoldsSlot && p.Registered := by
      refine List.countP_congr fun p hp => ?_
      obtain ⟨i, hi⟩ := List.mem_iff_getElem?.mp hp
      have hs := (h.planned i p hi).holdsSlot
      cases hr : p.Registered with
      | false => simp
      | true => simp [hs hr]
    rw [hreg, releasing]
    induction s.sessions with
    | nil => rfl
    | cons p l ih =>
      simp only [List.countP_cons, ih]
      cases p.HoldsSlot <;> cases p.Registered <;> simp <;> omega
  have hs := h.slots
  omega

/-- Distinct entries are distinct sessions, all of them registered. -/
theorem Good.entries_le {s : UdpPeers o Addr} (h : Good s) : s.table.entries.length ≤ s.live := by
  have hmem : ∀ e ∈ s.table.entries, ∃ p, s.sessions[e.2]? = some p ∧ p.address = e.1 ∧
      p.Registered = true := fun e he => h.entry e.1 e.2 (AList.mem_lookup_iff.mpr he)
  have hnodup : (s.table.entries.map fun e => e.2).Nodup := by
    refine List.Nodup.map_on ?_ s.table.nodupKeys.nodup
    intro e he e' he' hee
    obtain ⟨p, hp, ha, -⟩ := hmem e he
    obtain ⟨p', hp', ha', -⟩ := hmem e' he'
    rw [hee, hp'] at hp
    cases hp
    exact Sigma.ext (ha.symm.trans ha') (heq_of_eq hee)
  have hsub : (s.table.entries.map fun e => e.2) ⊆
      (List.range s.sessions.length).filter fun i => (s.sessions[i]?).any Session.Registered := by
    intro i hi
    obtain ⟨e, he, rfl⟩ := List.mem_map.mp hi
    obtain ⟨p, hp, -, hr⟩ := hmem e he
    refine List.mem_filter.mpr ⟨List.mem_range.mpr (List.getElem?_eq_some_iff.mp hp).1, ?_⟩
    simp [hp, hr]
  have hle := (List.subperm_of_subset hnodup hsub).length_le
  rw [List.length_map] at hle
  rw [live, countP_eq_length_filter_range]
  exact hle

/-- A new queue takes a datagram that both its limits allow. -/
theorem trySend_new {bytes : Datagram} (hcap : o.receiveQueueCapacity ≠ 0)
    (hlen : bytes.length ≤ o.receiveQueueBytes) :
    ∃ queue, (Lossy.Queue.new : Lossy.Queue o.limits Datagram).trySend bytes bytes.length =
      (.ok [], queue) := by
  have hok : (Lossy.trySendWhere o.limits (Lossy.State.new : Lossy.State Datagram) bytes
      bytes.length fun _ => true).1 = .ok [] := by
    have hlt : ¬ o.receiveQueueBytes < bytes.length := by omega
    cases hpol : o.receiveQueueOverflow <;>
      simp [Lossy.trySendWhere, Lossy.State.new, UdpOptions.limits, hpol, hcap, hlt,
        Lossy.evictScan, Lossy.pushBack]
  exact ⟨_, Prod.ext hok rfl⟩

theorem length_accept (s : UdpPeers o Addr) {bytes : Datagram} (address : Addr)
    (hcap : o.receiveQueueCapacity ≠ 0) (hlen : bytes.length ≤ o.receiveQueueBytes)
    (hfree : s.free ≠ 0) : (s.accept bytes address).sessions.length = s.sessions.length + 1 := by
  obtain ⟨queue, hq⟩ := trySend_new hcap hlen
  simp only [accept, hfree, if_false, hq]
  split <;> simp

/-- The table and the slots after a drop step: only the session's own entry
can be gone. -/
theorem lookup_dropStep {s : UdpPeers o Addr} {i k : ℕ} {a : Addr}
    (hl : s.table.lookup a = some k) (hki : k ≠ i) :
    (s.dropStep i).table.lookup a = some k := by
  unfold dropStep
  split
  · exact hl
  rename_i p hp
  split
  · split
    · exact hl
    split
    · rename_i hc
      have hne : a ≠ p.address := by
        rintro rfl
        rw [hc.2] at hl
        exact hki (Option.some.inj hl).symm
      exact (AList.lookup_erase_ne hne).trans hl
    · exact hl
  · exact hl
  · exact hl
  · exact hl

/-- **The peer table.** After any steps of any sessions: the free slots and the
live registrations are `maxPeers`, up to the slots on their way back, of which
there are none between drops; the table has no more entries than there are live
registrations; an address has at most one session that is open and registered,
which is the table's entry while there is a listener; the drop of a
registration removes no other session's entry; and a dispatch that creates no
session, where none is open for its address, changes neither the table nor the
slots, and fails for want of a slot and never after it. -/
theorem peer_table (o : UdpOptions) (as : List (Act Addr)) :
    let s := run step (new o Addr) as
    s.free + s.live + s.releasing = o.maxPeers ∧
    (s.AtRest → s.free + s.live = o.maxPeers) ∧
    s.table.entries.length ≤ s.live ∧
    (∀ (i j : ℕ) (p r : Session o.limits Addr), s.sessions[i]? = some p → s.sessions[j]? = some r →
      p.address = r.address → p.Registered = true → r.Registered = true → p.closed = false →
      r.closed = false → i = j) ∧
    (∀ (i : ℕ) (p : Session o.limits Addr), s.sessions[i]? = some p → p.Registered = true →
      p.closed = false → s.alive = true → s.table.lookup p.address = some i) ∧
    (∀ i k a, s.table.lookup a = some k → k ≠ i → (s.dropStep i).table.lookup a = some k) ∧
    (∀ bytes address, (∀ p ∈ s.sessions, p.address = address → p.Registered = true →
        p.closed = true) →
      (s.dispatch bytes address).sessions.length = s.sessions.length →
      (s.dispatch bytes address).table = s.table ∧ (s.dispatch bytes address).free = s.free) ∧
    (∀ bytes address, o.receiveQueueCapacity ≠ 0 → bytes.length ≤ o.receiveQueueBytes →
      s.free ≠ 0 → (s.accept bytes address).sessions.length = s.sessions.length + 1) := by
  intro s
  have h : Good s := good_run o as
  have hslots := h.slots_eq
  refine ⟨hslots, fun hr => ?_, h.entries_le, ?_, fun i p hp hreg hc _ => (h.current i p hp hreg hc).2,
    fun i k a hl hki => lookup_dropStep hl hki, ?_,
    fun bytes address hcap hlen hfree => length_accept s address hcap hlen hfree⟩
  · rw [releasing_of_atRest hr] at hslots
    exact hslots
  · intro i j p r hp hr haddr hpr hrr hpc hrc
    have h1 := (h.current i p hp hpr hpc).2
    have h2 := (h.current j r hr hrr hrc).2
    rw [haddr, h2] at h1
    exact (Option.some.inj h1).symm
  · intro bytes address hclosed hlen
    have hnone : s.open? address = none := by
      cases hop : s.open? address with
      | none => rfl
      | some i =>
        simp only [open?] at hop
        split at hop
        · rename_i k hk
          obtain ⟨p, hp, ha, hreg⟩ := h.entry address k hk
          have hc := hclosed p (List.mem_of_getElem? hp) ha hreg
          simp [hp, hc] at hop
        · cases hop
    simp only [dispatch, hnone] at hlen ⊢
    split
    · exact ⟨rfl, rfl⟩
    split
    · exact ⟨rfl, rfl⟩
    split
    · exact ⟨rfl, rfl⟩
    · rename_i h1 h2 h3
      rw [if_neg h1, if_neg h2, if_neg h3] at hlen
      push Not at h3
      by_cases hfree : s.free = 0
      · simp [accept, hfree]
      · have hl := length_accept s address h3.1 h3.2 hfree
        omega

end UdpPeers
end Slinet
