/-
# Where received datagrams go

Every datagram that a session has counted as received is still in its raw
queue, on its way through a push, a `receive` or a drop, returned, or counted
once with a reason; and those returned come in the order in which they were
received (`Session.Routed`). The queue of a session that is dropped is drained
twice, and the second time it is empty because the first has closed it, in
whichever order the fields are dropped.

`routing` is the result over all runs of the listener's machine.
-/
import Slinet.UdpTable

namespace Slinet

/-- The drains of a session's drop. -/
def DropStep.OfQueue : DropStep → Bool
  | drain => true
  | inner => true
  | _ => false

def DropStep.counted? : DropStep → Option Datagram
  | count datagram => some datagram
  | _ => none

/-- The datagram that a call of `receive` has taken. -/
def Owner.hand : Owner → List Datagram
  | reading (.hand datagram) => [datagram]
  | _ => []

/-- The drained datagrams that the drop has still to count. -/
def Owner.counting : Owner → List Datagram
  | dropping todo => todo.filterMap DropStep.counted?
  | _ => []

namespace Session

variable {q : Lossy.Limits} {Addr : Type*}

/-- Where the received datagrams are; `pushing` is with the listener. -/
def places (p : Session q Addr) (pushing : List Datagram) : List Datagram :=
  p.queue.values ++ pushing ++ p.owner.hand ++ p.owner.counting ++ p.returned ++
    p.drops.map Prod.snd

/-- Those returned and those that may still be, in order. -/
def line (p : Session q Addr) (pushing : List Datagram) : List Datagram :=
  p.returned ++ p.owner.hand ++ p.queue.values ++ pushing

/-- What every step keeps of session `i`. -/
structure Routed (i : ℕ) (pushing : List Datagram) (p : Session q Addr) : Prop where
  fates : (p.received.map Arrival.bytes).Perm (p.places pushing)
  order : (p.line pushing).Sublist (p.received.map Arrival.bytes)
  origin : ∀ a ∈ p.received, a.address = p.address ∧ a.current = some i
  first : ∃ rest, p.received.map Arrival.bytes = p.created :: rest
  kept : p.lost = []
  drains : p.owner.todo.filter DropStep.OfQueue <:+ [.drain, .inner]
  shut : .drain ∉ p.owner.todo → p.queue.state.receiverOpen = false

/-- A step that receives nothing. -/
theorem Routed.move {i : ℕ} {pushing pushing' : List Datagram} {p p' : Session q Addr}
    (h : p.Routed i pushing) (hrecv : p'.received = p.received) (haddr : p'.address = p.address)
    (hcreated : p'.created = p.created) (hplaces : (p.places pushing).Perm (p'.places pushing'))
    (hline : (p'.line pushing').Sublist (p.line pushing)) (hlost : p'.lost = p.lost)
    (hdrains : p'.owner.todo.filter DropStep.OfQueue <:+ [.drain, .inner])
    (hshut : .drain ∉ p'.owner.todo → p'.queue.state.receiverOpen = false) :
    p'.Routed i pushing' := by
  refine ⟨?_, ?_, ?_, ?_, hlost.trans h.kept, hdrains, hshut⟩
  · rw [hrecv]
    exact h.fates.trans hplaces
  · rw [hrecv]
    exact hline.trans h.order
  · rw [hrecv, haddr]
    exact h.origin
  · rw [hrecv, hcreated]
    exact h.first

/-- A step that moves the owner, and with it at most the datagram in hand. -/
theorem Routed.goto {i : ℕ} {pushing : List Datagram} {p : Session q Addr} (h : p.Routed i pushing)
    {owner : Owner} {closed : Bool} (hhand : owner.hand = p.owner.hand)
    (hcount : owner.counting = p.owner.counting)
    (hdrains : owner.todo.filter DropStep.OfQueue <:+ [.drain, .inner])
    (hshut : .drain ∉ owner.todo → p.queue.state.receiverOpen = false) :
    Routed i pushing { p with owner := owner, closed := closed } := by
  refine h.move rfl rfl rfl ?_ ?_ rfl hdrains hshut
  · simp [places, hhand, hcount]
  · simp [line, hhand]

/-! ### The operations of a session -/

theorem routed_accepted {i : ℕ} (address : Addr) {bytes : Datagram} {queue : Lossy.Queue q Datagram}
    (hq : queue.values = [bytes]) : (accepted address (some i) bytes queue).Routed i [] := by
  refine ⟨?_, ?_, ?_, ⟨[], rfl⟩, rfl, ?_, ?_⟩
  · simp [accepted, places, hq, Owner.hand, Owner.counting]
  · simp [accepted, line, hq, Owner.hand]
  · simp [accepted]
  · exact List.suffix_rfl
  · simp [accepted, Owner.todo, dropStream]

theorem Routed.arrive {i : ℕ} {p : Session q Addr} (h : p.Routed i []) (bytes : Datagram) :
    (p.arrive ⟨p.address, some i, bytes⟩).Routed i [bytes] := by
  refine ⟨?_, ?_, ?_, ?_, h.kept, h.drains, h.shut⟩
  · refine List.perm_iff_count.mpr fun d => ?_
    have hc := h.fates.count_eq d
    simp only [places, Session.arrive, List.map_append, List.map_cons, List.map_nil,
      List.count_append, List.count_nil] at hc ⊢
    omega
  · have ho := h.order
    simp only [line, List.append_nil] at ho
    simp only [line, Session.arrive, List.map_append, List.map_cons, List.map_nil]
    exact ho.append (List.Sublist.refl [bytes])
  · intro a ha
    simp only [Session.arrive, List.mem_append, List.mem_singleton] at ha
    rcases ha with ha | rfl
    · exact h.origin a ha
    · exact ⟨rfl, rfl⟩
  · obtain ⟨rest, hr⟩ := h.first
    exact ⟨rest ++ [bytes], by simp [Session.arrive, hr]⟩

/-- The datagram that the listener holds is counted as dropped. -/
theorem Routed.drop_pushing {i : ℕ} {p : Session q Addr} {datagram : Datagram}
    (h : p.Routed i [datagram]) (reason : RawDrop) : (p.drop reason datagram).Routed i [] := by
  refine h.move rfl rfl rfl ?_ ?_ rfl h.drains h.shut
  · refine List.perm_iff_count.mpr fun d => ?_
    simp only [places, drop, List.map_append, List.map_cons, List.map_nil, List.count_append,
      List.count_nil]
    omega
  · simp only [line, drop, List.append_nil]
    exact List.sublist_append_left _ _

theorem Routed.push {i : ℕ} {p : Session q Addr} {datagram : Datagram}
    (h : p.Routed i [datagram]) : (p.push datagram).Routed i [] := by
  unfold Session.push
  rcases p.queue.trySend_spec datagram datagram.length with
    ⟨evicted, queue, he, hopen, -, -, hv, -⟩ | ⟨he, -⟩ | ⟨he, -⟩
  · rw [he]
    refine h.move rfl rfl rfl ?_ ?_ rfl h.drains fun hd => ?_
    · refine List.perm_iff_count.mpr fun d => ?_
      have hc := congrArg (List.count d) hv
      simp only [places, List.map_append, List.map_map, Function.comp_def, List.map_id',
        List.count_append, List.count_nil] at hc ⊢
      omega
    · -- what an eviction takes from the front only shortens the line
      simp only [line, List.append_nil, List.append_assoc]
      refine (List.Sublist.refl _).append ((List.Sublist.refl _).append ?_)
      rw [← hv]
      exact List.sublist_append_right _ _
    · rw [h.shut hd] at hopen
      cases hopen
  · rw [he]
    exact h.drop_pushing _
  · rw [he]
    exact h.drop_pushing _

theorem Routed.dropSender {i : ℕ} {pushing : List Datagram} {p : Session q Addr}
    (h : p.Routed i pushing) : p.dropSender.Routed i pushing :=
  h.move rfl rfl rfl (.refl _) (.refl _) rfl h.drains h.shut

theorem Routed.poll {i : ℕ} {pushing : List Datagram} {p : Session q Addr}
    (h : p.Routed i pushing) : p.poll.Routed i pushing := by
  unfold Session.poll
  split
  · rename_i ho
    split
    · exact h
    · have hd := h.drains
      have hs := h.shut
      rw [ho] at hd hs
      exact h.goto (by simp [ho, Owner.hand]) (by simp [ho, Owner.counting]) hd hs
  · exact h

theorem Routed.next {i : ℕ} {pushing : List Datagram} {p : Session q Addr}
    (h : p.Routed i pushing) : p.next.Routed i pushing := by
  unfold Session.next
  split
  · rename_i ho
    have hd := h.drains
    have hs := h.shut
    rw [ho] at hd hs
    have hh : p.owner.hand = [] := by rw [ho]; rfl
    have hc : p.owner.counting = [] := by rw [ho]; rfl
    rcases p.queue.tryRecvIf_spec (fun _ => true) with
      ⟨item, queue, he, -, hopen, -, hv⟩ | ⟨e, he, -⟩
    · rw [Lossy.Queue.tryRecv, he]
      refine h.move rfl rfl rfl ?_ ?_ rfl hd fun hm => hopen.trans (hs hm)
      · refine List.perm_iff_count.mpr fun d => ?_
        have hn := congrArg (List.count d) hv
        rw [← List.singleton_append] at hn
        simp only [places, ho, Owner.hand, Owner.counting, List.count_append, List.count_nil] at hn ⊢
        omega
      · simp [line, ho, Owner.hand, ← hv]
    · rw [Lossy.Queue.tryRecv, he]
      cases e with
      | disconnected => exact h.goto hh.symm hc.symm hd hs
      | empty => exact h.goto hh.symm hc.symm hd hs
  · exact h

/-- The datagram in hand is returned, or counted as dropped. -/
theorem Routed.settle {i : ℕ} {pushing : List Datagram} {p : Session q Addr}
    (h : p.Routed i pushing) {datagram : Datagram} (ho : p.owner = .reading (.hand datagram))
    (reason : Option RawDrop) :
    Routed i pushing
      { p with
        owner := .reading .idle
        returned := p.returned ++ if reason.isNone then [datagram] else []
        drops := p.drops ++ reason.toList.map fun r => (r, datagram) } := by
  have hd := h.drains
  have hs := h.shut
  rw [ho] at hd hs
  refine h.move rfl rfl rfl ?_ ?_ rfl hd hs
  · refine List.perm_iff_count.mpr fun d => ?_
    cases reason <;>
      simp only [places, ho, Owner.hand, Owner.counting, List.map_append, List.count_append,
        Option.isNone_none, Option.isNone_some, Option.toList_none, Option.toList_some,
        List.map_nil, List.map_cons, if_true, Bool.false_eq_true, if_false, List.count_nil] <;>
      omega
  · cases reason <;> simp [line, ho, Owner.hand]

theorem Routed.decode {i : ℕ} {pushing : List Datagram} {p : Session q Addr}
    (h : p.Routed i pushing) (limit : ℕ) (decodes : Bool) :
    (p.decode limit decodes).Routed i pushing := by
  unfold Session.decode
  split
  · rename_i datagram ho
    dsimp only
    split
    · simpa [drop] using h.settle ho (some .receiveLimit)
    split
    · simpa [drop] using h.settle ho (some .receiveLimit)
    split
    · simpa [drop] using h.settle ho none
    · simpa [drop] using h.settle ho (some .malformedPayload)
  · exact h

theorem Routed.close {i : ℕ} {pushing : List Datagram} {p : Session q Addr}
    (h : p.Routed i pushing) : p.close.Routed i pushing := by
  unfold Session.close
  split
  · exact h.goto rfl rfl h.drains h.shut
  · exact h

theorem Routed.split {i : ℕ} {pushing : List Datagram} {p : Session q Addr}
    (h : p.Routed i pushing) : p.split.Routed i pushing := by
  unfold Session.split
  split
  · rename_i ho
    refine h.goto (by simp [ho, Owner.hand]) (by simp [ho, Owner.counting]) List.suffix_rfl ?_
    simp [Owner.todo, dropRead]
  · exact h

theorem Routed.dropOwner {i : ℕ} {pushing : List Datagram} {p : Session q Addr}
    (h : p.Routed i pushing) : p.dropOwner.Routed i pushing := by
  have hd := h.drains
  have hs := h.shut
  unfold Session.dropOwner
  split
  · rename_i ho
    rw [ho] at hd hs
    exact h.goto (by simp [ho, Owner.hand])
      (by simp [ho, Owner.counting, dropStream, DropStep.counted?]) hd hs
  · rename_i ho
    rw [ho] at hd hs
    exact h.goto (by simp [ho, Owner.hand])
      (by simp [ho, Owner.counting, dropRead, DropStep.counted?]) hd hs
  · exact h

/-! ### The drop of a session -/

/-- Behind the drain of `LossyReceiver` there is no other. -/
theorem drain_notMem {rest : List DropStep}
    (h : (DropStep.inner :: rest).filter DropStep.OfQueue <:+ [.drain, .inner]) :
    .drain ∉ DropStep.inner :: rest := by
  rw [List.filter_cons_of_pos rfl] at h
  have hnil : rest.filter DropStep.OfQueue = [] := by
    rcases List.suffix_cons_iff.mp h with h | h
    · simp at h
    · rcases List.suffix_cons_iff.mp h with h | h
      · exact (List.cons.inj h).2
      · simp at h
  intro hmem
  have hin : DropStep.drain ∈ rest := by simpa using hmem
  have hf : DropStep.drain ∈ rest.filter DropStep.OfQueue := List.mem_filter.mpr ⟨hin, rfl⟩
  rw [hnil] at hf
  cases hf

/-- A step of the drop that is no part of the queue's. -/
theorem Routed.proceed {i : ℕ} {pushing : List Datagram} {p : Session q Addr}
    (h : p.Routed i pushing) {d : DropStep} {rest : List DropStep} {closed : Bool}
    (ho : p.owner = .dropping (d :: rest)) (hq : d.OfQueue = false) (hc : d.counted? = none) :
    Routed i pushing { p with owner := .dropping rest, closed := closed } := by
  have hd := h.drains
  have hs := h.shut
  rw [ho] at hd hs
  refine h.goto (by simp [ho, Owner.hand]) (by simp [ho, Owner.counting, hc]) ?_ fun hm => hs ?_
  · simpa [Owner.todo, List.filter_cons, hq] using hd
  · simp only [Owner.todo, List.mem_cons, not_or] at hm ⊢
    refine ⟨?_, hm⟩
    rintro rfl
    cases hq

theorem Routed.dropLocal {i : ℕ} {pushing : List Datagram} {p : Session q Addr}
    (h : p.Routed i pushing) {d : DropStep} {rest : List DropStep}
    (ho : p.owner = .dropping (d :: rest)) : (p.dropLocal d rest).Routed i pushing := by
  have hd := h.drains
  have hs := h.shut
  rw [ho] at hd hs
  simp only [Owner.todo] at hd hs
  cases d with
  | close => exact h.proceed ho rfl rfl
  | cancel => exact h.proceed ho rfl rfl
  | unregister => exact h.proceed ho rfl rfl
  | release => exact h.proceed ho rfl rfl
  | drain =>
    rw [List.filter_cons_of_pos rfl] at hd
    refine h.move rfl rfl rfl ?_ ?_ rfl ?_ fun _ => rfl
    · refine List.perm_iff_count.mpr fun d => ?_
      have hmap : (p.queue.values.map DropStep.count).filterMap DropStep.counted? = p.queue.values := by
        rw [List.filterMap_map]
        exact List.filterMap_some
      have hv : p.queue.closeAndDrain.1 = p.queue.values := rfl
      have hv' : p.queue.closeAndDrain.2.values = [] := rfl
      simp only [places, Session.dropLocal, ho, Owner.hand, Owner.counting, hv, hv', hmap,
        List.filterMap_append, List.filterMap_cons, DropStep.counted?, List.count_append,
        List.count_nil]
      omega
    · have hv' : p.queue.closeAndDrain.2.values = [] := rfl
      simp only [line, Session.dropLocal, ho, Owner.hand, hv']
      exact ((List.Sublist.refl _).append (List.nil_sublist _)).append (List.Sublist.refl _)
    · have hnone : (p.queue.closeAndDrain.1.map DropStep.count).filter DropStep.OfQueue = [] := by
        simp [DropStep.OfQueue]
      simp only [Session.dropLocal, Owner.todo, List.filter_append, hnone, List.nil_append]
      exact (List.suffix_cons _ _).trans hd
  | count datagram =>
    refine h.move rfl rfl rfl ?_ ?_ rfl ?_ fun hm => hs ?_
    · refine List.perm_iff_count.mpr fun d => ?_
      simp only [places, Session.dropLocal, Session.proceed, drop, ho, Owner.hand, Owner.counting,
        List.filterMap_cons, DropStep.counted?, List.map_append, List.map_cons, List.map_nil,
        List.count_append, List.count_cons, List.count_nil]
      omega
    · simp [line, Session.dropLocal, Session.proceed, drop, ho, Owner.hand]
    · simpa [Session.dropLocal, Session.proceed, Owner.todo, DropStep.OfQueue] using hd
    · simpa [Session.dropLocal, Session.proceed, Owner.todo] using hm
  | inner =>
    -- the counted drain has closed the queue, so this one finds it empty
    have hclosed := hs (drain_notMem hd)
    have hv : p.queue.values = [] := by
      simp [Lossy.Queue.values, Lossy.State.values, p.queue.inv.closed_empty hclosed]
    have hv' : p.queue.closeAndDrain.1 = [] := hv
    have hv'' : p.queue.closeAndDrain.2.values = [] := rfl
    refine h.move rfl rfl rfl ?_ ?_ ?_ ?_ fun _ => rfl
    · simp [places, Session.dropLocal, ho, hv, hv'', Owner.hand, Owner.counting,
        List.filterMap_cons, DropStep.counted?]
    · simp [line, Session.dropLocal, ho, hv, hv'', Owner.hand]
    · simp [Session.dropLocal, hv']
    · rw [List.filter_cons_of_pos rfl] at hd
      exact (List.suffix_cons _ _).trans hd

/-! ### What is received -/

theorem received_push (p : Session q Addr) (datagram : Datagram) :
    (p.push datagram).received = p.received := by
  unfold Session.push
  split
  · rfl
  · rfl
  · rfl

theorem received_poll (p : Session q Addr) : p.poll.received = p.received := by
  unfold Session.poll
  split
  · split
    · rfl
    · rfl
  · rfl

theorem received_next (p : Session q Addr) : p.next.received = p.received := by
  unfold Session.next
  split
  · split
    · rfl
    · rfl
    · rfl
  · rfl

theorem received_decode (p : Session q Addr) (limit : ℕ) (decodes : Bool) :
    (p.decode limit decodes).received = p.received := by
  unfold Session.decode
  split
  · dsimp only
    split
    · rfl
    split
    · rfl
    split
    · rfl
    · rfl
  · rfl

theorem received_close (p : Session q Addr) : p.close.received = p.received := by
  unfold Session.close
  split
  · rfl
  · rfl

theorem received_split (p : Session q Addr) : p.split.received = p.received := by
  unfold Session.split
  split
  · rfl
  · rfl

theorem received_dropOwner (p : Session q Addr) : p.dropOwner.received = p.received := by
  unfold Session.dropOwner
  split
  · rfl
  · rfl
  · rfl

theorem received_dropLocal (p : Session q Addr) (d : DropStep) (rest : List DropStep) :
    (p.dropLocal d rest).received = p.received := by
  cases d <;> rfl

end Session

/-! ### The listener -/

namespace UdpPeers

variable {o : UdpOptions} {Addr : Type*}

/-- The datagram for session `i` that the dispatch under way holds. -/
def pushing (s : UdpPeers o Addr) (i : ℕ) : List Datagram :=
  match s.dispatching with
  | some (.checking k datagram) => if k = i then [datagram] else []
  | some (.sending k datagram) => if k = i then [datagram] else []
  | none => []

def Routes (s : UdpPeers o Addr) : Prop :=
  ∀ (i : ℕ) (p : Session o.limits Addr), s.sessions[i]? = some p → p.Routed i (s.pushing i)

theorem pushing_of_free {s : UdpPeers o Addr} (h : s.dispatching = none) (i : ℕ) :
    s.pushing i = [] := by
  rw [pushing, h]

theorem Routes.update {s : UdpPeers o Addr} (h : s.Routes) {i : ℕ}
    {f : Session o.limits Addr → Session o.limits Addr}
    (hf : ∀ p, s.sessions[i]? = some p → p.Routed i (s.pushing i) → (f p).Routed i (s.pushing i)) :
    (s.update i f).Routes := by
  intro j p' hp'
  rw [getElem?_update] at hp'
  obtain ⟨p, hp, rfl⟩ := Option.map_eq_some_iff.mp hp'
  split
  · rename_i hij
    subst hij
    exact hf p hp (h i p hp)
  · exact h j p hp

/-- The dispatch changes what it holds, and the session it is for. -/
theorem Routes.update_lock {s : UdpPeers o Addr} (h : s.Routes) {i : ℕ} {d : Option Push}
    {f : Session o.limits Addr → Session o.limits Addr}
    (hd : ∀ j, j ≠ i → (s.lock d).pushing j = s.pushing j)
    (hf : ∀ p, s.sessions[i]? = some p → p.Routed i (s.pushing i) →
      (f p).Routed i ((s.lock d).pushing i)) :
    ((s.update i f).lock d).Routes := by
  intro j p' hp'
  have hp' : (s.update i f).sessions[j]? = some p' := hp'
  rw [getElem?_update] at hp'
  obtain ⟨p, hp, rfl⟩ := Option.map_eq_some_iff.mp hp'
  show Session.Routed j ((s.lock d).pushing j) _
  by_cases hij : i = j
  · subst hij
    rw [if_pos rfl]
    exact hf p hp (h i p hp)
  · rw [if_neg hij, hd j (Ne.symm hij)]
    exact h j p hp

theorem routes_new (o : UdpOptions) (Addr : Type*) : (new o Addr).Routes := by
  intro i p hp
  simp [new] at hp

theorem routes_push {s : UdpPeers o Addr} (h : s.Routes) : s.push.Routes := by
  unfold push
  split
  · exact h
  · rename_i i datagram hd
    split
    · exact h
    split
    · refine h.update_lock (fun j hj => by simp [pushing, lock, hd, Ne.symm hj]) fun p _ hr => ?_
      simp only [pushing, hd, if_true] at hr
      exact hr.drop_pushing _
    · intro j p hp
      have hr := h j p hp
      simpa [pushing, lock, hd] using hr
  · rename_i i datagram hd
    refine h.update_lock (fun j hj => by simp [pushing, lock, hd, Ne.symm hj]) fun p _ hr => ?_
    simp only [pushing, hd, if_true] at hr
    exact hr.push

theorem routes_dropListener {s : UdpPeers o Addr} (h : s.Routes) : s.dropListener.Routes := by
  unfold dropListener
  split
  · exact h
  intro i p' hp'
  simp only at hp'
  rw [List.getElem?_mapIdx] at hp'
  obtain ⟨p, hp, rfl⟩ := Option.map_eq_some_iff.mp hp'
  have hr := h i p hp
  split
  · exact hr.dropSender.goto rfl rfl hr.drains hr.shut
  · exact hr

section Routes

variable [DecidableEq Addr]

/-- A new session is the table's entry, and holds its first datagram. -/
theorem Routes.concat {s : UdpPeers o Addr} (hfree : s.dispatching = none)
    {old : List (Session o.limits Addr)} (hlen : old.length = s.sessions.length)
    (hold : Routes { s with sessions := old }) {free : ℕ} (address : Addr) {bytes : Datagram}
    {queue : Lossy.Queue o.limits Datagram} (hq : queue.values = [bytes]) :
    Routes { s with
      free := free
      table := s.table.insert address s.sessions.length
      sessions := old ++ [.accepted address
        ((s.table.insert address s.sessions.length).lookup address) bytes queue] } := by
  intro j p hp
  rcases getElem?_concat_cases hp with hp | ⟨rfl, rfl⟩
  · exact hold j p hp
  · show Session.Routed _ (s.pushing old.length) _
    rw [pushing_of_free hfree, AList.lookup_insert, hlen]
    exact Session.routed_accepted address hq

theorem routes_accept {s : UdpPeers o Addr} (h : s.Routes) (hfree : s.dispatching = none)
    (bytes : Datagram) (address : Addr) : (s.accept bytes address).Routes := by
  unfold accept
  split
  · exact h
  rcases (Lossy.Queue.new : Lossy.Queue o.limits Datagram).trySend_spec bytes bytes.length with
    ⟨evicted, queue, he, -, -, -, hv, hne⟩ | ⟨he, -⟩ | ⟨he, -⟩
  · rw [he]
    dsimp only
    have hq : queue.values = [bytes] := by
      rcases List.append_eq_singleton_iff.mp (hv.trans (List.nil_append _)) with ⟨-, hq⟩ | ⟨-, hq⟩
      · exact hq
      · exact absurd hq hne
    split
    · exact Routes.concat hfree (List.length_modify _ _ _)
        (h.update fun p _ hp => hp.dropSender) address hq
    · exact Routes.concat hfree rfl h address hq
  · rw [he]
    exact h
  · rw [he]
    exact h

/-- An open entry is the session of the address. -/
theorem lookup_of_open? {s : UdpPeers o Addr} {address : Addr} {i : ℕ}
    (h : s.open? address = some i) : s.table.lookup address = some i := by
  simp only [open?] at h
  split at h
  · rename_i k hk
    split at h
    · split at h
      · cases h
      · exact hk.trans h
    · cases h
  · cases h

theorem routes_dispatch {s : UdpPeers o Addr} (hg : Good s) (h : s.Routes) (bytes : Datagram)
    (address : Addr) : (s.dispatch bytes address).Routes := by
  unfold dispatch
  split
  · exact h
  rename_i hbusy
  have hfree : s.dispatching = none := by
    simpa using (not_or.mp hbusy).2
  split
  · exact h
  split
  · rename_i i hopen
    have hl := lookup_of_open? hopen
    refine h.update_lock (fun j hj => ?_) fun p hp hr => ?_
    · rw [pushing_of_free hfree]
      simp [pushing, lock, Ne.symm hj]
    · obtain ⟨p', hp', ha, -⟩ := hg.entry address i hl
      rw [hp] at hp'
      cases hp'
      rw [pushing_of_free hfree] at hr
      rw [hl, ← ha]
      simpa [pushing, lock] using hr.arrive bytes
  · split
    · exact h
    · exact routes_accept h hfree bytes address

/-- A step of a drop: the table and the slots are no part of the routes. -/
theorem routes_dropStep {s : UdpPeers o Addr} (h : s.Routes) (i : ℕ) : (s.dropStep i).Routes := by
  have hat : ∀ {f : Session o.limits Addr → Session o.limits Addr} {p : Session o.limits Addr},
      s.sessions[i]? = some p → (p.Routed i (s.pushing i) → (f p).Routed i (s.pushing i)) →
      (s.update i f).Routes := by
    intro f p hp hf
    refine h.update fun r hr hR => ?_
    rw [hp] at hr
    cases hr
    exact hf hR
  unfold dropStep
  split
  · exact h
  rename_i p hp
  split
  · rename_i rest ho
    split
    · exact h
    split
    · exact hat hp fun hr => hr.dropSender.proceed ho rfl rfl
    · exact hat hp fun hr => hr.proceed ho rfl rfl
  · rename_i rest ho
    exact hat hp fun hr => hr.proceed ho rfl rfl
  · rename_i d rest _ _ ho
    exact hat hp fun hr => hr.dropLocal ho
  · exact h

theorem routes_step {s : UdpPeers o Addr} (hg : Good s) (h : s.Routes) (a : Act Addr) :
    (s.step a).Routes := by
  cases a with
  | dispatch bytes address => exact routes_dispatch hg h bytes address
  | push => exact routes_push h
  | split i => exact h.update fun p _ hr => hr.split
  | poll i => exact h.update fun p _ hr => hr.poll
  | next i => exact h.update fun p _ hr => hr.next
  | decode i limit decodes => exact h.update fun p _ hr => hr.decode limit decodes
  | close i => exact h.update fun p _ hr => hr.close
  | dropOwner i => exact h.update fun p _ hr => hr.dropOwner
  | dropStep i => exact routes_dropStep h i
  | dropWrite i => exact h
  | dropListener => exact routes_dropListener h

theorem routes_run (o : UdpOptions) (as : List (Act Addr)) : (run step (new o Addr) as).Routes :=
  (run_inv (I := fun s => Good s ∧ s.Routes) (fun _ a h => ⟨good_step h.1 a, routes_step h.1 h.2 a⟩)
    as ⟨good_new o Addr, routes_new o Addr⟩).2

end Routes

/-! ### The order of the dispatches -/

/-- The datagram that an action dispatches, with its source. -/
def Act.dispatched? : Act Addr → Option (Addr × Datagram)
  | .dispatch bytes address => some (address, bytes)
  | _ => none

def receivedAt (s : UdpPeers o Addr) (i : ℕ) : List (Addr × Datagram) :=
  match s.sessions[i]? with
  | some p => p.received.map fun a => (a.address, a.bytes)
  | none => []

theorem receivedAt_modify {s s' : UdpPeers o Addr} {i : ℕ}
    {f : Session o.limits Addr → Session o.limits Addr} (hs : s'.sessions = s.sessions.modify i f)
    (hf : ∀ p, (f p).received = p.received) (j : ℕ) : s'.receivedAt j = s.receivedAt j := by
  simp only [receivedAt, hs, List.getElem?_modify]
  cases s.sessions[j]? with
  | none => rfl
  | some p =>
    simp only [Option.map_eq_map, Option.map_some]
    split
    · rw [hf p]
    · rfl

theorem receivedAt_push (s : UdpPeers o Addr) (j : ℕ) : s.push.receivedAt j = s.receivedAt j := by
  unfold push
  split
  · rfl
  · split
    · rfl
    split
    · refine receivedAt_modify rfl (fun _ => ?_) j
      rfl
    · rfl
  · exact receivedAt_modify rfl (fun p => p.received_push _) j

theorem receivedAt_dropListener (s : UdpPeers o Addr) (j : ℕ) :
    s.dropListener.receivedAt j = s.receivedAt j := by
  unfold dropListener
  split
  · rfl
  simp only [receivedAt, List.getElem?_mapIdx]
  cases s.sessions[j]? with
  | none => rfl
  | some p =>
    simp only [Option.map_some]
    split
    · rfl
    · rfl

/-- A new session has received the datagram that created it. -/
theorem receivedAt_concat {s s' : UdpPeers o Addr} {old : List (Session o.limits Addr)}
    {p : Session o.limits Addr} (hlen : old.length = s.sessions.length)
    (hold : ∀ j, ({ s with sessions := old } : UdpPeers o Addr).receivedAt j = s.receivedAt j)
    (hs : s'.sessions = old ++ [p]) (j : ℕ) :
    ∃ l, s'.receivedAt j = s.receivedAt j ++ l ∧
      l.Sublist (p.received.map fun a => (a.address, a.bytes)) := by
  rcases Nat.lt_trichotomy j old.length with hlt | heq | hgt
  · refine ⟨[], ?_, List.nil_sublist _⟩
    rw [List.append_nil, ← hold j, receivedAt, hs, List.getElem?_append_left hlt]
    rfl
  · refine ⟨_, ?_, List.Sublist.refl _⟩
    have hnone : s.sessions[j]? = none := List.getElem?_eq_none (by omega)
    rw [receivedAt, hs, heq, List.getElem?_concat_length, receivedAt, ← heq, hnone]
    rfl
  · refine ⟨[], ?_, List.nil_sublist _⟩
    have hnone : s.sessions[j]? = none := List.getElem?_eq_none (by omega)
    have hnone' : (old ++ [p])[j]? = none := List.getElem?_eq_none (by simp; omega)
    rw [receivedAt, hs, hnone', receivedAt, hnone]
    rfl

variable [DecidableEq Addr]

theorem receivedAt_dropStep (s : UdpPeers o Addr) (i j : ℕ) :
    (s.dropStep i).receivedAt j = s.receivedAt j := by
  unfold dropStep
  split
  · rfl
  split
  · split
    · rfl
    split
    · refine receivedAt_modify rfl (fun _ => ?_) j
      rfl
    · refine receivedAt_modify rfl (fun _ => ?_) j
      rfl
  · refine receivedAt_modify rfl (fun _ => ?_) j
    rfl
  · exact receivedAt_modify rfl (fun p => p.received_dropLocal _ _) j
  · rfl

theorem receivedAt_dispatch (s : UdpPeers o Addr) (bytes : Datagram) (address : Addr) (j : ℕ) :
    ∃ l, (s.dispatch bytes address).receivedAt j = s.receivedAt j ++ l ∧
      l.Sublist [(address, bytes)] := by
  have hsame : ∃ l, s.receivedAt j = s.receivedAt j ++ l ∧ l.Sublist [(address, bytes)] :=
    ⟨[], (List.append_nil _).symm, List.nil_sublist _⟩
  unfold dispatch
  split
  · exact hsame
  split
  · exact hsame
  split
  · rename_i i _
    show ∃ l, (s.update i _).receivedAt j = _ ∧ _
    simp only [receivedAt, getElem?_update]
    cases s.sessions[j]? with
    | none => exact ⟨[], rfl, List.nil_sublist _⟩
    | some p =>
      simp only [Option.map_some]
      split
      · exact ⟨[(address, bytes)], by simp [Session.arrive], List.Sublist.refl _⟩
      · exact ⟨[], (List.append_nil _).symm, List.nil_sublist _⟩
  split
  · exact hsame
  unfold accept
  split
  · exact hsame
  split
  · exact hsame
  dsimp only
  split
  · rename_i k _
    exact receivedAt_concat (p := .accepted address _ bytes _) (List.length_modify _ _ k)
      (receivedAt_modify (f := Session.dropSender) rfl fun _ => rfl) rfl j
  · exact receivedAt_concat (p := .accepted address _ bytes _) rfl (fun _ => rfl) rfl j

/-- A step gives a session at most the datagram that it dispatches. -/
theorem receivedAt_step (s : UdpPeers o Addr) (a : Act Addr) (j : ℕ) :
    ∃ l, (s.step a).receivedAt j = s.receivedAt j ++ l ∧ l.Sublist a.dispatched?.toList := by
  have hkeep : ∀ {s' : UdpPeers o Addr}, s'.receivedAt j = s.receivedAt j →
      ∃ l, s'.receivedAt j = s.receivedAt j ++ l ∧ l.Sublist a.dispatched?.toList :=
    fun h => ⟨[], by rw [h, List.append_nil], List.nil_sublist _⟩
  cases a with
  | dispatch bytes address => exact receivedAt_dispatch s bytes address j
  | push => exact hkeep (s.receivedAt_push j)
  | split i => exact hkeep (receivedAt_modify rfl Session.received_split j)
  | poll i => exact hkeep (receivedAt_modify rfl Session.received_poll j)
  | next i => exact hkeep (receivedAt_modify rfl Session.received_next j)
  | decode i limit decodes =>
    exact hkeep (receivedAt_modify rfl (fun p => p.received_decode limit decodes) j)
  | close i => exact hkeep (receivedAt_modify rfl Session.received_close j)
  | dropOwner i => exact hkeep (receivedAt_modify rfl Session.received_dropOwner j)
  | dropStep i => exact hkeep (s.receivedAt_dropStep i j)
  | dropWrite i => exact hkeep rfl
  | dropListener => exact hkeep (s.receivedAt_dropListener j)

/-- A session receives in the order of the dispatches. -/
theorem receivedAt_run (j : ℕ) : ∀ (as : List (Act Addr)) (s : UdpPeers o Addr),
    ∃ l, (run step s as).receivedAt j = s.receivedAt j ++ l ∧ l.Sublist (as.filterMap Act.dispatched?)
  | [], s => ⟨[], (List.append_nil _).symm, List.nil_sublist _⟩
  | a :: as, s => by
    obtain ⟨l, hl, hsub⟩ := receivedAt_step s a j
    obtain ⟨l', hl', hsub'⟩ := receivedAt_run j as (s.step a)
    refine ⟨l ++ l', by rw [run_cons, hl', hl, List.append_assoc], ?_⟩
    have hcons : (a :: as).filterMap Act.dispatched? =
        a.dispatched?.toList ++ as.filterMap Act.dispatched? := by
      cases h : a.dispatched? with
      | none => simp [h]
      | some d => simp [h]
    rw [hcons]
    exact hsub.append hsub'

/-! ### The result -/

/-- **Routing and accounting.** After any steps, for every session: what it
has received was dispatched from its address, in the order of the dispatches,
while it was the table's entry for that address, and begins with the datagram
that created it; every received datagram is in the raw queue, with a push, a
call of `receive` or a drop that is under way, returned, or counted with one
reason; nothing is lost; and what was returned is a subsequence of what was
received. When nothing is under way the fates are those of the source. -/
theorem routing (o : UdpOptions) (as : List (Act Addr)) (i : ℕ) (p : Session o.limits Addr) :
    let s := run step (new o Addr) as
    s.sessions[i]? = some p →
    (∀ a ∈ p.received, a.address = p.address ∧ a.current = some i) ∧
    (p.received.map fun a => (a.address, a.bytes)).Sublist (as.filterMap Act.dispatched?) ∧
    (∃ rest, p.received.map Arrival.bytes = p.created :: rest) ∧
    (p.received.map Arrival.bytes).Perm (p.queue.values ++ s.pushing i ++ p.owner.hand ++
      p.owner.counting ++ p.returned ++ p.drops.map Prod.snd) ∧
    p.lost = [] ∧
    p.returned.Sublist (p.received.map Arrival.bytes) ∧
    (s.pushing i = [] → p.owner.hand = [] → p.owner.counting = [] →
      (p.received.map Arrival.bytes).Perm (p.queue.values ++ p.returned ++ p.drops.map Prod.snd)) := by
  intro s hp
  have h : p.Routed i (s.pushing i) := routes_run o as i p hp
  refine ⟨h.origin, ?_, h.first, h.fates, h.kept, ?_, fun hpush hhand hcount => ?_⟩
  · obtain ⟨l, hl, hsub⟩ := receivedAt_run i as (new o Addr)
    have hat : s.receivedAt i = p.received.map fun a => (a.address, a.bytes) := by
      rw [receivedAt, hp]
    have hnil : (new o Addr).receivedAt i = [] := by simp [receivedAt, new]
    rw [← hat, hl, hnil]
    exact hsub
  · refine List.Sublist.trans ?_ h.order
    simp only [Session.line, List.append_assoc]
    exact List.sublist_append_left _ _
  · have hf := h.fates
    rw [Session.places, hpush, hhand, hcount, List.append_nil, List.append_nil, List.append_nil] at hf
    exact hf

/-- A session with a queue of one datagram that drops the newest: of three
datagrams the first is returned, the second refused and the third drained. -/
theorem routing_three :
    let o : UdpOptions := ⟨1, 1, 8, .dropNewest⟩
    let as : List (Act ℕ) := [.dispatch [1] 7, .dispatch [2] 7, .push, .push, .split 0, .poll 0,
      .next 0, .decode 0 8 true, .dispatch [3] 7, .push, .push, .dropOwner 0, .dropStep 0,
      .dropStep 0, .dropStep 0, .dropStep 0]
    let s := run step (new o ℕ) as
    ∃ p, s.sessions[0]? = some p ∧
      (p.received.map Arrival.bytes).Perm (p.queue.values ++ p.returned ++ p.drops.map Prod.snd) ∧
      p.returned = [[1]] ∧
      p.drops = [(.rawQueueFull, [2]), (.closedBeforeDelivery, [3])] := by
  intro o as s
  have hpush : s.pushing 0 = [] := by decide +kernel
  have hret : (s.sessions[0]?).map Session.returned = some [[1]] := by decide +kernel
  have hdrops : (s.sessions[0]?).map Session.drops =
      some [(.rawQueueFull, [2]), (.closedBeforeDelivery, [3])] := by decide +kernel
  have howner : (s.sessions[0]?).map Session.owner =
      some (.dropping [.unregister, .cancel, .release]) := by decide +kernel
  obtain ⟨p, hp, hret⟩ := Option.map_eq_some_iff.mp hret
  rw [hp, Option.map_some, Option.some.injEq] at hdrops howner
  obtain ⟨-, -, -, -, -, -, hrest⟩ := routing o as 0 p hp
  refine ⟨p, hp, hrest hpush ?_ ?_, hret, hdrops⟩
  · rw [howner]
    rfl
  · rw [howner]
    rfl

end UdpPeers
end Slinet
