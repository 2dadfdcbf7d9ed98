/-
# The runtime and its end

All tasks of the endpoints run on one executor (`src/runtime/mod.rs`,
`src/runtime/task.rs`): futures that may move between threads on the workers of
tokio, listeners and other local futures on one thread, which also waits for all
of them when the app exits. A future is given to `spawn_on`, which looks at the
stop token and then has the tracker spawn it; between the two the token can be
cancelled. What is spawned is the future inside `until_cancelled`, which looks at
the token before each poll; between that look and the poll, too, the token can be
cancelled. The factories of local futures wait in a channel.

`Runtime` is the machine: its start, which may fail, calls of `spawn`, polls on
any thread, the local thread step by step, and a shutdown by the app. Every
future given to it is in one place or has one end (`futures_accounted`); one that
could not be started is unavailable, and refuses them all. After the token is cancelled a future is
polled at most once more, and only if its poll had begun; and once the wait for
the tasks has ended in time, none is ever polled again, though `spawn_on` may
still spawn some (`quiet_after_stop`).
-/
import Slinet.Ledger
import Slinet.Run

namespace Slinet

/-- A tracked task: its future, whether it is one of the local thread, whether it
has found the token not cancelled and polls its future, and how often it has. -/
structure Job (F : Type*) where
  future : F
  onThread : Bool
  polling : Bool
  polls : ℕ
  deriving DecidableEq, Repr

/-- The polls of a task's future. -/
def Job.record {F : Type*} (job : Job F) : List F := List.replicate job.polls job.future

/-- How a future ends: given when nothing is spawned any more, dropped at a look
at the token, returned, panicked, or dropped by tokio. -/
inductive Ending
  | unspawned
  | cancelled
  | completed
  | panicked
  | aborted
  deriving DecidableEq, Repr

/-- What an end says of the polls before it, and of the token. -/
def Ending.Fits (stop : Bool) (polls : ℕ) : Ending → Prop
  | .unspawned => polls = 0 ∧ stop = true
  | .cancelled => stop = true
  | .completed => 0 < polls
  | .panicked => 0 < polls
  | .aborted => True

theorem Ending.Fits.mono {stop stop' : Bool} {polls : ℕ} {ending : Ending}
    (h : ending.Fits stop polls) (hstop : stop = true → stop' = true) : ending.Fits stop' polls := by
  cases ending with
  | unspawned => exact ⟨h.1, hstop h.2⟩
  | cancelled => exact hstop h
  | completed => exact h
  | panicked => exact h
  | aborted => exact h

/-- What a poll of a future comes to. -/
inductive Polled
  | pending
  | ready
  | panicked
  deriving DecidableEq, Repr

/-- The local thread: never there, in the loop of its `LocalSet`, past it, having
cancelled the token, closed the tracker, dropped the set, dropped the channel,
and at its end, with what the wait for the tasks returned. -/
inductive LocalThread
  | absent
  | looping
  | left
  | cancelled
  | closed
  | released
  | waiting
  | finished (inTime : Bool)
  deriving DecidableEq, Repr

/-- What tokio says of a caller's runtime. -/
inductive RuntimeFlavor
  | currentThread
  | multiThread
  deriving DecidableEq, Repr

/-- Who owns the runtime. -/
inductive NetworkRuntimeMode
  | owned (workerThreads : ℕ+)
  | external (flavor : RuntimeFlavor)
  deriving DecidableEq, Repr

/-- The runtime, with the futures it was given, the polls that are over and the
futures that have ended, with how often each was polled. An unavailable one has
no token that `stop` could stand for. -/
structure Runtime (F : Type*) where
  stop : Bool
  closed : Bool
  held : Bool
  passing : List F
  commands : List F
  receiving : Bool
  jobs : List (Job F)
  thread : LocalThread
  given : List F
  polled : List F
  ended : List (F × ℕ × Ending)

namespace Runtime

variable {F : Type*}

/-- The runtime and the thread are there. -/
def started : Runtime F where
  stop := false
  closed := false
  held := true
  passing := []
  commands := []
  receiving := true
  jobs := []
  thread := .looping
  given := []
  polled := []
  ended := []

/-- `NetworkRuntime::unavailable`. -/
def unavailable : Runtime F :=
  { started with held := false, receiving := false, thread := .absent }

/-- `NetworkRuntime::new`; `built` says that tokio could make the runtime, and
`spawned` that the local thread could be made. -/
def new (mode : NetworkRuntimeMode) (built spawned : Bool) : Runtime F :=
  match mode with
  | .owned _ => if built then if spawned then started else unavailable else unavailable
  | .external flavor =>
    if flavor ≠ .multiThread then unavailable
    else if spawned then started else unavailable

theorem new_cases (mode : NetworkRuntimeMode) (built spawned : Bool) :
    (new mode built spawned : Runtime F) = started ∨
      (new mode built spawned : Runtime F) = unavailable := by
  unfold new
  split
  · split_ifs
    · exact Or.inl rfl
    · exact Or.inr rfl
    · exact Or.inr rfl
  · split_ifs
    · exact Or.inr rfl
    · exact Or.inl rfl
    · exact Or.inr rfl

/-- `is_available`. -/
def isAvailable (s : Runtime F) : Bool := s.held && !s.stop && s.receiving

/-! ### Spawning -/

def refuse (s : Runtime F) (future : F) : Runtime F :=
  { s with ended := s.ended ++ [(future, 0, .unspawned)] }

/-- `spawn_on`, at its look at the token. -/
def spawnOn (s : Runtime F) (future : F) : Runtime F :=
  if s.stop then s.refuse future else { s with passing := s.passing ++ [future] }

/-- `NetworkRuntime::spawn`. -/
def spawn (s : Runtime F) (future : F) : Runtime F :=
  let s := { s with given := s.given ++ [future] }
  if s.held then s.spawnOn future else s.refuse future

/-- The crate's own `spawn`, in a poll of the task `k`. -/
def spawnChild (s : Runtime F) (k : ℕ) (future : F) : Runtime F :=
  match s.jobs[k]? with
  | some job => if job.polling then { s with given := s.given ++ [future] }.spawnOn future else s
  | none => s

/-- The call `k` of `spawn_on` has the tracker spawn its future. -/
def track (s : Runtime F) (k : ℕ) : Runtime F :=
  match s.passing[k]? with
  | some future =>
    { s with passing := s.passing.eraseIdx k, jobs := s.jobs ++ [⟨future, false, false, 0⟩] }
  | none => s

/-- `spawn_local`: the factory goes to the local thread. -/
def spawnLocal (s : Runtime F) (future : F) : Runtime F :=
  if s.held = true ∧ s.receiving = true then
    { s with given := s.given ++ [future], commands := s.commands ++ [future] }
  else { s with given := s.given ++ [future] }.refuse future

/-! ### Polling -/

/-- No task of the local thread is in a poll. -/
def Free (s : Runtime F) : Prop := ∀ job ∈ s.jobs, job.onThread = true → job.polling = false

instance (s : Runtime F) : Decidable s.Free :=
  inferInstanceAs (Decidable (∀ job ∈ s.jobs, _ → _))

/-- The task `k` is over. -/
def settle (s : Runtime F) (k : ℕ) (job : Job F) (polls : ℕ) (ending : Ending) : Runtime F :=
  { s with jobs := s.jobs.eraseIdx k, ended := s.ended ++ [(job.future, polls, ending)] }

/-- A poll of the task `k` begins: `until_cancelled` looks at the token. -/
def check (s : Runtime F) (k : ℕ) : Runtime F :=
  match s.jobs[k]? with
  | some job =>
    if job.polling = true ∨ (job.onThread = true ∧ ¬ (s.thread = .looping ∧ s.Free)) then s
    else if s.stop then s.settle k job job.polls .cancelled
    else { s with jobs := s.jobs.set k { job with polling := true } }
  | none => s

/-- The poll of its future returns, or unwinds into `run_task`. -/
def poll (s : Runtime F) (k : ℕ) (result : Polled) : Runtime F :=
  match s.jobs[k]? with
  | some job =>
    if job.polling then
      let s := { s with polled := s.polled ++ [job.future] }
      match result with
      | .pending =>
        { s with jobs := s.jobs.set k { job with polling := false, polls := job.polls + 1 } }
      | .ready => s.settle k job (job.polls + 1) .completed
      | .panicked => s.settle k job (job.polls + 1) .panicked
    else s
  | none => s

/-- tokio drops the task `k`, with its runtime. -/
def abort (s : Runtime F) (k : ℕ) : Runtime F :=
  match s.jobs[k]? with
  | some job =>
    if job.polling = true ∨ job.onThread = true then s else s.settle k job job.polls .aborted
  | none => s

/-! ### The local thread -/

/-- The loop takes a factory, even when the token is cancelled: the two arms of
its `select` are tried in any order. -/
def takeCommand (s : Runtime F) : Runtime F :=
  if s.thread = .looping ∧ s.Free then
    match s.commands with
    | future :: commands =>
      { s with commands := commands, jobs := s.jobs ++ [⟨future, true, false, 0⟩] }
    | [] => s
  else s

/-- What the tasks of the local thread come to when its `LocalSet` is dropped. -/
def dropLocal (s : Runtime F) : Runtime F :=
  { s with
    jobs := s.jobs.filter fun job => !job.onThread
    ended := s.ended ++ (s.jobs.filter fun job => job.onThread).map fun job =>
      (job.future, job.polls, .aborted) }

/-- The thread's next step. It leaves its loop for the token, or in a panic. -/
def advance (s : Runtime F) (panics : Bool) : Runtime F :=
  match s.thread with
  | .absent => s
  | .looping => if (s.stop = true ∨ panics = true) ∧ s.Free then { s with thread := .left } else s
  | .left => { s with stop := true, thread := .cancelled }
  | .cancelled => { s with closed := true, thread := .closed }
  | .closed => { s.dropLocal with thread := .released }
  | .released =>
    { s with
      commands := []
      receiving := false
      ended := s.ended ++ s.commands.map fun future => (future, 0, .unspawned)
      thread := .waiting }
  | .waiting => if s.closed = true ∧ s.jobs = [] then { s with thread := .finished true } else s
  | .finished _ => s

/-- The wait for the tasks is over its time. -/
def timeout (s : Runtime F) : Runtime F :=
  match s.thread with
  | .waiting => { s with thread := .finished false }
  | _ => s

/-! ### The app -/

/-- `shutdown`, up to the token, where there is one. -/
def shutdown (s : Runtime F) : Runtime F :=
  if s.held then { s with held := false, stop := true } else s

/-- `shutdown` goes on to the tracker. -/
def close (s : Runtime F) : Runtime F :=
  if s.held = true ∨ s.thread = .absent then s else { s with closed := true }

inductive Act (F : Type*)
  | spawn (future : F)
  | spawnChild (k : ℕ) (future : F)
  | track (k : ℕ)
  | spawnLocal (future : F)
  | check (k : ℕ)
  | poll (k : ℕ) (result : Polled)
  | abort (k : ℕ)
  | takeCommand
  | advance (panics : Bool)
  | timeout
  | shutdown
  | close

def step (s : Runtime F) : Act F → Runtime F
  | .spawn future => s.spawn future
  | .spawnChild k future => s.spawnChild k future
  | .track k => s.track k
  | .spawnLocal future => s.spawnLocal future
  | .check k => s.check k
  | .poll k result => s.poll k result
  | .abort k => s.abort k
  | .takeCommand => s.takeCommand
  | .advance panics => s.advance panics
  | .timeout => s.timeout
  | .shutdown => s.shutdown
  | .close => s.close

/-! ### Every future has a place -/

/-- The futures, by where they are or how they have ended. -/
def places (s : Runtime F) : List F :=
  s.passing ++ s.commands ++ s.jobs.map Job.future ++ s.ended.map Prod.fst

/-- The polls, by whose they are. -/
def records (s : Runtime F) : List F :=
  s.jobs.flatMap Job.record ++ s.ended.flatMap fun x => List.replicate x.2.1 x.1

/-- What every step keeps. -/
structure Good (s : Runtime F) : Prop where
  given : s.given.Perm s.places
  polled : s.polled.Perm s.records
  endings : ∀ x ∈ s.ended, x.2.2.Fits s.stop x.2.1
  stopped : s.held = false ∨ s.receiving = false → s.stop = true
  thread : s.thread ≠ .looping → s.thread ≠ .left → s.stop = true

theorem good_started : Good (started : Runtime F) :=
  ⟨List.Perm.refl _, List.Perm.refl _, fun _ h => (by cases h), fun h => (by cases h <;> contradiction),
    fun h => absurd rfl h⟩

/-- **A step** gives futures, moves them on and ends some, with their polls. -/
theorem Good.move {s s' : Runtime F} (h : Good s) (given polled : List F)
    (ended : List (F × ℕ × Ending)) (hgiven : s'.given = s.given ++ given)
    (hpolled : s'.polled = s.polled ++ polled) (hended : s'.ended = s.ended ++ ended)
    (hplaces : (s.passing ++ s.commands ++ s.jobs.map Job.future ++ given).Perm
      (s'.passing ++ s'.commands ++ s'.jobs.map Job.future ++ ended.map Prod.fst))
    (hrecords : (s.jobs.flatMap Job.record ++ polled).Perm
      (s'.jobs.flatMap Job.record ++ ended.flatMap fun x => List.replicate x.2.1 x.1))
    (hstop : s.stop = true → s'.stop = true) (hends : ∀ x ∈ ended, x.2.2.Fits s'.stop x.2.1)
    (hstopped : s'.held = false ∨ s'.receiving = false → s'.stop = true)
    (hthread : s'.thread ≠ .looping → s'.thread ≠ .left → s'.stop = true) : Good s' := by
  refine ⟨perm_of_count fun x => ?_, perm_of_count fun x => ?_, fun x hx => ?_, hstopped, hthread⟩
  · have hg := h.given.count_eq x
    have hp := hplaces.count_eq x
    simp only [places, hgiven, hended, List.map_append, List.count_append] at hg hp ⊢
    omega
  · have hg := h.polled.count_eq x
    have hp := hrecords.count_eq x
    simp only [records, hpolled, hended, List.flatMap_append, List.count_append] at hg hp ⊢
    omega
  · rw [hended] at hx
    rcases List.mem_append.mp hx with hx | hx
    · exact (h.endings x hx).mono hstop
    · exact hends x hx

section Steps

variable {s : Runtime F}

theorem good_refuse (h : Good s) (hstop : s.stop = true) (future : F) :
    Good ({ s with given := s.given ++ [future] }.refuse future) := by
  refine h.move [future] [] [(future, 0, .unspawned)] rfl (List.append_nil _).symm rfl
    (List.Perm.refl _) ?_ id (fun x hx => ?_) h.stopped h.thread
  · simp [refuse]
  · rw [List.mem_singleton.mp hx]
    exact ⟨rfl, hstop⟩

theorem good_spawnOn (h : Good s) (future : F) :
    Good ({ s with given := s.given ++ [future] }.spawnOn future) := by
  unfold spawnOn
  by_cases hstop : s.stop = true
  · rw [if_pos hstop]
    exact good_refuse h hstop future
  · rw [if_neg hstop]
    refine h.move [future] [] [] rfl (List.append_nil _).symm (List.append_nil _).symm
      (perm_of_count fun x => ?_) (List.Perm.refl _) id (fun _ hx => (by cases hx)) h.stopped h.thread
    simp only [List.count_append, List.map_nil, List.count_nil]
    omega

theorem good_spawn (h : Good s) (future : F) : Good (s.spawn future) := by
  show Good (if s.held = true then _ else _)
  by_cases hheld : s.held = true
  · rw [if_pos hheld]
    exact good_spawnOn h future
  · rw [if_neg hheld]
    exact good_refuse h (h.stopped (Or.inl (by simpa using hheld))) future

theorem good_spawnChild (h : Good s) (k : ℕ) (future : F) : Good (s.spawnChild k future) := by
  unfold spawnChild
  split
  · split
    · exact good_spawnOn h future
    · exact h
  · exact h

theorem good_spawnLocal (h : Good s) (future : F) : Good (s.spawnLocal future) := by
  show Good (if s.held = true ∧ s.receiving = true then _ else _)
  by_cases hopen : s.held = true ∧ s.receiving = true
  · rw [if_pos hopen]
    refine h.move [future] [] [] rfl (List.append_nil _).symm (List.append_nil _).symm
      (perm_of_count fun x => ?_) (List.Perm.refl _) id (fun _ hx => (by cases hx)) h.stopped h.thread
    simp only [List.count_append, List.map_nil, List.count_nil]
    omega
  · have hstop : s.stop = true := by
      refine h.stopped ?_
      by_cases hheld : s.held = true
      · exact Or.inr (by simpa using fun hr => hopen ⟨hheld, hr⟩)
      · exact Or.inl (by simpa using hheld)
    rw [if_neg hopen]
    exact good_refuse h hstop future

theorem good_track (h : Good s) (k : ℕ) : Good (s.track k) := by
  unfold track
  split
  · rename_i future hk
    refine h.move [] [] [] (List.append_nil _).symm (List.append_nil _).symm (List.append_nil _).symm
      (perm_of_count fun x => ?_) ?_ id (fun _ hx => (by cases hx)) h.stopped h.thread
    · have hc := count_eraseIdx_of_getElem? hk x
      simp only [List.map_append, List.map_cons, List.map_nil, List.count_append, List.count_nil]
      omega
    · simp [Job.record]
  · exact h

/-- A task is over, after the polls that it had and `polled`. -/
theorem good_settle (h : Good s) {k : ℕ} {job : Job F} (hk : s.jobs[k]? = some job)
    (more : ℕ) (ending : Ending) (hfits : ending.Fits s.stop (job.polls + more)) :
    Good ({ s with polled := s.polled ++ List.replicate more job.future }.settle k job
      (job.polls + more) ending) := by
  obtain ⟨l₁, l₂, hjobs, herase, -⟩ := exists_split_of_getElem? hk
  rw [hjobs] at herase
  refine h.move [] (List.replicate more job.future) [(job.future, job.polls + more, ending)]
    (List.append_nil _).symm rfl rfl (perm_of_count fun x => ?_) (perm_of_count fun x => ?_) id
    (fun x hx => ?_) h.stopped h.thread
  · simp only [settle, herase, hjobs, List.map_append, List.map_cons, List.map_nil, List.count_append,
      List.count_cons, List.count_nil]
    omega
  · simp only [settle, herase, hjobs, Job.record, List.flatMap_append, List.flatMap_cons, List.flatMap_nil,
      List.replicate_add, List.count_append, List.count_nil]
    omega
  · rw [List.mem_singleton.mp hx]
    exact hfits

/-- A task goes on, after `more` polls. -/
theorem good_set (h : Good s) {k : ℕ} {job : Job F} (hk : s.jobs[k]? = some job) (more : ℕ)
    (polling : Bool) :
    Good { s with
      polled := s.polled ++ List.replicate more job.future
      jobs := s.jobs.set k { job with polling := polling, polls := job.polls + more } } := by
  obtain ⟨l₁, l₂, hjobs, -, hset⟩ := exists_split_of_getElem? hk
  rw [hjobs] at hset
  refine h.move [] (List.replicate more job.future) [] (List.append_nil _).symm rfl
    (List.append_nil _).symm (perm_of_count fun x => ?_) (perm_of_count fun x => ?_) id
    (fun _ hx => (by cases hx)) h.stopped h.thread
  · simp only [hset, hjobs, List.map_append, List.map_cons, List.map_nil, List.count_append,
      List.count_cons, List.count_nil]
  · simp only [hset, hjobs, Job.record, List.flatMap_append, List.flatMap_cons, List.flatMap_nil,
      List.replicate_add, List.count_append, List.count_nil]
    omega

theorem good_check (h : Good s) (k : ℕ) : Good (s.check k) := by
  unfold check
  split
  · rename_i job hk
    by_cases hbusy : job.polling = true ∨ (job.onThread = true ∧ ¬ (s.thread = .looping ∧ s.Free))
    · rw [if_pos hbusy]
      exact h
    rw [if_neg hbusy]
    by_cases hstop : s.stop = true
    · rw [if_pos hstop]
      have hend := good_settle h hk 0 .cancelled hstop
      rwa [List.replicate_zero, List.append_nil] at hend
    · rw [if_neg hstop]
      have hgo := good_set h hk 0 true
      rwa [List.replicate_zero, List.append_nil] at hgo
  · exact h

theorem good_poll (h : Good s) (k : ℕ) (result : Polled) : Good (s.poll k result) := by
  unfold poll
  split
  · rename_i job hk
    by_cases hpolling : job.polling = true
    · rw [if_pos hpolling]
      cases result with
      | pending => exact good_set h hk 1 false
      | ready => exact good_settle h hk 1 .completed (Nat.succ_pos _)
      | panicked => exact good_settle h hk 1 .panicked (Nat.succ_pos _)
    · rw [if_neg hpolling]
      exact h
  · exact h

theorem good_abort (h : Good s) (k : ℕ) : Good (s.abort k) := by
  unfold abort
  split
  · rename_i job hk
    by_cases hbusy : job.polling = true ∨ job.onThread = true
    · rw [if_pos hbusy]
      exact h
    · rw [if_neg hbusy]
      have hend := good_settle h hk 0 .aborted trivial
      rwa [List.replicate_zero, List.append_nil] at hend
  · exact h

theorem good_takeCommand (h : Good s) : Good s.takeCommand := by
  unfold takeCommand
  split
  · cases hc : s.commands with
    | nil => exact h
    | cons future commands =>
      refine h.move [] [] [] (List.append_nil _).symm (List.append_nil _).symm
        (List.append_nil _).symm (perm_of_count fun x => ?_) ?_ id (fun _ hx => (by cases hx))
        h.stopped h.thread
      · simp only [hc, List.map_append, List.map_cons, List.map_nil, List.count_append, List.count_cons,
          List.count_nil]
        omega
      · simp [Job.record]
  · exact h

/-- The local tasks and the others. -/
theorem perm_threads (jobs : List (Job F)) :
    jobs.Perm ((jobs.filter fun job => !job.onThread) ++ jobs.filter fun job => job.onThread) := by
  have hp := List.filter_append_perm (fun job : Job F => job.onThread) jobs
  exact hp.symm.trans List.perm_append_comm

theorem good_dropLocal (h : Good s) : Good s.dropLocal := by
  have hjobs := perm_threads s.jobs
  refine h.move [] [] ((s.jobs.filter fun job => job.onThread).map fun job =>
    (job.future, job.polls, .aborted)) (List.append_nil _).symm (List.append_nil _).symm rfl
    (perm_of_count fun x => ?_) (perm_of_count fun x => ?_) id (fun x hx => ?_) h.stopped h.thread
  · have hc := (hjobs.map Job.future).count_eq x
    have hfst : ∀ l : List (Job F), (l.map fun job => (job.future, job.polls, Ending.aborted)).map Prod.fst =
        l.map Job.future := fun l => by rw [List.map_map]; rfl
    simp only [dropLocal, hfst, List.map_append, List.count_append, List.count_nil] at hc ⊢
    omega
  · have hc := (hjobs.flatMap_right Job.record).count_eq x
    simp only [dropLocal, List.flatMap_append, List.flatMap_map, List.count_append, List.count_nil] at hc ⊢
    rw [hc]
    rfl
  · obtain ⟨job, -, rfl⟩ := List.mem_map.mp hx
    trivial

theorem good_advance (h : Good s) (panics : Bool) : Good (s.advance panics) := by
  unfold advance
  split
  · exact h
  · split
    · exact ⟨h.given, h.polled, h.endings, h.stopped, fun _ hleft => absurd rfl hleft⟩
    · exact h
  · exact ⟨h.given, h.polled, fun x hx => (h.endings x hx).mono fun _ => rfl, fun _ => rfl,
      fun _ _ => rfl⟩
  · rename_i ht
    have hstop := h.thread (by rw [ht]; simp) (by rw [ht]; simp)
    exact ⟨h.given, h.polled, h.endings, h.stopped, fun _ _ => hstop⟩
  · rename_i ht
    have hstop := h.thread (by rw [ht]; simp) (by rw [ht]; simp)
    have hdrop := good_dropLocal h
    exact ⟨hdrop.given, hdrop.polled, hdrop.endings, hdrop.stopped, fun _ _ => hstop⟩
  · rename_i ht
    have hstop := h.thread (by rw [ht]; simp) (by rw [ht]; simp)
    refine h.move [] [] (s.commands.map fun future => (future, 0, .unspawned))
      (List.append_nil _).symm (List.append_nil _).symm rfl (perm_of_count fun x => ?_) ?_ id
      (fun x hx => ?_) (fun _ => hstop) fun _ _ => hstop
    · simp only [List.map_map, Function.comp_def, List.map_id', List.count_append, List.count_nil]
      omega
    · have hnil : (s.commands.flatMap fun _ => ([] : List F)) = [] :=
        List.flatMap_eq_nil_iff.mpr fun _ _ => rfl
      simp [List.flatMap_map, hnil]
    · obtain ⟨future, -, rfl⟩ := List.mem_map.mp hx
      exact ⟨rfl, hstop⟩
  · rename_i ht
    have hstop := h.thread (by rw [ht]; simp) (by rw [ht]; simp)
    split
    · exact ⟨h.given, h.polled, h.endings, h.stopped, fun _ _ => hstop⟩
    · exact h
  · exact h

theorem good_step (h : Good s) (a : Act F) : Good (s.step a) := by
  cases a with
  | spawn future => exact good_spawn h future
  | spawnChild k future => exact good_spawnChild h k future
  | track k => exact good_track h k
  | spawnLocal future => exact good_spawnLocal h future
  | check k => exact good_check h k
  | poll k result => exact good_poll h k result
  | abort k => exact good_abort h k
  | takeCommand => exact good_takeCommand h
  | advance panics => exact good_advance h panics
  | timeout =>
    simp only [step, timeout]
    split
    · rename_i ht
      have hstop := h.thread (by rw [ht]; simp) (by rw [ht]; simp)
      exact ⟨h.given, h.polled, h.endings, h.stopped, fun _ _ => hstop⟩
    · exact h
  | shutdown =>
    simp only [step, shutdown]
    split
    · exact ⟨h.given, h.polled, fun x hx => (h.endings x hx).mono fun _ => rfl, fun _ => rfl,
        fun _ _ => rfl⟩
    · exact h
  | close =>
    simp only [step, close]
    split
    · exact h
    · exact ⟨h.given, h.polled, h.endings, h.stopped, h.thread⟩

end Steps

theorem good_run (as : List (Act F)) : Good (run step started as) :=
  run_inv (I := Good) (fun _ a h => good_step h a) as good_started

/-! ### The runtime that is not there -/

/-- What every step keeps of an unavailable runtime: each future it was given was
refused at once. -/
structure Absent (s : Runtime F) : Prop where
  stop : s.stop = false
  held : s.held = false
  receiving : s.receiving = false
  thread : s.thread = .absent
  passing : s.passing = []
  commands : s.commands = []
  jobs : s.jobs = []
  polled : s.polled = []
  ended : s.ended = s.given.map fun future => (future, 0, .unspawned)

theorem absent_unavailable : Absent (unavailable : Runtime F) :=
  ⟨rfl, rfl, rfl, rfl, rfl, rfl, rfl, rfl, rfl⟩

theorem Absent.refuse {s : Runtime F} (h : Absent s) (future : F) :
    Absent ({ s with given := s.given ++ [future] }.refuse future) := by
  refine { h with ended := ?_ }
  simp [Runtime.refuse, h.ended]

theorem absent_step {s : Runtime F} (h : Absent s) (a : Act F) : Absent (s.step a) := by
  cases a with
  | spawn future =>
    show Absent (if s.held = true then _ else _)
    rw [if_neg (by simp [h.held])]
    exact h.refuse future
  | spawnLocal future =>
    show Absent (if s.held = true ∧ s.receiving = true then _ else _)
    rw [if_neg (by simp [h.held])]
    exact h.refuse future
  | takeCommand => simpa [step, takeCommand, h.thread] using h
  | advance panics => simpa [step, advance, h.thread] using h
  | timeout => simpa [step, timeout, h.thread] using h
  | shutdown => simpa [step, shutdown, h.held] using h
  | close => simpa [step, close, h.thread] using h
  | spawnChild k future => simpa [step, spawnChild, h.jobs] using h
  | track k => simpa [step, track, h.passing] using h
  | check k => simpa [step, check, h.jobs] using h
  | poll k result => simpa [step, poll, h.jobs] using h
  | abort k => simpa [step, abort, h.jobs] using h

theorem absent_run (as : List (Act F)) : Absent (run step unavailable as) :=
  run_inv (I := Absent) (fun _ a h => absent_step h a) as absent_unavailable

/-- **Every future given to the runtime is in one place, or has one end**: it is
in a call of `spawn_on`, in the channel of the local thread, in a task, or over,
and every poll is one of its task. A future that was not spawned was never
polled. Of a runtime that was started, none is refused or dropped at a look at
the token before that is cancelled, and what `is_available` denies is that this
has happened; one that was not started is never available, and refuses every
future. -/
theorem futures_accounted (mode : NetworkRuntimeMode) (built spawned : Bool) (as : List (Act F)) :
    let s₀ : Runtime F := new mode built spawned
    let s := run step s₀ as
    s.given.Perm (s.passing ++ s.commands ++ s.jobs.map Job.future ++ s.ended.map Prod.fst) ∧
    s.polled.Perm (s.jobs.flatMap Job.record ++ s.ended.flatMap fun x => List.replicate x.2.1 x.1) ∧
    (∀ x ∈ s.ended, x.2.2 = .unspawned → x.2.1 = 0 ∧ (s₀.isAvailable = true → s.stop = true)) ∧
    (∀ x ∈ s.ended, x.2.2 = .cancelled → s.stop = true) ∧
    (∀ x ∈ s.ended, x.2.2 = .completed ∨ x.2.2 = .panicked → 0 < x.2.1) ∧
    (s.isAvailable = (s₀.isAvailable && !s.stop)) ∧
    (s₀.isAvailable = false → s.stop = false ∧ s.polled = [] ∧
      s.ended = s.given.map fun future => (future, 0, .unspawned)) := by
  intro s₀ s
  rcases new_cases mode built spawned with hnew | hnew
  · have h : Good s := by
      show Good (run step (new mode built spawned) as)
      rw [hnew]
      exact good_run as
    have hthere : s₀.isAvailable = true := by rw [show s₀ = started from hnew]; rfl
    refine ⟨h.given, h.polled, fun x hx he => ?_, fun x hx he => ?_, fun x hx he => ?_, ?_,
      fun hno => ?_⟩
    · have hfits := h.endings x hx
      rw [he] at hfits
      exact ⟨hfits.1, fun _ => hfits.2⟩
    · have hfits := h.endings x hx
      rwa [he] at hfits
    · have hfits := h.endings x hx
      rcases he with he | he
      · rwa [he] at hfits
      · rwa [he] at hfits
    · have hstopped := h.stopped
      rw [hthere]
      cases hs : s.stop with
      | true => simp [isAvailable, hs]
      | false =>
        rw [hs] at hstopped
        have hheld : s.held = true := by
          by_contra hno
          cases hstopped (Or.inl (by simpa using hno))
        have hreceiving : s.receiving = true := by
          by_contra hno
          cases hstopped (Or.inr (by simpa using hno))
        simp [isAvailable, hs, hheld, hreceiving]
    · rw [hthere] at hno
      cases hno
  · have h : Absent s := by
      show Absent (run step (new mode built spawned) as)
      rw [hnew]
      exact absent_run as
    have hnot : s₀.isAvailable = false := by rw [show s₀ = unavailable from hnew]; rfl
    have hends : ∀ x ∈ s.ended, x.2.1 = 0 ∧ x.2.2 = .unspawned := by
      intro x hx
      rw [h.ended] at hx
      obtain ⟨future, -, rfl⟩ := List.mem_map.mp hx
      exact ⟨rfl, rfl⟩
    refine ⟨?_, ?_, fun x hx _ => ⟨(hends x hx).1, fun hyes => ?_⟩, fun x hx he => ?_, fun x hx he => ?_,
      ?_, fun _ => ⟨h.stop, h.polled, h.ended⟩⟩
    · simp [h.passing, h.commands, h.jobs, h.ended, Function.comp_def]
    · have hnil : (s.given.flatMap fun _ => ([] : List F)) = [] :=
        List.flatMap_eq_nil_iff.mpr fun _ _ => rfl
      simp [h.polled, h.jobs, h.ended, List.flatMap_map, hnil]
    · rw [hnot] at hyes
      cases hyes
    · rw [(hends x hx).2] at he
      cases he
    · rw [(hends x hx).2] at he
      rcases he with he | he <;> cases he
    · rw [hnot]
      simp [isAvailable, h.held]

/-! ### After the token is cancelled -/

/-- The futures whose poll has begun. -/
def begun (s : Runtime F) : List F := (s.jobs.filter fun job => job.polling).map Job.future

/-- The polls since `s₀`, in which the token is cancelled, with those that have
begun and are not over. -/
def Winding (s₀ s : Runtime F) : Prop :=
  s.stop = true ∧ ∃ more, s.polled = s₀.polled ++ more ∧ (more ++ s.begun).Subperm s₀.begun

section Winding

variable {s₀ s : Runtime F}

theorem Winding.keep (h : Winding s₀ s) {s' : Runtime F} (hstop : s'.stop = true)
    (hpolled : s'.polled = s.polled) (hbegun : s'.begun.Sublist s.begun) : Winding s₀ s' := by
  obtain ⟨-, more, hmore, hsub⟩ := h
  refine ⟨hstop, more, hpolled.trans hmore, ?_⟩
  exact (List.Sublist.append (List.Sublist.refl more) hbegun).subperm.trans hsub

/-- A task is spawned, and is not in a poll. -/
theorem begun_concat (jobs : List (Job F)) (job : Job F) (hjob : job.polling = false) :
    ((jobs ++ [job]).filter fun job => job.polling).map Job.future =
      (jobs.filter fun job => job.polling).map Job.future := by
  simp [List.filter_append, hjob]

theorem Winding.settle (h : Winding s₀ s) {k : ℕ} {job : Job F} (polls : ℕ) (ending : Ending) :
    Winding s₀ (s.settle k job polls ending) :=
  h.keep h.1 rfl (((List.eraseIdx_sublist s.jobs k).filter _).map _)

/-- A poll that had begun is over: it is one poll more, and one less under way. -/
theorem Winding.polled (h : Winding s₀ s) {k : ℕ} {job : Job F} (hk : s.jobs[k]? = some job)
    (hpolling : job.polling = true) {s' : Runtime F} (hstop : s'.stop = s.stop)
    (hpolled : s'.polled = s.polled ++ [job.future])
    (hjobs : s'.jobs = s.jobs.eraseIdx k ∨ ∃ polls, s'.jobs = s.jobs.set k ⟨job.future, job.onThread, false, polls⟩) :
    Winding s₀ s' := by
  obtain ⟨l₁, l₂, hsplit, herase, hset⟩ := exists_split_of_getElem? hk
  obtain ⟨hs, more, hmore, hsub⟩ := h
  refine ⟨hstop.trans hs, more ++ [job.future], by rw [hpolled, hmore, List.append_assoc], ?_⟩
  have hbegun' : s'.begun = ((l₁ ++ l₂).filter fun job => job.polling).map Job.future := by
    rcases hjobs with he | ⟨polls, he⟩
    · rw [begun, he, herase]
    · rw [begun, he, hset]
      simp [List.filter_append]
  have hbegun : s.begun.Perm (job.future :: s'.begun) := by
    rw [hbegun', begun, hsplit]
    simp only [List.filter_append, List.filter_cons, hpolling, if_true, List.map_append, List.map_cons]
    exact List.perm_middle
  have hperm : (more ++ [job.future] ++ s'.begun).Perm (more ++ s.begun) := by
    rw [List.append_assoc]
    exact hbegun.symm.append_left more
  exact hperm.subperm.trans hsub

theorem winding_step (h : Winding s₀ s) (a : Act F) : Winding s₀ (s.step a) := by
  have hstop := h.1
  cases a with
  | spawn future =>
    show Winding s₀ (if s.held = true then _ else _)
    split
    · refine h.keep ?_ ?_ ?_
      · simp [spawnOn, refuse, hstop]
      · simp [spawnOn, refuse, hstop]
      · simp [spawnOn, refuse, hstop, begun]
    · exact h.keep hstop rfl (List.Sublist.refl _)
  | spawnChild k future =>
    simp only [step, spawnChild]
    split
    · split
      · refine h.keep ?_ ?_ ?_
        · simp [spawnOn, refuse, hstop]
        · simp [spawnOn, refuse, hstop]
        · simp [spawnOn, refuse, hstop, begun]
      · exact h
    · exact h
  | track k =>
    simp only [step, track]
    split
    · refine h.keep hstop rfl ?_
      rw [begun, begun_concat _ _ rfl]
      exact List.Sublist.refl _
    · exact h
  | spawnLocal future =>
    show Winding s₀ (if s.held = true ∧ s.receiving = true then _ else _)
    split
    · exact h.keep hstop rfl (List.Sublist.refl _)
    · exact h.keep hstop rfl (List.Sublist.refl _)
  | check k =>
    simp only [step, check]
    split
    · split
      · exact h
      · exact h.settle _ _
    · exact h
  | poll k result =>
    simp only [step, poll]
    split
    · rename_i job hk
      by_cases hpolling : job.polling = true
      · rw [if_pos hpolling]
        cases result with
        | pending => exact h.polled hk hpolling rfl rfl (Or.inr ⟨_, rfl⟩)
        | ready => exact h.polled hk hpolling rfl rfl (Or.inl rfl)
        | panicked => exact h.polled hk hpolling rfl rfl (Or.inl rfl)
      · rw [if_neg hpolling]
        exact h
    · exact h
  | abort k =>
    simp only [step, abort]
    split
    · split
      · exact h
      · exact h.settle _ _
    · exact h
  | takeCommand =>
    simp only [step, takeCommand]
    split
    · split
      · refine h.keep hstop rfl ?_
        rw [begun, begun_concat _ _ rfl]
        exact List.Sublist.refl _
      · exact h
    · exact h
  | advance panics =>
    simp only [step, advance]
    split
    · exact h
    · split
      · exact h.keep hstop rfl (List.Sublist.refl _)
      · exact h
    · exact h.keep rfl rfl (List.Sublist.refl _)
    · exact h.keep hstop rfl (List.Sublist.refl _)
    · exact h.keep hstop rfl ((List.filter_sublist.filter _).map _)
    · exact h.keep hstop rfl (List.Sublist.refl _)
    · split
      · exact h.keep hstop rfl (List.Sublist.refl _)
      · exact h
    · exact h
  | timeout =>
    simp only [step, timeout]
    split
    · exact h.keep hstop rfl (List.Sublist.refl _)
    · exact h
  | shutdown =>
    simp only [step, shutdown]
    split
    · exact h.keep rfl rfl (List.Sublist.refl _)
    · exact h
  | close =>
    simp only [step, close]
    split
    · exact h
    · exact h.keep hstop rfl (List.Sublist.refl _)

end Winding

/-- The local thread moves by its own steps. -/
theorem thread_step (s : Runtime F) {a : Act F} (hadvance : ∀ panics, a ≠ .advance panics)
    (htimeout : a ≠ .timeout) : (s.step a).thread = s.thread := by
  cases a with
  | spawn future =>
    simp only [step, spawn, spawnOn, refuse]
    split
    · split
      · rfl
      · rfl
    · rfl
  | spawnChild k future =>
    simp only [step, spawnChild, spawnOn, refuse]
    split
    · split
      · split
        · rfl
        · rfl
      · rfl
    · rfl
  | track k =>
    simp only [step, track]
    split
    · rfl
    · rfl
  | spawnLocal future =>
    simp only [step, spawnLocal, refuse]
    split
    · rfl
    · rfl
  | check k =>
    simp only [step, check, settle]
    split
    · split
      · rfl
      · split
        · rfl
        · rfl
    · rfl
  | poll k result =>
    simp only [step, poll, settle]
    split
    · split
      · cases result with
        | pending => rfl
        | ready => rfl
        | panicked => rfl
      · rfl
    · rfl
  | abort k =>
    simp only [step, abort, settle]
    split
    · split
      · rfl
      · rfl
    · rfl
  | takeCommand =>
    simp only [step, takeCommand]
    split
    · split
      · rfl
      · rfl
    · rfl
  | advance panics => exact absurd rfl (hadvance panics)
  | timeout => exact absurd rfl htimeout
  | shutdown =>
    simp only [step, shutdown]
    split
    · rfl
    · rfl
  | close =>
    simp only [step, close]
    split
    · rfl
    · rfl

/-- The wait has ended in time: no poll is under way. -/
def Rested (s : Runtime F) : Prop := s.thread = .finished true → s.begun = []

theorem rested_step {s : Runtime F} (hg : Good s) (h : Rested s) (a : Act F) : Rested (s.step a) := by
  intro hnow
  by_cases hfinished : s.thread = .finished true
  · have hstop := hg.thread (by rw [hfinished]; simp) (by rw [hfinished]; simp)
    have hwinding : Winding s s := ⟨hstop, [], (List.append_nil _).symm, List.Subperm.refl _⟩
    obtain ⟨-, more, -, hsub⟩ := winding_step hwinding a
    rw [h hfinished] at hsub
    have hnil := List.subperm_nil.mp hsub
    exact (List.append_eq_nil_iff.mp hnil).2
  by_cases hadvance : ∃ panics, a = .advance panics
  · obtain ⟨panics, rfl⟩ := hadvance
    simp only [step, advance] at hnow ⊢
    split at hnow
    · exact absurd hnow hfinished
    · split at hnow
      · cases hnow
      · exact absurd hnow hfinished
    · cases hnow
    · cases hnow
    · cases hnow
    · cases hnow
    · split at hnow
      · rename_i hjobs
        simp [begun, hjobs]
      · exact absurd hnow hfinished
    · exact absurd hnow hfinished
  by_cases htimeout : a = .timeout
  · subst htimeout
    simp only [step, timeout] at hnow
    split at hnow
    · cases hnow
    · exact absurd hnow hfinished
  · rw [thread_step s (fun panics he => hadvance ⟨panics, he⟩) htimeout] at hnow
    exact absurd hnow hfinished

theorem rested_run (as : List (Act F)) : Rested (run step started as) := by
  have hboth := run_inv (I := fun s : Runtime F => Good s ∧ Rested s)
    (fun _ a h => ⟨good_step h.1 a, rested_step h.1 h.2 a⟩) as ⟨good_started, fun _ => rfl⟩
  exact hboth.2

/-- What was polled was given. -/
theorem Good.polled_mem {s : Runtime F} (h : Good s) {future : F} (hpolled : future ∈ s.polled) :
    future ∈ s.given := by
  have hrecord := h.polled.mem_iff.mp hpolled
  refine h.given.mem_iff.mpr ?_
  rcases List.mem_append.mp hrecord with hmem | hmem
  · obtain ⟨job, hjob, hr⟩ := List.mem_flatMap.mp hmem
    rw [(List.mem_replicate.mp hr).2]
    simp only [places, List.mem_append]
    exact Or.inl (Or.inr (List.mem_map_of_mem hjob))
  · obtain ⟨x, hx, hr⟩ := List.mem_flatMap.mp hmem
    rw [(List.mem_replicate.mp hr).2]
    simp only [places, List.mem_append]
    exact Or.inr (List.mem_map_of_mem hx)

/-- **The end of the runtime.** Once the stop token is cancelled, whatever the
app, the tasks and the threads still do: it stays cancelled; the polls that come
after are of futures whose poll had begun, one each; a future given later is
never polled; and once the wait for the tasks has ended in time, there is not one
poll more. -/
theorem quiet_after_stop (mode : NetworkRuntimeMode) (built spawned : Bool) (as bs : List (Act F))
    (hstop : (run step (new mode built spawned) as).stop = true) :
    let s := run step (new mode built spawned) as
    let t := run step s bs
    t.stop = true ∧ ∃ more, t.polled = s.polled ++ more ∧ more.Subperm s.begun ∧
      (∀ future, future ∉ s.given → future ∉ t.polled) ∧ (s.thread = .finished true → more = []) := by
  intro s t
  have hs : s = run step started as := by
    rcases new_cases mode built spawned with hnew | hnew
    · exact congrArg (fun s₀ => run step s₀ as) hnew
    · rw [hnew, (absent_run as).stop] at hstop
      cases hstop
  have hg : Good s := by
    rw [hs]
    exact good_run as
  have hwinding : Winding s t :=
    run_inv (I := Winding s) (fun _ a h => winding_step h a) bs
      ⟨hstop, [], (List.append_nil _).symm, List.Subperm.refl _⟩
  obtain ⟨htstop, more, hmore, hsub⟩ := hwinding
  have hbegun : more.Subperm s.begun := (List.sublist_append_left _ _).subperm.trans hsub
  refine ⟨htstop, more, hmore, hbegun, fun future hnew hpolled => hnew ?_, fun hend => ?_⟩
  · rw [hmore] at hpolled
    rcases List.mem_append.mp hpolled with hmem | hmem
    · exact hg.polled_mem hmem
    · obtain ⟨job, hjob, rfl⟩ := List.mem_map.mp (hbegun.subset hmem)
      refine hg.given.mem_iff.mpr ?_
      simp only [places, List.mem_append]
      exact Or.inl (Or.inr (List.mem_map_of_mem (List.mem_filter.mp hjob).1))
  · have hrested : Rested s := by
      rw [hs]
      exact rested_run as
    rw [hrested hend] at hbegun
    exact List.subperm_nil.mp hbegun

/-- A future is in a poll, and a call of `spawn_on` past its look, when the app
exits: the poll ends, and the second future is spawned and never polled. -/
theorem quiet_after_stop_race :
    let as : List (Act ℕ) := [.spawn 0, .track 0, .check 0, .spawn 1, .shutdown]
    let bs : List (Act ℕ) := [.poll 0 .pending, .track 0, .check 1, .check 0, .advance false,
      .advance false, .advance false, .advance false, .advance false, .advance false]
    let s := run step (new (.owned 2) true true) as
    let t := run step s bs
    s.begun = [0] ∧ s.polled = [] ∧ t.polled = [0] ∧ t.thread = .finished true ∧ t.stop = true := by
  intro as bs s t
  have hquiet := quiet_after_stop (.owned 2) true true as bs (by decide +kernel)
  exact ⟨by decide +kernel, by decide +kernel, by decide +kernel, by decide +kernel, hquiet.1⟩

end Runtime
end Slinet
