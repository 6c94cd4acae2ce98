import Npfs.Message
import Npfs.Transition

/-!
# The roots of the worker threads

`np_srv_confine` and the loop of `np_wthread_proc` in `libnpfs/srv.c`.  A thread gives up
`srv->lock` only in `pthread_cond_wait` and around the service of a request, so one pass through the
loop of a worker is a step, and so is one pass through the loop of `np_srv_confine`.  A waiting
thread may wake at any time.
-/

namespace Npfs.WorkerRoots

open Function

/-- What `np_thread_confine` did. -/
inductive Outcome where
  | took
  | failed (errno : Nat) (set : errno ≠ 0)
  deriving DecidableEq

namespace Outcome

/-- The result of `np_thread_confine`. -/
def result : Outcome → Int
  | took => 1
  | failed .. => -1

/-- `if (wt->confined < 0 && !srv->confineerr) srv->confineerr = errno`. -/
def record (confineerr : Nat) : Outcome → Nat
  | took => confineerr
  | failed errno _ => if confineerr = 0 then errno else confineerr

theorem record_ne_zero (outcome : Outcome) {confineerr : Nat} (set : confineerr ≠ 0) :
    outcome.record confineerr ≠ 0 := by
  cases outcome <;> simp [record, set]

theorem record_failed (confineerr errno : Nat) (set : errno ≠ 0) :
    (failed errno set).record confineerr ≠ 0 := by
  by_cases fine : confineerr = 0 <;> simp [record, fine, set]

end Outcome

/-- Where a worker is between its sections. -/
inductive WorkerAt where
  | starting
  /-- In `pthread_cond_wait(&srv->reqcond, &srv->lock)`. -/
  | waiting
  | serving (req : Nat)
  | exited
  deriving DecidableEq

/-- Where the caller of `np_srv_confine` is. -/
inductive Caller where
  | before
  /-- In `pthread_cond_wait(&srv->confcond, &srv->lock)`, with its `n`. -/
  | waiting (n : Nat)
  | returned (ret : Int)
  deriving DecidableEq

/-- A request that a worker took from the queue. -/
structure Taken (workers : Nat) where
  wt : Fin workers
  req : Nat
  /-- `srv->confine` at that time. -/
  confine : Option CStr

/-- An `Npsrv` with its `Npwthread`s. -/
structure Srv (workers : Nat) where
  confine : Option CStr
  nconfined : Nat
  confineerr : Nat
  reqs : List Nat
  wthreads : List (Fin workers)
  shutdown : Fin workers → Bool
  confined : Fin workers → Int
  at_ : Fin workers → WorkerAt
  caller : Caller
  /-- History: what `np_thread_confine` did in each worker. -/
  attempts : Fin workers → List Outcome
  /-- History: the requests that workers took. -/
  taken : List (Taken workers)

/-- What happens next. -/
inductive Event (workers : Nat) where
  /-- A worker runs through its loop once; `np_thread_confine` has this outcome, if it is called. -/
  | pass (wt : Fin workers) (outcome : Outcome)
  | confine (path : Option CStr)
  /-- `np_srv_confine` wakes up. -/
  | wake
  /-- Requests are queued, flushed or dropped. -/
  | queue (reqs : List Nat)
  /-- `np_srv_destroy`. -/
  | destroy

namespace Srv

variable {workers : Nat} (s : Srv workers)

/-- The server behind `np_srv_create`, with its workers listed. -/
def start (workers : Nat) : Srv workers where
  confine := none
  nconfined := 0
  confineerr := 0
  reqs := []
  wthreads := List.finRange workers
  shutdown _ := false
  confined _ := 0
  at_ _ := .starting
  caller := .before
  attempts _ := []
  taken := []

/-- The first branch of the loop of `np_wthread_proc`. -/
def takeRoot (wt : Fin workers) (outcome : Outcome) : Srv workers :=
  if s.confine.isSome ∧ s.confined wt = 0 then
    { s with
      confined := update s.confined wt outcome.result
      confineerr := outcome.record s.confineerr
      nconfined := s.nconfined + 1
      attempts := update s.attempts wt (s.attempts wt ++ [outcome]) }
  else s

/-- A worker goes on at `at_`. -/
def move (wt : Fin workers) (at_ : WorkerAt) : Srv workers :=
  { s with at_ := update s.at_ wt at_ }

/-- The rest of the loop of `np_wthread_proc`. -/
def serve (wt : Fin workers) : Srv workers :=
  if s.confine.isSome ∧ s.confined wt ≠ 1 then s.move wt .waiting
  else
    match s.reqs with
    | [] => s.move wt .waiting
    | req :: rest =>
      { s with
        reqs := rest
        taken := s.taken ++ [Taken.mk wt req s.confine] }.move wt (.serving req)

/-- One pass through the loop of `np_wthread_proc`. -/
def npWthreadPass (wt : Fin workers) (outcome : Outcome) : Srv workers :=
  if s.shutdown wt then s.move wt .exited else (s.takeRoot wt outcome).serve wt

/-- One pass through the loop of `np_srv_confine`, and what comes behind it. -/
def settle (n : Nat) : Srv workers :=
  { s with
    caller :=
      if s.nconfined < n then .waiting n else .returned (if s.confineerr = 0 then 0 else -1) }

/-- `np_srv_confine`, up to its first wait. -/
def npSrvConfine (path : Option CStr) : Srv workers :=
  { s with confine := path }.settle s.wthreads.length

/-- One step; `none` when it cannot be taken. -/
def step : Event workers → Option (Srv workers)
  | .pass wt outcome =>
    if s.at_ wt = .exited then none else some (s.npWthreadPass wt outcome)
  | .confine path =>
    match s.caller with
    | .before => some (s.npSrvConfine path)
    | _ => none
  | .wake =>
    match s.caller with
    | .waiting n => some (s.settle n)
    | _ => none
  | .queue reqs => some { s with reqs }
  | .destroy => some { s with shutdown := fun wt => s.shutdown wt || wt ∈ s.wthreads }

/-- A worker that takes requests of a confined server has taken the root, no worker tries twice, and
`np_srv_confine` succeeds only when all have taken it. -/
structure Contained : Prop where
  served : ∀ e ∈ s.taken, e.confine.isSome → s.attempts e.wt = [.took]
  once : ∀ wt, (s.attempts wt).length ≤ 1
  success : s.caller = .returned 0 → ∀ wt ∈ s.wthreads, s.attempts wt = [.took]

/-! ## Every run -/

/-- `wt->confined` and what it stands for. -/
def Tried (confined : Int) (attempts : List Outcome) : Prop :=
  (confined = 0 ∧ attempts = []) ∨ (confined = 1 ∧ attempts = [.took]) ∨
    confined = -1 ∧ ∃ errno set, attempts = [.failed errno set]

/-- What holds between the sections. -/
structure Sound : Prop where
  listed : s.wthreads = List.finRange workers
  tried : ∀ wt, Tried (s.confined wt) (s.attempts wt)
  nconfined : s.nconfined = ∑ wt, (s.attempts wt).length
  confineerr : ∀ wt errno set, .failed errno set ∈ s.attempts wt → s.confineerr ≠ 0
  served : ∀ e ∈ s.taken, e.confine.isSome → s.attempts e.wt = [.took]
  asked : ∀ n, s.caller = .waiting n → n = workers
  success : s.caller = .returned 0 → ∀ wt, s.attempts wt = [.took]

theorem sound_start : (start workers).Sound where
  listed := rfl
  tried _ := .inl ⟨rfl, rfl⟩
  nconfined := by simp [start]
  confineerr := by simp [start]
  served := by simp [start]
  asked := by simp [start]
  success := by simp [start]

namespace Sound

variable {s}

theorem contained (sound : s.Sound) : s.Contained where
  served := sound.served
  once wt := by
    rcases sound.tried wt with ⟨-, none⟩ | ⟨-, took⟩ | ⟨-, errno, set, failed⟩ <;> simp_all
  success done wt _ := sound.success done wt

/-- When every worker has answered, and none with an error, every worker has taken the root. -/
theorem all_took (sound : s.Sound) (answered : workers ≤ s.nconfined) (fine : s.confineerr = 0)
    (wt : Fin workers) : s.attempts wt = [.took] := by
  rcases sound.tried wt with ⟨-, none⟩ | ⟨-, took⟩ | ⟨-, errno, set, failed⟩
  · have fewer : ∑ wt, (s.attempts wt).length < ∑ _wt : Fin workers, 1 := by
      refine Finset.sum_lt_sum (fun other _ => sound.contained.once other) ⟨wt, ?_, ?_⟩
      · exact Finset.mem_univ wt
      · simp [none]
    rw [← sound.nconfined] at fewer
    simp at fewer
    omega
  · exact took
  · exact absurd fine (sound.confineerr wt errno set (by simp [failed]))

theorem settle (sound : s.Sound) {n : Nat} (asked : n = workers) : (s.settle n).Sound := by
  refine { sound with asked := fun m waits => ?_, success := fun done => ?_ }
  · simp only [Srv.settle] at waits
    split_ifs at waits
    cases waits
    exact asked
  · simp only [Srv.settle] at done
    split_ifs at done with short fine
    · exact sound.all_took (by omega) fine
    · simp at done

theorem move (sound : s.Sound) (wt : Fin workers) (at_ : WorkerAt) : (s.move wt at_).Sound :=
  { sound with }

theorem takeRoot (sound : s.Sound) (wt : Fin workers) (outcome : Outcome) :
    (s.takeRoot wt outcome).Sound := by
  by_cases asked : s.confine.isSome ∧ s.confined wt = 0
  · have untried : s.attempts wt = [] := by
      rcases sound.tried wt with ⟨-, untried⟩ | ⟨took, -⟩ | ⟨failed, -⟩
      · exact untried
      · simp [took] at asked
      · simp [failed] at asked
    rw [Srv.takeRoot, if_pos asked, untried, List.nil_append]
    refine { sound with
      tried := fun other => ?_, nconfined := ?_, confineerr := fun other errno set failed => ?_,
      served := fun e mem set => ?_, success := fun done => ?_ }
    · by_cases same : other = wt
      · subst same
        simp only [update_self]
        cases outcome with
        | took => exact .inr (.inl ⟨rfl, rfl⟩)
        | failed errno set => exact .inr (.inr ⟨rfl, errno, set, rfl⟩)
      · simpa [same] using sound.tried other
    · have grown : ∀ other, (update s.attempts wt [outcome] other).length =
          (s.attempts other).length + if other = wt then 1 else 0 := by
        intro other
        by_cases same : other = wt
        · subst same
          simp [untried]
        · simp [same]
      simp [grown, Finset.sum_add_distrib, sound.nconfined]
    · by_cases same : other = wt
      · subst same
        obtain rfl : Outcome.failed errno set = outcome := by simpa using failed
        exact Outcome.record_failed _ _ set
      · refine outcome.record_ne_zero (sound.confineerr other errno set ?_)
        simpa [same] using failed
    · have took := sound.served e mem set
      have other : e.wt ≠ wt := by
        rintro same
        simp [same, untried] at took
      simpa [other] using took
    · have took := sound.success done wt
      simp [untried] at took
  · rwa [Srv.takeRoot, if_neg asked]

theorem serve (sound : s.Sound) (wt : Fin workers) : (s.serve wt).Sound := by
  by_cases outside : s.confine.isSome ∧ s.confined wt ≠ 1
  · rw [Srv.serve, if_pos outside]
    exact sound.move wt _
  · rw [Srv.serve, if_neg outside]
    cases queue : s.reqs with
    | nil => exact sound.move wt _
    | cons req rest =>
        have log : ∀ e ∈ s.taken ++ [Taken.mk wt req s.confine], e.confine.isSome →
            s.attempts e.wt = [.took] := by
          intro e mem set
          rcases List.mem_append.mp mem with mem | mem
          · exact sound.served e mem set
          · obtain rfl := List.mem_singleton.mp mem
            have inside : s.confined wt = 1 := by
              by_contra other
              exact outside ⟨set, other⟩
            rcases sound.tried wt with ⟨untried, -⟩ | ⟨-, took⟩ | ⟨failed, -⟩
            · simp [untried] at inside
            · exact took
            · simp [failed] at inside
        have served : ({ s with
            reqs := rest
            taken := s.taken ++ [Taken.mk wt req s.confine] } : Srv workers).Sound :=
          { sound with served := log }
        exact served.move wt _

theorem step (sound : s.Sound) {event : Event workers} {s' : Srv workers}
    (taken : s.step event = some s') : s'.Sound := by
  cases event with
  | pass wt outcome =>
      by_cases gone : s.at_ wt = .exited
      · simp [Srv.step, gone] at taken
      · obtain rfl : s.npWthreadPass wt outcome = s' := by simpa [Srv.step, gone] using taken
        unfold Srv.npWthreadPass
        split_ifs
        · exact sound.move wt _
        · exact (sound.takeRoot wt outcome).serve wt
  | confine path =>
      cases caller : s.caller with
      | before =>
          obtain rfl : s.npSrvConfine path = s' := by simpa [Srv.step, caller] using taken
          have set : ({ s with confine := path } : Srv workers).Sound := { sound with }
          exact set.settle (by simp [sound.listed])
      | waiting n => simp [Srv.step, caller] at taken
      | returned ret => simp [Srv.step, caller] at taken
  | wake =>
      cases caller : s.caller with
      | before => simp [Srv.step, caller] at taken
      | waiting n =>
          obtain rfl : s.settle n = s' := by simpa [Srv.step, caller] using taken
          exact sound.settle (sound.asked n caller)
      | returned ret => simp [Srv.step, caller] at taken
  | queue reqs =>
      cases taken
      exact { sound with }
  | destroy =>
      cases taken
      exact { sound with }

end Sound

end Srv

/-- Whatever the order of the sections, the outcomes of `np_thread_confine` and the requests that
arrive, confinement is not bypassed. -/
theorem contained_of_run {workers : Nat} {s : Srv workers}
    (run : Transition.Reaches Srv.step (fun _ _ => True) (Srv.start workers) s) : s.Contained :=
  (run.invariant Srv.Sound Srv.sound_start fun sound _ taken => sound.step taken).contained

/-- One worker serves a request from before, the other cannot take the root: it leaves the second
request to the first, and `np_srv_confine` fails. -/
theorem contained_of_run_failed : ∃ s : Srv 2,
    Transition.Reaches Srv.step (fun _ _ => True) (Srv.start 2) s ∧ s.caller = .returned (-1) ∧
      s.attempts 1 = [.failed 1 (by decide)] ∧ s.at_ 0 = .serving 8 ∧ s.Contained := by
  have played : (Transition.play Srv.step (fun _ _ => True) (Srv.start 2)
      [.queue [7], .pass 0 .took, .confine (some ⟨[47], by decide⟩), .queue [8],
        .pass 1 (.failed 1 (by decide)), .wake, .pass 1 .took, .pass 0 .took, .wake]).map
      (fun s => (s.caller, s.attempts 1, s.at_ 0)) =
        some (.returned (-1), [.failed 1 (by decide)], .serving 8) := by
    decide +kernel
  obtain ⟨s, run, seen⟩ := Option.map_eq_some_iff.mp played
  obtain ⟨caller, rest⟩ := Prod.mk.inj seen
  obtain ⟨attempts, serving⟩ := Prod.mk.inj rest
  have reached := Transition.reaches_of_play run
  exact ⟨s, reached, caller, attempts, serving, contained_of_run reached⟩

end Npfs.WorkerRoots
