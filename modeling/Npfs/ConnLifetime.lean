import Npfs.Transition

/-!
# The life of a connection

The reference count of one `Npconn` through `np_conn_create`, the reader that it starts, the
requests of the reader, `np_srv_remove_conn` and `np_srv_shutdown`.
-/

namespace Npfs.ConnLifetime

/-- Where `np_conn_create` is. -/
inductive Creator where
  /-- Before `np_srv_add_conn`. -/
  | adding
  /-- Before `pthread_create`. -/
  | starting
  | returning
  | returned
  deriving DecidableEq

/-- Where `np_conn_read_proc` is. -/
inductive Reader where
  | unborn
  /-- Before `np_conn_incref`. -/
  | starting
  /-- In the loop. -/
  | running
  /-- Behind `np_srv_remove_conn`. -/
  | removed
  | finished
  deriving DecidableEq

/-- The reader has its reference. -/
def Reader.holds : Reader → Bool
  | running | removed => true
  | _ => false

/-- The reader has taken its reference. -/
def Reader.arrived : Reader → Bool
  | running | removed | finished => true
  | _ => false

theorem Reader.finished_of_arrived {reader : Reader} (here : reader.arrived = true)
    (alone : reader.holds = false) : reader = .finished := by
  cases reader <;> simp_all [arrived, holds]

/-- An `Npconn` and who refers to it. -/
structure Conn where
  refcount : Nat
  creator : Creator
  reader : Reader
  /-- The connection is on `srv->conns`. -/
  listed : Bool
  /-- `np_srv_shutdown` has taken it from there, and has yet to release it. -/
  taken : Bool
  shuttingdown : Bool
  /-- The requests that have not been released. -/
  reqs : Nat
  /-- History: how often the structure was freed. -/
  freed : Nat
  /-- History: the counts that `np_conn_incref` found. -/
  increfs : List Nat
  /-- History: `np_conn_decref` has found the count 0. -/
  underflow : Bool
  deriving DecidableEq

/-- What happens next. -/
inductive Event where
  /-- `np_srv_add_conn`. -/
  | add
  /-- `pthread_create`. -/
  | spawn
  /-- `np_conn_create` returns the connection. -/
  | return_
  /-- The first `np_conn_incref` of the reader. -/
  | arrive
  /-- `np_req_alloc`, in the reader. -/
  | alloc
  /-- The last `np_req_unref` of a request, in any thread. -/
  | release
  /-- `np_srv_remove_conn`, in the reader. -/
  | remove
  /-- The last `np_conn_decref` of the reader. -/
  | finish
  /-- The critical section of `np_srv_shutdown`. -/
  | shutdown (shutconns : Bool)
  /-- `np_conn_decref` in the loop of `np_srv_shutdown`. -/
  | drop
  deriving DecidableEq

namespace Conn

/-- The structure as `np_conn_create` initializes it. -/
def start (shuttingdown : Bool) : Conn where
  refcount := 0
  creator := .adding
  reader := .unborn
  listed := false
  taken := false
  shuttingdown := shuttingdown
  reqs := 0
  freed := 0
  increfs := []
  underflow := false

variable (s : Conn)

/-- `np_conn_incref`. -/
def npConnIncref : Conn :=
  { s with refcount := s.refcount + 1, increfs := s.increfs ++ [s.refcount] }

/-- `np_conn_decref`. -/
def npConnDecref : Conn :=
  { s with
    refcount := s.refcount - 1
    freed := if s.refcount = 1 then s.freed + 1 else s.freed
    underflow := s.underflow || s.refcount = 0 }

/-- One step; `none` when nobody can take it. -/
def step : Event → Option Conn
  | .add =>
    if s.creator = .adding then
      let s := { s with creator := .starting }
      some (if s.shuttingdown then s else { s.npConnIncref with listed := true })
    else none
  | .spawn =>
    if s.creator = .starting then some { s with creator := .returning, reader := .starting }
    else none
  | .return_ => if s.creator = .returning then some { s with creator := .returned } else none
  | .arrive =>
    if s.reader = .starting then some { s.npConnIncref with reader := .running } else none
  | .alloc =>
    if s.reader = .running then some { s.npConnIncref with reqs := s.reqs + 1 } else none
  | .release => if 0 < s.reqs then some { s.npConnDecref with reqs := s.reqs - 1 } else none
  | .remove =>
    if s.reader = .running then
      let s := { s with reader := .removed }
      some (if s.listed then { s.npConnDecref with listed := false } else s)
    else none
  | .finish =>
    if s.reader = .removed then some { s.npConnDecref with reader := .finished } else none
  | .shutdown shutconns =>
    if s.shuttingdown then some s
    else
      some { s with
        shuttingdown := true
        taken := s.taken || (shutconns && s.listed)
        listed := s.listed && !shutconns }
  | .drop => if s.taken then some { s.npConnDecref with taken := false } else none

/-- Nobody will use the connection any more. -/
structure Over : Prop where
  reader : s.reader = .finished
  creator : s.creator = .returned
  reqs : s.reqs = 0
  listed : s.listed = false
  taken : s.taken = false

/-- The connection is freed once, when it is no longer in use, and its count goes up from zero only
for its first reference. -/
structure Lived : Prop where
  once : s.freed ≤ 1
  unused : 0 < s.freed → s.Over
  freed : s.reader = .finished → s.reqs = 0 → s.taken = false → s.freed = 1
  rises : ∀ count ∈ s.increfs.tail, count ≠ 0
  falls : s.underflow = false

/-- The step drops a reference. -/
def drops : Event → Bool
  | .release | .finish | .drop => true
  | .remove => s.listed
  | _ => false

/-- The last reference is dropped after `np_conn_create` has returned and the reader has taken its
own. -/
def Timely (event : Event) : Prop :=
  s.drops event = true → s.refcount = 1 → s.creator = .returned ∧ s.reader.arrived = true

instance (event : Event) : Decidable (s.Timely event) :=
  inferInstanceAs (Decidable (_ → _ → _ ∧ _))

/-! ## Every run -/

/-- The count is the number of the references. -/
structure Counted : Prop where
  count : s.refcount = (if s.listed then 1 else 0) + (if s.taken then 1 else 0) +
    (if s.reader.holds then 1 else 0) + s.reqs
  adding : s.creator = .adding → s.reader = .unborn ∧ s.listed = false ∧ s.taken = false
  unborn : s.reader = .unborn ↔ s.creator = .adding ∨ s.creator = .starting
  reqs : 0 < s.reqs → s.reader.arrived = true
  listed : s.listed = true → s.taken = false ∧ s.reader ≠ .removed ∧ s.reader ≠ .finished
  freed : s.freed = if s.reader = .finished ∧ s.refcount = 0 then 1 else 0
  returned : 0 < s.freed → s.creator = .returned
  first : s.increfs = [] → s.refcount = 0 ∧ s.reader.arrived = false
  last : s.increfs ≠ [] → s.refcount = 0 → s.reader = .finished
  rises : ∀ count ∈ s.increfs.tail, count ≠ 0
  falls : s.underflow = false

theorem counted_start (down : Bool) : (start down).Counted := by
  constructor <;> simp [start, Reader.holds, Reader.arrived]

variable {s}

namespace Counted

theorem lived (counted : s.Counted) : s.Lived := by
  obtain ⟨count, adding, unborn, reqs, listed, freed, returned, first, last, rises, falls⟩ :=
    counted
  have idle : s.reader = .finished → s.listed = false := by
    intro finished
    by_contra list
    exact (listed (by simpa using list)).2.2 finished
  constructor
  case once =>
    rw [freed]
    split_ifs <;> omega
  case unused =>
    intro some
    have gone : s.reader = .finished ∧ s.refcount = 0 := by
      by_contra other
      rw [freed, if_neg other] at some
      simp at some
    obtain ⟨finished, zero⟩ := gone
    rw [zero] at count
    refine ⟨finished, returned (by simp [freed, finished, zero]), by omega, idle finished, ?_⟩
    cases taken : s.taken
    · rfl
    · simp [taken] at count
      omega
  case freed =>
    intro finished none released
    rw [freed, if_pos]
    simp [finished, count, none, released, idle finished, Reader.holds]
  case rises => exact rises
  case falls => exact falls

theorem incref (counted : s.Counted) (held : s.increfs ≠ [] → s.refcount ≠ 0) :
    ∀ count ∈ s.npConnIncref.increfs.tail, count ≠ 0 := by
  have rises := counted.rises
  cases found : s.increfs with
  | nil => simp [npConnIncref, found]
  | cons first rest =>
      intro count mem
      simp only [npConnIncref, found, List.cons_append, List.tail_cons, List.mem_append,
        List.mem_singleton] at mem
      rw [found] at rises
      rcases mem with mem | rfl
      · exact rises count mem
      · exact held (by simp [found])

section Step

variable {s' : Conn}

attribute [local grind] Reader.holds Reader.arrived

theorem add (counted : s.Counted) (taken : s.step .add = some s') : s'.Counted := by
  have incref := counted.incref
  obtain ⟨count, adding, unborn, reqs, listed, freed, returned, first, last, rises, falls⟩ :=
    counted
  simp only [Conn.step] at taken
  split_ifs at taken with here down
  · cases taken
    constructor <;> grind -linarith
  · cases taken
    constructor <;> simp only [npConnIncref] at * <;> grind -linarith

theorem spawn (counted : s.Counted) (taken : s.step .spawn = some s') : s'.Counted := by
  obtain ⟨count, adding, unborn, reqs, listed, freed, returned, first, last, rises, falls⟩ :=
    counted
  simp only [Conn.step] at taken
  split_ifs at taken with here
  cases taken
  constructor <;> grind -linarith

theorem return_ (counted : s.Counted) (taken : s.step .return_ = some s') : s'.Counted := by
  obtain ⟨count, adding, unborn, reqs, listed, freed, returned, first, last, rises, falls⟩ :=
    counted
  simp only [Conn.step] at taken
  split_ifs at taken with here
  cases taken
  constructor <;> grind -linarith

theorem arrive (counted : s.Counted) (taken : s.step .arrive = some s') : s'.Counted := by
  have incref := counted.incref
  have grown : s.increfs ++ [s.refcount] ≠ [] := by simp
  obtain ⟨count, adding, unborn, reqs, listed, freed, returned, first, last, rises, falls⟩ :=
    counted
  simp only [Conn.step] at taken
  split_ifs at taken with here
  cases taken
  constructor <;> simp only [npConnIncref] at * <;> grind -linarith

theorem alloc (counted : s.Counted) (taken : s.step .alloc = some s') : s'.Counted := by
  have incref := counted.incref
  have grown : s.increfs ++ [s.refcount] ≠ [] := by simp
  obtain ⟨count, adding, unborn, reqs, listed, freed, returned, first, last, rises, falls⟩ :=
    counted
  simp only [Conn.step] at taken
  split_ifs at taken with here
  cases taken
  constructor <;> simp only [npConnIncref] at * <;> grind -linarith

theorem release (counted : s.Counted) (timely : s.Timely .release)
    (taken : s.step .release = some s') : s'.Counted := by
  have gone := s.reader.finished_of_arrived
  obtain ⟨count, adding, unborn, reqs, listed, freed, returned, first, last, rises, falls⟩ :=
    counted
  simp only [Timely, drops] at timely
  simp only [Conn.step] at taken
  split_ifs at taken with here
  cases taken
  constructor <;> simp only [npConnDecref] at * <;> grind -linarith

theorem remove (counted : s.Counted) (timely : s.Timely .remove)
    (taken : s.step .remove = some s') : s'.Counted := by
  obtain ⟨count, adding, unborn, reqs, listed, freed, returned, first, last, rises, falls⟩ :=
    counted
  simp only [Timely, drops] at timely
  simp only [Conn.step] at taken
  split_ifs at taken with here list
  · cases taken
    constructor <;> simp only [npConnDecref] at * <;> grind -linarith
  · cases taken
    constructor <;> grind -linarith

theorem finish (counted : s.Counted) (timely : s.Timely .finish)
    (taken : s.step .finish = some s') : s'.Counted := by
  obtain ⟨count, adding, unborn, reqs, listed, freed, returned, first, last, rises, falls⟩ :=
    counted
  simp only [Timely, drops] at timely
  simp only [Conn.step] at taken
  split_ifs at taken with here
  cases taken
  constructor <;> simp only [npConnDecref] at * <;> grind -linarith

theorem shutdown (counted : s.Counted) {shutconns : Bool}
    (taken : s.step (.shutdown shutconns) = some s') : s'.Counted := by
  obtain ⟨count, adding, unborn, reqs, listed, freed, returned, first, last, rises, falls⟩ :=
    counted
  simp only [Conn.step] at taken
  split_ifs at taken with down
  · cases taken
    constructor <;> assumption
  · cases taken
    cases shutconns <;> constructor <;> grind -linarith

theorem drop (counted : s.Counted) (timely : s.Timely .drop)
    (taken : s.step .drop = some s') : s'.Counted := by
  have gone := s.reader.finished_of_arrived
  obtain ⟨count, adding, unborn, reqs, listed, freed, returned, first, last, rises, falls⟩ :=
    counted
  simp only [Timely, drops] at timely
  simp only [Conn.step] at taken
  split_ifs at taken with here
  cases taken
  constructor <;> simp only [npConnDecref] at * <;> grind -linarith

theorem step (counted : s.Counted) {event : Event} (timely : s.Timely event)
    (taken : s.step event = some s') : s'.Counted := by
  cases event with
  | add => exact counted.add taken
  | spawn => exact counted.spawn taken
  | return_ => exact counted.return_ taken
  | arrive => exact counted.arrive taken
  | alloc => exact counted.alloc taken
  | release => exact counted.release timely taken
  | remove => exact counted.remove timely taken
  | finish => exact counted.finish timely taken
  | shutdown shutconns => exact counted.shutdown taken
  | drop => exact counted.drop timely taken

end Step

end Counted

/-- The first reference is taken when the count is 0. -/
theorem first_incref {event : Event} {s' : Conn} (sound : s.increfs = [] → s.refcount = 0)
    (rises : s.increfs ≠ [] → 0 ∈ s.increfs) (taken : s.step event = some s') :
    (s'.increfs = [] → s'.refcount = 0) ∧ (s'.increfs ≠ [] → 0 ∈ s'.increfs) := by
  have incref : 0 ∈ s.npConnIncref.increfs := by
    by_cases first : s.increfs = []
    · simp [npConnIncref, sound first]
    · exact List.mem_append_left _ (rises first)
  cases event <;> simp only [Conn.step] at taken <;> split_ifs at taken <;> cases taken <;>
    grind -linarith [npConnIncref, npConnDecref]

/-- A last reference that is dropped too early frees a connection that is still in use. -/
theorem not_lived_of_untimely {event : Event} {s' : Conn} (untimely : ¬ s.Timely event)
    (taken : s.step event = some s') : ¬ s'.Lived := by
  obtain ⟨drops, one, early⟩ : s.drops event = true ∧ s.refcount = 1 ∧
      ¬ (s.creator = .returned ∧ s.reader.arrived = true) := by
    simpa [Timely] using untimely
  intro lived
  have freed : 0 < s.npConnDecref.freed := by simp [npConnDecref, one]
  cases event with
  | release =>
      simp only [step] at taken
      split_ifs at taken with here
      cases taken
      obtain ⟨reader, creator, -⟩ := lived.unused freed
      exact early ⟨creator, by rw [show s.reader = .finished from reader]; rfl⟩
  | remove =>
      have list : s.listed = true := drops
      simp only [step, list] at taken
      split_ifs at taken with here
      cases taken
      have freed' : 0 < ({ s with reader := .removed } : Conn).npConnDecref.freed := freed
      have reader := (lived.unused freed').reader
      simp [npConnDecref] at reader
  | finish =>
      simp only [step] at taken
      split_ifs at taken with here
      cases taken
      exact early ⟨(lived.unused freed).creator, by rw [here]; rfl⟩
  | drop =>
      simp only [step] at taken
      split_ifs at taken with here
      cases taken
      obtain ⟨reader, creator, -⟩ := lived.unused freed
      exact early ⟨creator, by rw [show s.reader = .finished from reader]; rfl⟩
  | _ => cases drops

/-- An `Npconn` starts with the count 0, which its first reference raises.  Apart from that the
promise is kept in the runs in which the last reference is dropped in time, and in no others. -/
theorem lived_of_run (down : Bool) :
    (∀ s, Transition.Reaches step (fun _ _ => True) (start down) s → s.increfs ≠ [] →
      0 ∈ s.increfs) ∧
    (∀ s, Transition.Reaches step Timely (start down) s → s.Lived) ∧
    ∀ s event s', Transition.Reaches step Timely (start down) s → ¬ s.Timely event →
      s.step event = some s' → ¬ s'.Lived := by
  have counted : ∀ s, Transition.Reaches step Timely (start down) s → s.Counted := fun s run =>
    run.invariant Counted (counted_start down) fun counted timely taken => counted.step timely taken
  refine ⟨fun s run => ?_, fun s run => (counted s run).lived, fun s event s' _ untimely taken =>
    not_lived_of_untimely untimely taken⟩
  exact (run.invariant (fun s => (s.increfs = [] → s.refcount = 0) ∧
    (s.increfs ≠ [] → 0 ∈ s.increfs)) ⟨fun _ => rfl, fun some => absurd rfl some⟩
    fun sound _ taken => first_incref sound.1 sound.2 taken).2

/-- The reader leaves in the middle of a shutdown, with a request in the hands of a worker. -/
theorem lived_of_run_shutdown : ∃ s, Transition.Reaches step Timely (start false) s ∧
    s.freed = 1 ∧ s.increfs = [0, 1, 2] ∧ s.Lived :=
  let played := Transition.play step Timely (start false)
    [.add, .spawn, .return_, .arrive, .alloc, .shutdown true, .remove, .finish, .drop, .release]
  have run := Transition.reaches_of_play (Option.some_get (show played.isSome from rfl)).symm
  ⟨_, run, rfl, rfl, (lived_of_run false).2.1 _ run⟩

/-- `np_srv_shutdown` releases the connection before its reader has run. -/
theorem not_lived_of_shutdown : ¬ ∀ s,
    Transition.Reaches step (fun _ _ => True) (start false) s → s.Lived := by
  intro all
  have played : Transition.play step (fun _ _ => True) (start false)
      [.add, .spawn, .return_, .shutdown true, .drop] = some
        { start false with
          creator := .returned, reader := .starting, shuttingdown := true, freed := 1,
          increfs := [0] } := by decide
  have gone := ((all _ (Transition.reaches_of_play played)).unused (by decide)).reader
  exact absurd gone (by decide)

end Conn

end Npfs.ConnLifetime
