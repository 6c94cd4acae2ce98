import Npfs.Cells
import Npfs.LinkedChain
import Npfs.Transition

/-!
# The free messages of a connection

`np_conn_new_incall` and `np_conn_free_incall` keep a list of messages that are not in use.  A reset
and the last reference discard the list.  Nobody counts the messages that are put on it.
-/

namespace Npfs

namespace FreeCalls

/-- A pointer to an `Npfcall`. -/
abbrev CallPtr := ℕ

/-- A pointer to an `Npreq`. -/
abbrev ReqPtr := ℕ

/-- An `Npfcall`: its link, and the room that there is behind it for the packet. -/
structure Incall where
  next : Option CallPtr
  room : ℕ
  deriving DecidableEq

/-- How far `np_conn_read_proc` is. -/
inductive Reader where
  | idle
  /-- It reads into the message `fc`. -/
  | reading (fc : Option CallPtr)
  /-- It has a request that has not been added yet, and reads into `fc` next. -/
  | adding (req : ReqPtr) (fc : Option CallPtr)
  | done
  deriving DecidableEq

/-- The message of the reader. -/
def Reader.fc : Reader → Option CallPtr
  | .reading fc | .adding _ fc => fc
  | .idle | .done => none

/-- How far a call of `np_conn_reset`, or the loop of `np_conn_decref`, is with the list. -/
inductive Discard where
  | pending
  /-- `conn->freerclist` has been read. -/
  | loaded (fc : Option CallPtr)
  /-- `conn->freerclist` has been cleared. -/
  | walking (fc : Option CallPtr)
  deriving DecidableEq

/-- A connection with what it has allocated. -/
structure Conn where
  msize : UInt32
  freercnum : ℤ
  freerclist : Option CallPtr
  resetting : Bool
  calls : Cells Incall
  reader : Reader
  /-- `req->tcall` of each request that has not been released. -/
  reqs : Cells (Option CallPtr)
  discards : Cells Discard
  destroyed : Bool
  /-- Freed memory has been used. -/
  fault : Bool

/-- One step.  What is done with `conn->lock` held is one step; a reset uses the list without it,
and each of its accesses is a step. -/
inductive Event where
  /-- The reader allocates its first message.  `ok`: there is memory. -/
  | begin (ok : Bool)
  /-- A message has come: the reader gets another one, and a request for this one. -/
  | receive (ok : Bool)
  /-- The request is added, or released if the connection is being reset. -/
  | addReq
  /-- `np_conn_respond`. -/
  | respond (req : ReqPtr)
  /-- The last `np_req_unref` of a request. -/
  | unref (req : ReqPtr)
  /-- The reader leaves its loop. -/
  | stop
  /-- `np_conn_reset` is called. -/
  | reset
  /-- `fc = conn->freerclist`. -/
  | load (k : ℕ)
  /-- `conn->freerclist = NULL`. -/
  | clear (k : ℕ)
  /-- A turn of the loop that frees the messages. -/
  | freeCall (k : ℕ)
  /-- The end of `np_conn_reset`. -/
  | resetDone (k : ℕ)
  /-- `ufs_restore` stores the `msize` of a checkpoint. -/
  | restore (msize : UInt32)
  /-- The last `np_conn_decref`. -/
  | destroy
  deriving DecidableEq

/-- A turn of a loop that frees messages. -/
def Event.frees : Event → Bool
  | .freeCall _ => true
  | _ => false

namespace Conn

/-- `np_conn_create`. -/
def start (msize : UInt32) : Conn where
  msize := msize
  freercnum := 0
  freerclist := none
  resetting := false
  calls := .empty
  reader := .idle
  reqs := .empty
  discards := .empty
  destroyed := false
  fault := false

variable (s : Conn)

/-- `fc->next`. -/
def link (fc : CallPtr) : Option CallPtr := (s.calls.get fc).bind (·.next)

/-- `np_conn_new_incall`. -/
def npConnNewIncall (ok : Bool) : Option CallPtr × Conn :=
  match s.freerclist with
  | some fc =>
    (some fc, { s with
      freerclist := s.link fc
      freercnum := s.freercnum - 1
      fault := s.fault || (s.calls.get fc).isNone })
  | none =>
    if ok then (some s.calls.next, { s with calls := s.calls.push ⟨none, s.msize.toNat⟩ })
    else (none, s)

/-- `np_conn_free_incall`. -/
def npConnFreeIncall : Option CallPtr → Conn
  | none => s
  | some rc =>
    if s.freercnum < 64 then
      { s with
        calls := s.calls.modify rc fun c => { c with next := s.freerclist }
        freerclist := some rc
        fault := s.fault || (s.calls.get rc).isNone }
    else
      { s with calls := s.calls.free rc, fault := s.fault || (s.calls.get rc).isNone }

/-- Perform a step of a connection that has not been destroyed. -/
def act : Event → Option Conn
  | .begin ok =>
    if s.reader = .idle then
      let (fc, s) := s.npConnNewIncall ok
      some { s with reader := .reading fc }
    else none
  | .receive ok =>
    match s.reader with
    | .reading (some fc) =>
      let (fc1, s) := s.npConnNewIncall ok
      some { s with reqs := s.reqs.push (some fc), reader := .adding s.reqs.next fc1 }
    | _ => none
  | .addReq =>
    match s.reader with
    | .adding req fc =>
      let s := { s with reader := .reading fc }
      some (if s.resetting then { s with reqs := s.reqs.free req } else s)
    | _ => none
  | .respond req =>
    (s.reqs.get req).map fun tcall =>
      let s := s.npConnFreeIncall tcall
      { s with reqs := s.reqs.modify req fun _ => none }
  | .unref req => (s.reqs.get req).map fun _ => { s with reqs := s.reqs.free req }
  | .stop =>
    match s.reader with
    | .reading fc => some { s.npConnFreeIncall fc with reader := .done }
    | _ => none
  | .reset => some { s with resetting := true, discards := s.discards.push .pending }
  | .load k =>
    if s.discards.get k = some .pending then
      some { s with discards := s.discards.modify k fun _ => .loaded s.freerclist }
    else none
  | .clear k =>
    match s.discards.get k with
    | some (.loaded fc) =>
      some { s with freerclist := none, discards := s.discards.modify k fun _ => .walking fc }
    | _ => none
  | .freeCall k =>
    match s.discards.get k with
    | some (.walking (some fc)) =>
      some { s with
        calls := s.calls.free fc
        discards := s.discards.modify k fun _ => .walking (s.link fc)
        fault := s.fault || (s.calls.get fc).isNone }
    | _ => none
  | .resetDone k =>
    if s.discards.get k = some (.walking none) then
      some { s with resetting := false, discards := s.discards.free k }
    else none
  | .restore msize => some { s with msize }
  | .destroy =>
    if s.reader = .done ∧ s.reqs.count (fun _ => true) = 0 ∧
        s.discards.count (fun _ => true) = 0 then
      some { s with
        destroyed := true
        freerclist := none
        discards := s.discards.push (.walking s.freerclist) }
    else none

/-- Perform a step. -/
def step (e : Event) : Option Conn := if s.destroyed && !e.frees then none else s.act e

/-! ## What it is for -/

/-- Where an `Npfcall` is. -/
inductive Place where
  /-- It has been freed, or has not been allocated yet. -/
  | freed
  | list
  | reader
  | req (req : ReqPtr)
  /-- It has been taken off the list, and is about to be freed. -/
  | discard (k : ℕ)
  deriving DecidableEq

/-- The messages from `first` on are the ones at a place. -/
def Lists (link : CallPtr → Option CallPtr) (first : Option CallPtr) (place : CallPtr → Place)
    (q : Place) : Prop :=
  ∃ chain, LinkedChain.Path link first chain ∧ ∀ p, p ∈ chain ↔ place p = q

/-- The message that a call of `np_conn_reset` is about to free. -/
def walked (k : ℕ) : Option CallPtr :=
  match s.discards.get k with
  | some (.walking fc) => fc
  | _ => none

/-- The message of a request. -/
def tcall (req : ReqPtr) : Option CallPtr := (s.reqs.get req).join

/-- What is in memory is where `place` says that it is. -/
structure Stored (place : CallPtr → Place) : Prop where
  freed : ∀ p, s.calls.get p = none ↔ place p = .freed
  list : Lists s.link s.freerclist place .list
  discard : ∀ k, Lists s.link (s.walked k) place (.discard k)

/-- Each `Npfcall` is in one place. -/
structure Placed (place : CallPtr → Place) : Prop extends Stored s place where
  reader : ∀ p, s.reader.fc = some p ↔ place p = .reader
  req : ∀ r p, s.tcall r = some p ↔ place p = .req r

/-- The messages on the list are large enough. -/
def Roomy : Prop :=
  ∀ chain, LinkedChain.Path s.link s.freerclist chain → ∀ p ∈ chain, ∀ c, s.calls.get p = some c →
    s.msize.toNat ≤ c.room

/-- The accounts of the free list are right. -/
structure Accounted : Prop where
  counted : s.destroyed = false → ∃ chain, LinkedChain.Path s.link s.freerclist chain ∧
    s.freercnum = chain.length
  placed : ∃ place, s.Placed place
  roomy : s.Roomy

/-- The step does not put a message on the list, and does not release a request with its
message. -/
def Keeps : Event → Prop
  | .respond req | .unref req => s.tcall req = none
  | .stop => s.reader.fc = none
  | .addReq => s.resetting = false
  | _ => True

instance (e : Event) : Decidable (s.Keeps e) :=
  match e with
  | .respond req | .unref req => inferInstanceAs (Decidable (s.tcall req = none))
  | .stop => inferInstanceAs (Decidable (s.reader.fc = none))
  | .addReq => inferInstanceAs (Decidable (s.resetting = false))
  | .begin _ | .receive _ | .reset | .load _ | .clear _ | .freeCall _ | .resetDone _ | .restore _
  | .destroy => .isTrue trivial

/-- The step does not release a request with its message, and nobody has used the list between the
two accesses of a reset. -/
def Orderly : Event → Prop
  | .unref req => s.tcall req = none
  | .addReq => s.resetting = false
  | .clear k => s.discards.get k = some (.loaded s.freerclist)
  | _ => True

/-- The step does not raise the size of messages. -/
def Lowers : Event → Prop
  | .restore msize => msize ≤ s.msize
  | _ => True

/-- What holds whenever the steps are orderly. -/
structure Sound : Prop where
  placed : ∃ place, s.Placed place
  count : s.freercnum ≤ 0
  fault : s.fault = false

/-- What holds as long as the list has not been used. -/
structure Unused : Prop where
  count : s.freercnum = 0
  list : s.freerclist = none
  loaded : ∀ k fc, s.discards.get k ≠ some (.loaded (some fc))
  walking : ∀ k fc, s.discards.get k ≠ some (.walking (some fc))
  adding : ∀ req fc, s.reader = .adding req fc → s.tcall req ≠ none

/-! ## Lists of messages -/

section Lists

variable {link link' : CallPtr → Option CallPtr} {first : Option CallPtr}
  {place place' : CallPtr → Place} {q q' : Place} {p : CallPtr}

theorem lists_none : Lists link none place q ↔ ∀ p, place p ≠ q := by
  constructor
  · rintro ⟨chain, path, same⟩ p at'
    cases path
    exact absurd ((same p).mpr at') List.not_mem_nil
  · intro nowhere
    exact ⟨[], .nil, fun p => ⟨fun member => absurd member List.not_mem_nil,
      fun at' => absurd at' (nowhere p)⟩⟩

theorem Lists.head (lists : Lists link (some p) place q) : place p = q := by
  obtain ⟨chain, path, same⟩ := lists
  exact (same p).mp path.start_mem

/-- A list whose messages stay where they are. -/
theorem Lists.keep (lists : Lists link first place q)
    (linked : ∀ p, place p = q → link' p = link p) (kept : ∀ p, place' p = q' ↔ place p = q) :
    Lists link' first place' q' := by
  obtain ⟨chain, path, same⟩ := lists
  exact ⟨chain, path.congr fun p member => linked p ((same p).mp member),
    fun p => (same p).trans (kept p).symm⟩

/-- A message gets in front of a list. -/
theorem Lists.push (lists : Lists link first place q)
    (linked : ∀ r, place r = q → link' r = link r) (front : link' p = first) :
    Lists link' (some p) (Function.update place p q) q := by
  obtain ⟨chain, path, same⟩ := lists
  have tail : LinkedChain.Path link' (link' p) chain := by
    rw [front]
    exact path.congr fun r member => linked r ((same r).mp member)
  refine ⟨p :: chain, .cons tail, fun r => ?_⟩
  rw [List.mem_cons, Function.update_apply, same]
  split_ifs with at' <;> simp [at']

/-- The first message of a list is taken off. -/
theorem Lists.pop (lists : Lists link (some p) place q) (other : q' ≠ q)
    (linked : ∀ r, r ≠ p → link' r = link r) :
    Lists link' (link p) (Function.update place p q') q := by
  obtain ⟨chain, path, same⟩ := lists
  have once := path.nodup
  cases path with
  | @cons p rest tail =>
      have apart : ∀ r ∈ rest, r ≠ p := by
        rintro r member rfl
        exact (List.nodup_cons.mp once).1 member
      refine ⟨rest, tail.congr fun r member => linked r (apart r member), fun r => ?_⟩
      rw [Function.update_apply]
      split_ifs with at'
      · subst at'
        exact ⟨fun member => absurd rfl (apart r member), fun is => absurd is other⟩
      · rw [← same r, List.mem_cons]
        simp [at']

end Lists

/-! ## The memory -/

section Memory

variable {s s' : Conn} {place place' : CallPtr → Place} {p rc : CallPtr} {k : ℕ} {ok : Bool}
  {fc : Option CallPtr}

/-- The reader or a request has a message. -/
def Place.Held (q : Place) : Prop := q = .reader ∨ ∃ r, q = .req r

theorem Stored.live (stored : s.Stored place) (at' : place p ≠ .freed) :
    (s.calls.get p).isSome = true :=
  Option.isSome_iff_ne_none.mpr fun none' => at' ((stored.freed p).mp none')

/-- Messages go from the reader to requests. -/
theorem Stored.hand (stored : s.Stored place)
    (held : ∀ p, place' p = place p ∨ (place p).Held ∧ (place' p).Held) : s.Stored place' := by
  have same (q : Place) (other : ¬ q.Held) (p : CallPtr) : place' p = q ↔ place p = q := by
    rcases held p with same | ⟨first, second⟩
    · rw [same]
    · exact ⟨fun is => absurd (is ▸ second) other, fun is => absurd (is ▸ first) other⟩
  refine ⟨fun p => (stored.freed p).trans (same _ ?_ p).symm,
    stored.list.keep (fun _ _ => rfl) (same _ ?_),
    fun k => (stored.discard k).keep (fun _ _ => rfl) (same _ ?_)⟩ <;> simp [Place.Held]

theorem npConnNewIncall_cases (s : Conn) (ok : Bool) :
    s.npConnNewIncall ok = (none, s) ∨
    (s.npConnNewIncall ok =
      (some s.calls.next, { s with calls := s.calls.push ⟨none, s.msize.toNat⟩ })) ∨
    ∃ p, s.freerclist = some p ∧ s.npConnNewIncall ok = (some p, { s with
      freerclist := s.link p
      freercnum := s.freercnum - 1
      fault := s.fault || (s.calls.get p).isNone }) := by
  unfold npConnNewIncall
  cases first : s.freerclist with
  | none => cases ok <;> simp
  | some p => exact .inr (.inr ⟨p, rfl, rfl⟩)

theorem link_push {c : Incall} (allocated : (s.calls.get p).isSome = true) :
    Conn.link { s with calls := s.calls.push c } p = s.link p := by
  have other : p ≠ s.calls.next := by
    rintro rfl
    simp at allocated
  simp only [link, Cells.get_push, if_neg other]

/-- A message is allocated. -/
theorem Stored.allocate {c : Incall} (stored : s.Stored place) :
    Stored { s with calls := s.calls.push c } (Function.update place s.calls.next .reader) := by
  have gone : place s.calls.next = .freed := (stored.freed _).mp (by simp)
  have same (q : Place) (other : q ≠ .reader) (live : q ≠ .freed) (p : CallPtr) :
      Function.update place s.calls.next .reader p = q ↔ place p = q := by
    rw [Function.update_apply]
    split_ifs with at'
    · rw [at', gone]
      exact ⟨fun is => absurd is.symm other, fun is => absurd is.symm live⟩
    · rfl
  have linked (q : Place) (live : q ≠ .freed) (p : CallPtr) (at' : place p = q) :
      Conn.link { s with calls := s.calls.push c } p = s.link p :=
    link_push (stored.live (at' ▸ live))
  refine ⟨fun p => ?_, stored.list.keep (linked _ ?_) (same _ ?_ ?_),
    fun k => (stored.discard k).keep (linked _ ?_) (same _ ?_ ?_)⟩ <;> try simp
  rw [Cells.get_push, Function.update_apply]
  split_ifs with at'
  · simp
  · exact stored.freed p

/-- A message is taken off the list. -/
theorem Stored.takeOff (stored : s.Stored place) (first : s.freerclist = some p) :
    Stored { s with
      freerclist := s.link p
      freercnum := s.freercnum - 1
      fault := s.fault || (s.calls.get p).isNone } (Function.update place p .reader) := by
  have listed := stored.list
  rw [first] at listed
  have at' := listed.head
  refine ⟨fun r => ?_, listed.pop (by simp) fun _ _ => rfl, fun k => ?_⟩
  · rw [Function.update_apply]
    split_ifs with same
    · subst same
      rw [stored.freed r, at']
      simp
    · exact stored.freed r
  · refine (stored.discard k).keep (fun _ _ => rfl) fun r => ?_
    rw [Function.update_apply]
    split_ifs with same
    · rw [same, at']
      simp
    · rfl

/-- What `np_conn_new_incall` does. -/
structure Got (s : Conn) (place : CallPtr → Place) (fc : Option CallPtr) (s' : Conn) : Prop where
  reader : s'.reader = s.reader
  reqs : s'.reqs = s.reqs
  discards : s'.discards = s.discards
  count : s'.freercnum ≤ s.freercnum
  fault : s'.fault = s.fault
  stored : fc = none ∧ s'.Stored place ∨ ∃ p, fc = some p ∧ (place p = .list ∨ place p = .freed) ∧
    s'.Stored (Function.update place p .reader)

theorem Stored.got (stored : s.Stored place) (ok : Bool) :
    Got s place (s.npConnNewIncall ok).1 (s.npConnNewIncall ok).2 := by
  rcases npConnNewIncall_cases s ok with is | is | ⟨p, first, is⟩
  · rw [is]
    exact ⟨rfl, rfl, rfl, le_rfl, rfl, .inl ⟨rfl, stored⟩⟩
  · rw [is]
    refine ⟨rfl, rfl, rfl, le_rfl, rfl, .inr ⟨_, rfl, .inr ?_, stored.allocate⟩⟩
    exact (stored.freed _).mp (by simp)
  · rw [is]
    have listed := stored.list
    rw [first] at listed
    have at' := listed.head
    have live := stored.live (p := p) (by simp [at'])
    refine ⟨rfl, rfl, rfl, by simp, ?_, .inr ⟨p, rfl, .inl at', stored.takeOff first⟩⟩
    simp [Option.isNone_eq_false_iff.mpr live]

/-- A message is put on the list. -/
theorem Stored.putOn (stored : s.Stored place) (at' : (place rc).Held) :
    Stored { s with
      calls := s.calls.modify rc fun c => { c with next := s.freerclist }
      freerclist := some rc
      fault := s.fault || (s.calls.get rc).isNone } (Function.update place rc .list) := by
  have here (q : Place) (other : ¬ q.Held) : place rc ≠ q := fun is => other (is ▸ at')
  have linked (q : Place) (other : ¬ q.Held) (p : CallPtr) (is : place p = q) :
      ((s.calls.modify rc fun c => { c with next := s.freerclist }).get p).bind (·.next) =
        s.link p := by
    have apart : p ≠ rc := by
      rintro rfl
      exact here q other is
    rw [Cells.get_modify_ne apart, link]
  refine ⟨fun p => ?_, stored.list.push (linked _ (by simp [Place.Held])) ?_, fun k => ?_⟩
  · rw [Function.update_apply, Cells.get_modify]
    split_ifs with same
    · subst same
      simpa using (stored.freed p).not.mpr (here _ (by simp [Place.Held]))
    · exact stored.freed p
  · obtain ⟨c, is⟩ := Option.isSome_iff_exists.mp
      (stored.live (here .freed (by simp [Place.Held])))
    simp [link, is]
  · refine (stored.discard k).keep (linked _ (by simp [Place.Held])) fun p => ?_
    rw [Function.update_apply]
    split_ifs with same
    · rw [same]
      exact ⟨fun is => (by cases is), fun is => absurd is (here _ (by simp [Place.Held]))⟩
    · rfl

/-- All of the list is taken off to be freed. -/
theorem Placed.discardAll {discards : Cells Discard} {destroyed : Bool} (placed : s.Placed place)
    (before : s.walked k = none)
    (now : Conn.walked { s with freerclist := none, discards, destroyed } k = s.freerclist)
    (others : ∀ j, j ≠ k →
      Conn.walked { s with freerclist := none, discards, destroyed } j = s.walked j) :
    Placed { s with freerclist := none, discards, destroyed }
      (fun p => if place p = .list then .discard k else place p) := by
  have nobody := placed.discard k
  rw [before, lists_none] at nobody
  have same (q : Place) (list : q ≠ .list) (discard : q ≠ .discard k) (p : CallPtr) :
      (if place p = .list then .discard k else place p) = q ↔ place p = q := by
    split_ifs with listed
    · rw [listed]
      exact ⟨fun is => absurd is.symm discard, fun is => absurd is.symm list⟩
    · rfl
  refine ⟨⟨fun p => (placed.freed p).trans (same _ ?_ ?_ p).symm, ?_, fun j => ?_⟩,
    fun p => (placed.reader p).trans (same _ ?_ ?_ p).symm,
    fun r p => (placed.req r p).trans (same _ ?_ ?_ p).symm⟩ <;> try simp
  · refine lists_none.mpr fun p => ?_
    split_ifs with listed
    · simp
    · exact listed
  · by_cases at' : j = k
    · subst at'
      rw [now]
      refine placed.list.keep (fun _ _ => rfl) fun p => ?_
      split_ifs with listed
      · simp [listed]
      · exact ⟨fun is => absurd is (nobody p), fun is => absurd is listed⟩
    · rw [others j at']
      exact (placed.discard j).keep (fun _ _ => rfl) (same _ (by simp) (by simpa using at'))

/-- The first message of what has been taken off is freed. -/
theorem Placed.release (placed : s.Placed place)
    (walking : s.discards.get k = some (.walking (some p))) :
    Placed { s with
      calls := s.calls.free p
      discards := s.discards.modify k fun _ => .walking (s.link p)
      fault := s.fault || (s.calls.get p).isNone } (Function.update place p .freed) := by
  have first : s.walked k = some p := by rw [walked, walking]
  have here := placed.discard k
  rw [first] at here
  have at' := here.head
  have same (q : Place) (freed : q ≠ .freed) (discard : q ≠ .discard k) (r : CallPtr) :
      Function.update place p .freed r = q ↔ place r = q := by
    rw [Function.update_apply]
    split_ifs with is
    · rw [is, at']
      exact ⟨fun is => absurd is.symm freed, fun is => absurd is.symm discard⟩
    · rfl
  have linked (r : CallPtr) (apart : r ≠ p) :
      ((s.calls.free p).get r).bind (·.next) = s.link r := by
    rw [Cells.get_free_ne apart, link]
  have elsewhere (q : Place) (discard : q ≠ .discard k) (r : CallPtr) (is : place r = q) :
      r ≠ p := by
    rintro rfl
    exact discard (is.symm.trans at')
  refine ⟨⟨fun r => ?_, placed.list.keep (fun r is => linked r (elsewhere _ ?_ r is))
    (same _ ?_ ?_), fun j => ?_⟩, fun r => (placed.reader r).trans (same _ ?_ ?_ r).symm,
    fun n r => (placed.req n r).trans (same _ ?_ ?_ r).symm⟩ <;> try simp
  · rw [Cells.get_free, Function.update_apply]
    split_ifs with is
    · simp
    · exact placed.freed r
  · by_cases is : j = k
    · subst is
      have next : Conn.walked { s with
          calls := s.calls.free p
          discards := s.discards.modify j fun _ => .walking (s.link p)
          fault := s.fault || (s.calls.get p).isNone } j = s.link p := by
        simp [walked, walking]
      rw [next]
      exact here.pop (by simp) linked
    · have next : Conn.walked { s with
          calls := s.calls.free p
          discards := s.discards.modify k fun _ => .walking (s.link p)
          fault := s.fault || (s.calls.get p).isNone } j = s.walked j := by
        simp only [walked, Cells.get_modify_ne is]
      rw [next]
      have other : Place.discard j ≠ .discard k := by simpa using is
      exact (placed.discard j).keep (fun r is => linked r (elsewhere _ other r is))
        (same _ (by simp) other)

end Memory

/-! ## Steps -/

section Steps

variable {s s' : Conn} {place : CallPtr → Place} {e : Event} {ok : Bool} {req : ReqPtr} {k : ℕ}

theorem act_of_step (taken : s.step e = some s') : s.act e = some s' := by
  unfold step at taken
  split_ifs at taken
  exact taken

theorem placed_begin (placed : s.Placed place) (idle : s.reader = .idle) :
    ∃ place', Placed { (s.npConnNewIncall ok).2 with reader := .reading (s.npConnNewIncall ok).1 }
      place' := by
  obtain ⟨-, reqs, discards, -, -, got⟩ := placed.toStored.got ok
  generalize s.npConnNewIncall ok = result at reqs discards got ⊢
  obtain ⟨fc, s₁⟩ := result
  have nobody (p : CallPtr) : place p ≠ .reader := by
    rw [Ne, ← placed.reader, idle]
    simp [Reader.fc]
  have tcall (r : ReqPtr) : s₁.tcall r = s.tcall r := by rw [Conn.tcall, Conn.tcall, reqs]
  rcases got with ⟨none', stored⟩ | ⟨p, some', from', stored⟩
  · refine ⟨place, ⟨stored.freed, stored.list, stored.discard⟩, fun p => ?_, fun r p => ?_⟩
    · rw [show fc = none from none']
      simp [Reader.fc, nobody p]
    · exact (congrArg (· = some p) (tcall r)).to_iff.trans (placed.req r p)
  · refine ⟨_, ⟨stored.freed, stored.list, stored.discard⟩, fun r => ?_, fun n r => ?_⟩
    · rw [show fc = some p from some', Function.update_apply]
      split_ifs with is
      · simp [Reader.fc, is]
      · simp [Reader.fc, nobody r, Ne.symm is]
    · refine (congrArg (· = some r) (tcall n)).to_iff.trans ((placed.req n r).trans ?_)
      rw [Function.update_apply]
      split_ifs with is
      · rw [is]
        rcases from' with at' | at' <;> rw [at'] <;> simp
      · rfl

theorem placed_receive {fc : CallPtr} (placed : s.Placed place)
    (reading : s.reader = .reading (some fc)) :
    ∃ place', Placed { (s.npConnNewIncall ok).2 with
      reqs := (s.npConnNewIncall ok).2.reqs.push (some fc)
      reader := .adding (s.npConnNewIncall ok).2.reqs.next (s.npConnNewIncall ok).1 } place' := by
  obtain ⟨-, reqs, discards, -, -, got⟩ := placed.toStored.got ok
  generalize s.npConnNewIncall ok = result at reqs discards got ⊢
  obtain ⟨fc1, s₁⟩ := result
  have reader (p : CallPtr) : place p = .reader ↔ p = fc := by
    rw [← placed.reader, reading]
    simp [Reader.fc, eq_comm]
  have tcall (r : ReqPtr) : Conn.tcall { s₁ with
      reqs := s₁.reqs.push (some fc)
      reader := .adding s₁.reqs.next fc1 } r = if r = s.reqs.next then some fc else s.tcall r := by
    rw [Conn.tcall, Conn.tcall, Cells.get_push, show s₁.reqs = s.reqs from reqs]
    split_ifs <;> rfl
  have unused (p : CallPtr) : place p ≠ .req s.reqs.next := by
    rw [Ne, ← placed.req, Conn.tcall, Cells.get_next]
    simp
  have at' : place fc = .reader := (reader fc).mpr rfl
  rcases got with ⟨none', stored⟩ | ⟨p, some', from', stored⟩
  · refine ⟨Function.update place fc (.req s.reqs.next), ?_, fun p => ?_, fun r p => ?_⟩
    · have handed : s₁.Stored (Function.update place fc (.req s.reqs.next)) :=
        stored.hand fun p => by
          rw [Function.update_apply]
          split_ifs with is
          · exact .inr ⟨.inl (is ▸ at'), .inr ⟨_, rfl⟩⟩
          · exact .inl rfl
      exact ⟨handed.freed, handed.list, handed.discard⟩
    · rw [show fc1 = none from none', Function.update_apply]
      split_ifs with is
      · simp [Reader.fc]
      · simp [Reader.fc, reader, is]
    · rw [tcall, Function.update_apply]
      split_ifs with new is is
      · simp [is, new]
      · simp [Ne.symm is, new, unused]
      · simp only [Place.req.injEq, Ne.symm new, iff_false, is, placed.req, at']
        simp
      · exact placed.req r p
  · have apart : p ≠ fc := by
      rintro rfl
      rcases from' with is | is <;> rw [at'] at is <;> cases is
    refine ⟨Function.update (Function.update place fc (.req s.reqs.next)) p .reader, ?_,
      fun r => ?_, fun n r => ?_⟩
    · have handed :
          s₁.Stored (Function.update (Function.update place fc (.req s.reqs.next)) p .reader) :=
        stored.hand fun r => by
          rw [Function.update_apply, Function.update_apply, Function.update_apply]
          split_ifs with new is
          · exact .inl rfl
          · exact .inr ⟨.inl (is ▸ at'), .inr ⟨_, rfl⟩⟩
          · exact .inl rfl
      exact ⟨handed.freed, handed.list, handed.discard⟩
    · rw [show fc1 = some p from some', Function.update_apply, Function.update_apply]
      split_ifs with new is
      · simp [Reader.fc, new]
      · simp [Reader.fc, Ne.symm new]
      · simp [Reader.fc, Ne.symm new, reader, is]
    · rw [tcall, Function.update_apply, Function.update_apply]
      have elsewhere : s.tcall n ≠ some p := by
        rw [Ne, placed.req]
        rcases from' with is | is <;> rw [is] <;> simp
      split_ifs with last new is new is
      · simp [new, apart.symm]
      · simp [is, last]
      · simp [Ne.symm is, last, unused]
      · rw [new]
        simp [elsewhere]
      · simp only [Place.req.injEq, Ne.symm last, iff_false, is, placed.req, at']
        simp
      · exact placed.req n r

theorem npConnFreeIncall_some {rc : CallPtr} (count : s.freercnum ≤ 0) :
    s.npConnFreeIncall (some rc) = { s with
      calls := s.calls.modify rc fun c => { c with next := s.freerclist }
      freerclist := some rc
      fault := s.fault || (s.calls.get rc).isNone } := by
  have below : s.freercnum < 64 := by omega
  simp only [npConnFreeIncall, below, if_true]

/-- The reader gives its message back. -/
theorem placed_stop {rc : CallPtr} (placed : s.Placed place)
    (reading : s.reader = .reading (some rc)) :
    Placed { s with
      calls := s.calls.modify rc fun c => { c with next := s.freerclist }
      freerclist := some rc
      fault := s.fault || (s.calls.get rc).isNone
      reader := .done } (Function.update place rc .list) := by
  have reader (p : CallPtr) : place p = .reader ↔ p = rc := by
    rw [← placed.reader, reading]
    simp [Reader.fc, eq_comm]
  have at' : place rc = .reader := (reader rc).mpr rfl
  have stored := placed.toStored.putOn (show (place rc).Held from .inl at')
  refine ⟨⟨stored.freed, stored.list, stored.discard⟩, fun p => ?_, fun r p => ?_⟩
  · rw [Function.update_apply]
    split_ifs with is
    · simp [Reader.fc]
    · simp [Reader.fc, reader, is]
  · refine (placed.req r p).trans ?_
    rw [Function.update_apply]
    split_ifs with is
    · rw [is, at']
      simp
    · rfl

/-- A request gives its message back. -/
theorem placed_respond {rc : CallPtr} (placed : s.Placed place) (has : s.tcall req = some rc) :
    Placed { s with
      calls := s.calls.modify rc fun c => { c with next := s.freerclist }
      freerclist := some rc
      fault := s.fault || (s.calls.get rc).isNone
      reqs := s.reqs.modify req fun _ => none } (Function.update place rc .list) := by
  have at' : place rc = .req req := (placed.req req rc).mp has
  have stored := placed.toStored.putOn (show (place rc).Held from .inr ⟨req, at'⟩)
  have tcall (r : ReqPtr) : ((s.reqs.modify req fun _ => none).get r).join =
      if r = req then none else s.tcall r := by
    rw [Cells.get_modify, Conn.tcall]
    split_ifs with is
    · cases s.reqs.get req <;> rfl
    · rfl
  refine ⟨⟨stored.freed, stored.list, stored.discard⟩, fun p => ?_, fun r p => ?_⟩
  · refine (placed.reader p).trans ?_
    rw [Function.update_apply]
    split_ifs with is
    · rw [is, at']
      simp
    · rfl
  · refine (congrArg (· = some p) (tcall r)).to_iff.trans ?_
    rw [Function.update_apply]
    split_ifs with same is is
    · simp
    · rw [same, ← placed.req, has]
      simp [Ne.symm is]
    · rw [is, placed.req, at']
      simp [Ne.symm same]
    · exact placed.req r p

/-- Requests change that have no message. -/
theorem Placed.requests {reqs : Cells (Option CallPtr)} (placed : s.Placed place)
    (same : ∀ r, (reqs.get r).join = s.tcall r) : Placed { s with reqs } place :=
  ⟨⟨placed.freed, placed.list, placed.discard⟩, placed.reader,
    fun r p => (congrArg (· = some p) (same r)).to_iff.trans (placed.req r p)⟩

/-- A reset goes on without the list. -/
theorem Placed.discards {discards : Cells Discard} {resetting : Bool} (placed : s.Placed place)
    (same : ∀ k, Conn.walked { s with discards, resetting } k = s.walked k) :
    Placed { s with discards, resetting } place :=
  ⟨⟨placed.freed, placed.list, fun k => by
    rw [same k]
    exact placed.discard k⟩, placed.reader, placed.req⟩

theorem not_isNone_of_held {rc : CallPtr} (placed : s.Placed place) (at' : place rc ≠ .freed) :
    (s.calls.get rc).isNone = false :=
  Option.isNone_eq_false_iff.mpr (placed.toStored.live at')

theorem Sound.respond (sound : s.Sound) (taken : s.act (.respond req) = some s') : s'.Sound := by
  obtain ⟨⟨place, placed⟩, count, fault⟩ := sound
  obtain ⟨tcall, has, rfl⟩ := Option.map_eq_some_iff.mp taken
  cases tcall with
  | none =>
      refine ⟨⟨place, placed.requests fun r => ?_⟩, count, fault⟩
      rw [Cells.get_modify]
      split_ifs with is
      · simp [npConnFreeIncall, is, Conn.tcall, has]
      · rfl
  | some rc =>
      have message : s.tcall req = some rc := by rw [Conn.tcall, has]; rfl
      have at' := (placed.req req rc).mp message
      rw [npConnFreeIncall_some count]
      refine ⟨⟨_, placed_respond placed message⟩, count, ?_⟩
      simp [fault, not_isNone_of_held placed (by rw [at']; simp)]

theorem Sound.stop (sound : s.Sound) (taken : s.act .stop = some s') : s'.Sound := by
  obtain ⟨⟨place, placed⟩, count, fault⟩ := sound
  simp only [act] at taken
  cases reader : s.reader with
  | idle | adding _ _ | done =>
      rw [reader] at taken
      cases taken
  | reading fc =>
      rw [reader] at taken
      obtain rfl := Option.some.inj taken
      cases fc with
      | none =>
          refine ⟨⟨place, ⟨placed.freed, placed.list, placed.discard⟩, fun p => ?_, placed.req⟩,
            count, fault⟩
          refine Iff.trans ?_ (placed.reader p)
          simp [reader, Reader.fc]
      | some rc =>
          have at' : place rc = .reader := (placed.reader rc).mp (by rw [reader, Reader.fc])
          rw [npConnFreeIncall_some count]
          refine ⟨⟨_, placed_stop placed reader⟩, count, ?_⟩
          simp [fault, not_isNone_of_held placed (by rw [at']; simp)]

theorem Sound.begin (sound : s.Sound) (taken : s.act (.begin ok) = some s') : s'.Sound := by
  obtain ⟨⟨place, placed⟩, count, fault⟩ := sound
  simp only [act] at taken
  split_ifs at taken with idle
  obtain rfl := Option.some.inj taken
  have got := placed.toStored.got ok
  exact ⟨placed_begin placed idle, got.count.trans count, got.fault.trans fault⟩

theorem Sound.receive (sound : s.Sound) (taken : s.act (.receive ok) = some s') : s'.Sound := by
  obtain ⟨⟨place, placed⟩, count, fault⟩ := sound
  simp only [act] at taken
  have got := placed.toStored.got ok
  cases reader : s.reader with
  | idle | adding _ _ | done =>
      rw [reader] at taken
      cases taken
  | reading fc =>
      rw [reader] at taken
      cases fc with
      | none => cases taken
      | some fc =>
          obtain rfl := Option.some.inj taken
          exact ⟨placed_receive placed reader, got.count.trans count, got.fault.trans fault⟩

theorem Sound.addReq (sound : s.Sound) (orderly : s.Orderly .addReq)
    (taken : s.act .addReq = some s') : s'.Sound := by
  obtain ⟨⟨place, placed⟩, count, fault⟩ := sound
  have open' : s.resetting = false := orderly
  simp only [act] at taken
  cases reader : s.reader with
  | idle | reading _ | done =>
      rw [reader] at taken
      cases taken
  | adding req fc =>
      rw [reader] at taken
      simp only [open', Bool.false_eq_true, if_false] at taken
      obtain rfl := Option.some.inj taken
      refine ⟨⟨place, ⟨placed.freed, placed.list, placed.discard⟩, fun p => ?_, placed.req⟩,
        count, fault⟩
      refine Iff.trans ?_ (placed.reader p)
      simp [reader, Reader.fc]

theorem Sound.unref (sound : s.Sound) (orderly : s.Orderly (.unref req))
    (taken : s.act (.unref req) = some s') : s'.Sound := by
  obtain ⟨⟨place, placed⟩, count, fault⟩ := sound
  have empty : s.tcall req = none := orderly
  obtain ⟨tcall, has, rfl⟩ := Option.map_eq_some_iff.mp taken
  refine ⟨⟨place, placed.requests fun r => ?_⟩, count, fault⟩
  rw [Cells.get_free]
  split_ifs with is
  · rw [is, empty]
    rfl
  · rfl

theorem walked_push {d : Discard} (pending : ∀ fc, d ≠ .walking fc) {resetting : Bool} :
    Conn.walked { s with discards := s.discards.push d, resetting } k = s.walked k := by
  rw [walked, walked, Cells.get_push]
  split_ifs with is
  · rw [is, Cells.get_next]
    cases d with
    | walking fc => exact absurd rfl (pending fc)
    | pending | loaded _ => rfl
  · rfl

theorem Sound.reset (sound : s.Sound) (taken : s.act .reset = some s') : s'.Sound := by
  obtain ⟨⟨place, placed⟩, count, fault⟩ := sound
  obtain rfl := Option.some.inj taken
  exact ⟨⟨place, placed.discards fun k => walked_push (by simp)⟩, count, fault⟩

theorem Sound.load (sound : s.Sound) (taken : s.act (.load k) = some s') : s'.Sound := by
  obtain ⟨⟨place, placed⟩, count, fault⟩ := sound
  simp only [act] at taken
  split_ifs at taken with pending
  obtain rfl := Option.some.inj taken
  refine ⟨⟨place, placed.discards fun j => ?_⟩, count, fault⟩
  rw [walked, walked, Cells.get_modify]
  split_ifs with is
  · rw [is, pending]
    rfl
  · rfl

theorem Sound.clear (sound : s.Sound) (orderly : s.Orderly (.clear k))
    (taken : s.act (.clear k) = some s') : s'.Sound := by
  obtain ⟨⟨place, placed⟩, count, fault⟩ := sound
  have loaded : s.discards.get k = some (.loaded s.freerclist) := orderly
  simp only [act] at taken
  rw [loaded] at taken
  obtain rfl := Option.some.inj taken
  refine ⟨⟨_, placed.discardAll (k := k) ?_ ?_ fun j other => ?_⟩, count, fault⟩
  · rw [walked, loaded]
  · simp [walked, loaded]
  · simp only [walked, Cells.get_modify_ne other]

theorem Sound.freeCall (sound : s.Sound) (taken : s.act (.freeCall k) = some s') : s'.Sound := by
  obtain ⟨⟨place, placed⟩, count, fault⟩ := sound
  obtain ⟨fc, walking⟩ : ∃ fc, s.discards.get k = some (.walking (some fc)) := by
    rcases has : s.discards.get k with _ | (_ | fc | (_ | fc))
    · simp [act, has] at taken
    · simp [act, has] at taken
    · simp [act, has] at taken
    · simp [act, has] at taken
    · exact ⟨fc, rfl⟩
  simp only [act, walking] at taken
  obtain rfl := Option.some.inj taken
  refine ⟨⟨_, placed.release walking⟩, count, ?_⟩
  have here := placed.discard k
  rw [walked, walking] at here
  have at' := here.head
  simp [fault, not_isNone_of_held placed (by rw [at']; simp)]

theorem Sound.resetDone (sound : s.Sound) (taken : s.act (.resetDone k) = some s') : s'.Sound := by
  obtain ⟨⟨place, placed⟩, count, fault⟩ := sound
  simp only [act] at taken
  split_ifs at taken with walking
  obtain rfl := Option.some.inj taken
  refine ⟨⟨place, placed.discards fun j => ?_⟩, count, fault⟩
  rw [walked, walked, Cells.get_free]
  split_ifs with is
  · rw [is, walking]
  · rfl

theorem Sound.destroy (sound : s.Sound) (taken : s.act .destroy = some s') : s'.Sound := by
  obtain ⟨⟨place, placed⟩, count, fault⟩ := sound
  simp only [act] at taken
  split_ifs at taken
  obtain rfl := Option.some.inj taken
  refine ⟨⟨_, placed.discardAll (k := s.discards.next) ?_ ?_ fun j other => ?_⟩, count, fault⟩
  · rw [walked, Cells.get_next]
  · simp [walked]
  · simp only [walked, Cells.get_push, if_neg other]

/-- An orderly step keeps each message in one place. -/
theorem Sound.step (sound : s.Sound) (orderly : s.Orderly e) (taken : s.step e = some s') :
    s'.Sound := by
  have taken := act_of_step taken
  cases e with
  | begin ok => exact sound.begin taken
  | receive ok => exact sound.receive taken
  | addReq => exact sound.addReq orderly taken
  | respond req => exact sound.respond taken
  | unref req => exact sound.unref orderly taken
  | stop => exact sound.stop taken
  | reset => exact sound.reset taken
  | load k => exact sound.load taken
  | clear k => exact sound.clear orderly taken
  | freeCall k => exact sound.freeCall taken
  | resetDone k => exact sound.resetDone taken
  | restore msize =>
      obtain rfl := Option.some.inj taken
      obtain ⟨⟨place, placed⟩, count, fault⟩ := sound
      exact ⟨⟨place, ⟨placed.freed, placed.list, placed.discard⟩, placed.reader, placed.req⟩,
        count, fault⟩
  | destroy => exact sound.destroy taken

theorem sound_start {msize : UInt32} : (start msize).Sound := by
  refine ⟨⟨fun _ => .freed, ⟨fun p => ?_, lists_none.mpr ?_, fun k => lists_none.mpr ?_⟩,
    fun p => ?_, fun r p => ?_⟩, le_rfl, rfl⟩
  · simp [start]
  · simp
  · simp
  · simp [start, Reader.fc]
  · simp [start, Conn.tcall]

/-- In every run whose steps are orderly, each message is in one place. -/
theorem sound_of_run {msize : UInt32}
    (run : Transition.Reaches step Orderly (start msize) s) : s.Sound :=
  run.invariant Sound sound_start fun sound orderly taken => sound.step orderly taken

/-! ### The room of a message -/

/-- All messages are large enough. -/
def Large (s : Conn) : Prop := ∀ p c, s.calls.get p = some c → s.msize.toNat ≤ c.room

theorem Large.free {p : CallPtr} (large : s.Large) : Large { s with calls := s.calls.free p } := by
  intro r c has
  rw [Cells.get_free] at has
  split_ifs at has
  exact large r c has

theorem Large.npConnNewIncall (large : s.Large) : (s.npConnNewIncall ok).2.Large := by
  rcases npConnNewIncall_cases s ok with is | is | ⟨p, -, is⟩
  · rw [is]
    exact large
  · rw [is]
    intro r c has
    rw [Cells.get_push] at has
    split_ifs at has with new
    · obtain rfl := Option.some.inj has
      exact le_rfl
    · exact large r c has
  · rw [is]
    exact large

theorem Large.npConnFreeIncall {rc : Option CallPtr} (large : s.Large) :
    (s.npConnFreeIncall rc).Large := by
  cases rc with
  | none => exact large
  | some rc =>
      unfold Conn.npConnFreeIncall
      dsimp only
      split_ifs
      · intro r c has
        rw [Cells.get_modify] at has
        split_ifs at has with same
        · obtain ⟨c, was, rfl⟩ := Option.map_eq_some_iff.mp has
          exact large rc c was
        · exact large r c has
      · exact large.free

theorem Large.step (large : s.Large) (lowers : s.Lowers e) (taken : s.step e = some s') :
    s'.Large := by
  have taken := act_of_step taken
  cases e with
  | begin ok =>
      simp only [act] at taken
      split_ifs at taken
      exact Option.some.inj taken ▸ @Large.npConnNewIncall s ok large
  | receive ok =>
      rcases reader : s.reader with _ | (_ | fc) | _ | _ <;> simp only [act, reader] at taken
      · cases taken
      · cases taken
      · exact Option.some.inj taken ▸ @Large.npConnNewIncall s ok large
      · cases taken
      · cases taken
  | addReq =>
      rcases reader : s.reader with _ | _ | _ | _ <;> simp only [act, reader] at taken
      · cases taken
      · cases taken
      · obtain rfl := Option.some.inj taken
        split_ifs
        · exact large
        · exact large
      · cases taken
  | respond req =>
      obtain ⟨tcall, -, rfl⟩ := Option.map_eq_some_iff.mp taken
      exact @Large.npConnFreeIncall s tcall large
  | unref req =>
      obtain ⟨tcall, -, rfl⟩ := Option.map_eq_some_iff.mp taken
      exact large
  | stop =>
      rcases reader : s.reader with _ | fc | _ | _ <;> simp only [act, reader] at taken
      · cases taken
      · exact Option.some.inj taken ▸ @Large.npConnFreeIncall s fc large
      · cases taken
      · cases taken
  | reset => exact Option.some.inj taken ▸ large
  | load k =>
      simp only [act] at taken
      split_ifs at taken
      exact Option.some.inj taken ▸ large
  | clear k =>
      rcases has : s.discards.get k with _ | (_ | fc | fc) <;> simp only [act, has] at taken
      · cases taken
      · cases taken
      · exact Option.some.inj taken ▸ large
      · cases taken
  | freeCall k =>
      rcases has : s.discards.get k with _ | (_ | fc | (_ | fc)) <;> simp only [act, has] at taken
      · cases taken
      · cases taken
      · cases taken
      · cases taken
      · exact Option.some.inj taken ▸ large.free
  | resetDone k =>
      simp only [act] at taken
      split_ifs at taken
      exact Option.some.inj taken ▸ large
  | restore msize =>
      obtain rfl := Option.some.inj taken
      have lower : msize.toNat ≤ s.msize.toNat := UInt32.le_iff_toNat_le.mp lowers
      exact fun p c has => lower.trans (large p c has)
  | destroy =>
      simp only [act] at taken
      split_ifs at taken
      exact Option.some.inj taken ▸ large

/-- In every run in which the size of messages is not raised, all messages are large enough. -/
theorem large_of_run {msize : UInt32}
    (run : Transition.Reaches step Lowers (start msize) s) : s.Large :=
  run.invariant Large (by simp [Large, start])
    fun large lowers taken => large.step lowers taken

/-- In every run whose steps are orderly and in which the size of messages is not raised, each
message is in one place, and those on the list are large enough. -/
theorem recycled_of_run {msize : UInt32}
    (run : Transition.Reaches step (fun s e => s.Orderly e ∧ s.Lowers e) (start msize) s) :
    (∃ place, s.Placed place) ∧ s.Roomy ∧ s.fault = false := by
  have sound := sound_of_run (run.mono fun _ _ allowed => allowed.1)
  have large := large_of_run (run.mono fun _ _ allowed => allowed.2)
  exact ⟨sound.placed, fun _ _ p _ c has => large p c has, sound.fault⟩

/-! ### The counter -/

theorem Unused.orderly (unused : s.Unused) (keeps : s.Keeps e) (taken : s.act e = some s') :
    s.Orderly e := by
  cases e with
  | unref req => exact keeps
  | addReq => exact keeps
  | clear k =>
      rcases has : s.discards.get k with _ | (_ | (_ | fc) | fc)
      · simp [act, has] at taken
      · simp [act, has] at taken
      · rw [Orderly, has, unused.list]
      · exact absurd has (unused.loaded k fc)
      · simp [act, has] at taken
  | _ => trivial

theorem Unused.npConnNewIncall (unused : s.Unused) :
    s.npConnNewIncall ok = (none, s) ∨ s.npConnNewIncall ok =
      (some s.calls.next, { s with calls := s.calls.push ⟨none, s.msize.toNat⟩ }) := by
  rcases npConnNewIncall_cases s ok with is | is | ⟨p, first, -⟩
  · exact .inl is
  · exact .inr is
  · rw [unused.list] at first
    cases first

theorem Unused.begin (unused : s.Unused) (taken : s.act (.begin ok) = some s') : s'.Unused := by
  simp only [act] at taken
  split_ifs at taken
  obtain rfl := Option.some.inj taken
  rcases @Unused.npConnNewIncall s ok unused with is | is <;> rw [is]
  · exact ⟨unused.count, unused.list, unused.loaded, unused.walking, by simp⟩
  · exact ⟨unused.count, unused.list, unused.loaded, unused.walking, by simp⟩

theorem Unused.receive (unused : s.Unused) (taken : s.act (.receive ok) = some s') :
    s'.Unused := by
  have new (fc : CallPtr) : ((s.reqs.push (some fc)).get s.reqs.next).join ≠ none := by simp
  rcases reader : s.reader with _ | (_ | fc) | _ | _ <;> simp only [act, reader] at taken
  · cases taken
  · cases taken
  · obtain rfl := Option.some.inj taken
    rcases @Unused.npConnNewIncall s ok unused with is | is <;> rw [is]
    · refine ⟨unused.count, unused.list, unused.loaded, unused.walking, fun req fc1 adding => ?_⟩
      obtain ⟨rfl, -⟩ := Reader.adding.inj adding
      exact new fc
    · refine ⟨unused.count, unused.list, unused.loaded, unused.walking, fun req fc1 adding => ?_⟩
      obtain ⟨rfl, -⟩ := Reader.adding.inj adding
      exact new fc
  · cases taken
  · cases taken

theorem Unused.addReq (unused : s.Unused) (keeps : s.Keeps .addReq)
    (taken : s.act .addReq = some s') : s'.Unused := by
  have open' : s.resetting = false := keeps
  rcases reader : s.reader with _ | _ | _ | _ <;> simp only [act, reader] at taken
  · cases taken
  · cases taken
  · simp only [open', Bool.false_eq_true, if_false] at taken
    obtain rfl := Option.some.inj taken
    exact ⟨unused.count, unused.list, unused.loaded, unused.walking, by simp⟩
  · cases taken

theorem Unused.respond (unused : s.Unused) (keeps : s.Keeps (.respond req))
    (taken : s.act (.respond req) = some s') : s'.Unused := by
  obtain ⟨tcall, has, rfl⟩ := Option.map_eq_some_iff.mp taken
  have empty : s.tcall req = none := keeps
  obtain rfl : tcall = none := by rwa [Conn.tcall, has] at empty
  refine ⟨unused.count, unused.list, unused.loaded, unused.walking, fun r fc adding => ?_⟩
  have full := unused.adding r fc adding
  have other : r ≠ req := by
    rintro rfl
    exact full empty
  show ((s.reqs.modify req fun _ => none).get r).join ≠ none
  rw [Cells.get_modify_ne other]
  exact full

theorem Unused.unref (unused : s.Unused) (keeps : s.Keeps (.unref req))
    (taken : s.act (.unref req) = some s') : s'.Unused := by
  obtain ⟨tcall, has, rfl⟩ := Option.map_eq_some_iff.mp taken
  refine ⟨unused.count, unused.list, unused.loaded, unused.walking, fun r fc adding => ?_⟩
  have full := unused.adding r fc adding
  have other : r ≠ req := by
    rintro rfl
    exact full keeps
  show ((s.reqs.free req).get r).join ≠ none
  rw [Cells.get_free_ne other]
  exact full

theorem Unused.stop (unused : s.Unused) (keeps : s.Keeps .stop)
    (taken : s.act .stop = some s') : s'.Unused := by
  have empty : s.reader.fc = none := keeps
  rcases reader : s.reader with _ | fc | _ | _ <;> simp only [act, reader] at taken
  · cases taken
  · obtain rfl := Option.some.inj taken
    obtain rfl : fc = none := by rwa [reader] at empty
    exact ⟨unused.count, unused.list, unused.loaded, unused.walking, by simp⟩
  · cases taken
  · cases taken

/-- The resets do not find a message. -/
theorem Unused.discards {discards : Cells Discard} {resetting destroyed : Bool}
    {freerclist : Option CallPtr} (unused : s.Unused) (list : freerclist = none)
    (empty : ∀ k d, discards.get k = some d →
      s.discards.get k = some d ∨ d = .pending ∨ d = .loaded none ∨ d = .walking none) :
    Unused { s with discards, resetting, destroyed, freerclist } := by
  refine ⟨unused.count, list, fun k fc has => ?_, fun k fc has => ?_, unused.adding⟩
  · rcases empty k _ has with before | is | is | is
    · exact unused.loaded k fc before
    all_goals cases is
  · rcases empty k _ has with before | is | is | is
    · exact unused.walking k fc before
    all_goals cases is

theorem discards_push {d d' : Discard} (has : (s.discards.push d').get k = some d) :
    s.discards.get k = some d ∨ d = d' := by
  rw [Cells.get_push] at has
  split_ifs at has
  · exact .inr (Option.some.inj has).symm
  · exact .inl has

theorem discards_modify {j : ℕ} {d d' : Discard}
    (has : (s.discards.modify k fun _ => d').get j = some d) :
    s.discards.get j = some d ∨ d = d' := by
  rw [Cells.get_modify] at has
  split_ifs at has
  · obtain ⟨-, -, is⟩ := Option.map_eq_some_iff.mp has
    exact .inr is.symm
  · exact .inl has

theorem Unused.step (unused : s.Unused) (keeps : s.Keeps e) (taken : s.step e = some s') :
    s'.Unused := by
  have taken := act_of_step taken
  cases e with
  | begin ok => exact unused.begin taken
  | receive ok => exact unused.receive taken
  | addReq => exact unused.addReq keeps taken
  | respond req => exact unused.respond keeps taken
  | unref req => exact unused.unref keeps taken
  | stop => exact unused.stop keeps taken
  | reset =>
      obtain rfl := Option.some.inj taken
      refine unused.discards unused.list fun k d has => ?_
      exact (discards_push has).imp_right .inl
  | load k =>
      simp only [act] at taken
      split_ifs at taken
      obtain rfl := Option.some.inj taken
      refine unused.discards unused.list fun j d has => ?_
      rw [unused.list] at has
      exact (discards_modify has).imp_right (.inr ∘ .inl)
  | clear k =>
      rcases has : s.discards.get k with _ | (_ | (_ | fc) | fc) <;> simp only [act, has] at taken
      · cases taken
      · cases taken
      · obtain rfl := Option.some.inj taken
        refine unused.discards rfl fun j d has => ?_
        exact (discards_modify has).imp_right (.inr ∘ .inr)
      · exact absurd has (unused.loaded k fc)
      · cases taken
  | freeCall k =>
      rcases has : s.discards.get k with _ | (_ | fc | (_ | fc)) <;> simp only [act, has] at taken
      · cases taken
      · cases taken
      · cases taken
      · cases taken
      · exact absurd has (unused.walking k fc)
  | resetDone k =>
      simp only [act] at taken
      split_ifs at taken
      obtain rfl := Option.some.inj taken
      refine unused.discards unused.list fun j d has => ?_
      rw [Cells.get_free] at has
      split_ifs at has
      exact .inl has
  | restore msize =>
      obtain rfl := Option.some.inj taken
      exact ⟨unused.count, unused.list, unused.loaded, unused.walking, unused.adding⟩
  | destroy =>
      simp only [act] at taken
      split_ifs at taken
      obtain rfl := Option.some.inj taken
      refine unused.discards rfl fun j d has => ?_
      rw [unused.list] at has
      exact (discards_push has).imp_right (.inr ∘ .inr)

theorem accounted_of_unused (sound : s.Sound) (unused : s.Unused) : s.Accounted := by
  refine ⟨fun _ => ⟨[], ?_, by simp [unused.count]⟩, sound.placed, fun chain path p member => ?_⟩
  · rw [unused.list]
    exact .nil
  · rw [unused.list] at path
    cases path
    cases member

/-- A message on the list that nobody has counted. -/
theorem not_accounted_of_list {p : CallPtr} (count : s.freercnum = 0)
    (list : s.freerclist = some p) (alive : s.destroyed = false) : ¬ s.Accounted := by
  intro accounted
  obtain ⟨chain, path, length⟩ := accounted.counted alive
  rw [list] at path
  have member := path.start_mem
  rw [count] at length
  have empty : chain = [] := List.length_eq_zero_iff.mp (by omega)
  rw [empty] at member
  cases member

/-- A request is released with its message, which is then nowhere. -/
theorem not_accounted_of_released {reader : Reader} (sound : s.Sound) (unused : s.Unused)
    (full : s.tcall req ≠ none) (same : reader.fc = s.reader.fc) :
    ¬ Accounted { s with reader, reqs := s.reqs.free req } := by
  rintro ⟨-, ⟨place', placed'⟩, -⟩
  obtain ⟨⟨place, placed⟩, -, -⟩ := sound
  obtain ⟨p, has⟩ := Option.ne_none_iff_exists'.mp full
  have at' := (placed.req req p).mp has
  cases now : place' p with
  | freed =>
      have gone := (placed.freed p).mp ((placed'.freed p).mpr now)
      rw [at'] at gone
      cases gone
  | list =>
      have listed := placed'.list
      rw [unused.list, lists_none] at listed
      exact listed p now
  | reader =>
      have held := (placed'.reader p).mpr now
      have old := (placed.reader p).mp (same.symm.trans held)
      rw [at'] at old
      cases old
  | req r =>
      have held : ((s.reqs.free req).get r).join = some p := (placed'.req r p).mpr now
      rw [Cells.get_free] at held
      split_ifs at held with is
      · cases held
      · have old := (placed.req r p).mp held
        rw [at'] at old
        exact is (Place.req.inj old).symm
  | discard k =>
      have listed := placed'.discard k
      have empty : Conn.walked { s with reader, reqs := s.reqs.free req } k = none := by
        rcases has : s.discards.get k with _ | (_ | fc | (_ | fc))
        · simp [walked, has]
        · simp [walked, has]
        · simp [walked, has]
        · simp [walked, has]
        · exact absurd has (unused.walking k fc)
      rw [empty, lists_none] at listed
      exact listed p now

theorem alive_of_step (taken : s.step e = some s') (other : e.frees = false) :
    s.destroyed = false := by
  unfold step at taken
  split_ifs at taken with gone
  simpa [other] using gone

theorem not_accounted_of_step (sound : s.Sound) (unused : s.Unused) (breaks : ¬ s.Keeps e)
    (taken : s.step e = some s') : ¬ s'.Accounted := by
  have acted := act_of_step taken
  cases e with
  | addReq =>
      have resetting : s.resetting = true := by simpa [Keeps] using breaks
      rcases reader : s.reader with _ | _ | _ | _ <;> simp only [act, reader] at acted
      · cases acted
      · cases acted
      · rw [if_pos resetting] at acted
        obtain rfl := Option.some.inj acted
        refine not_accounted_of_released sound unused (unused.adding _ _ reader) ?_
        rw [reader]
        rfl
      · cases acted
  | respond req =>
      have alive := alive_of_step taken rfl
      obtain ⟨tcall, has, rfl⟩ := Option.map_eq_some_iff.mp acted
      cases tcall with
      | none => exact absurd (show s.tcall req = none by rw [Conn.tcall, has]; rfl) breaks
      | some rc =>
          rw [npConnFreeIncall_some sound.count]
          exact not_accounted_of_list unused.count rfl alive
  | unref req =>
      obtain ⟨tcall, has, rfl⟩ := Option.map_eq_some_iff.mp acted
      exact not_accounted_of_released sound unused breaks rfl
  | stop =>
      have alive := alive_of_step taken rfl
      rcases reader : s.reader with _ | fc | _ | _ <;> simp only [act, reader] at acted
      · cases acted
      · obtain rfl := Option.some.inj acted
        cases fc with
        | none => exact absurd (show s.reader.fc = none by rw [reader]; rfl) breaks
        | some rc =>
            rw [npConnFreeIncall_some sound.count]
            exact not_accounted_of_list unused.count rfl alive
      · cases acted
      · cases acted
  | _ => exact absurd trivial breaks

/-- In every run whose steps put no message on the list, and release no request with its message,
the accounts are right; and the first step that does so makes them wrong. -/
theorem calls_accounted_of_run {msize : UInt32}
    (run : Transition.Reaches step Keeps (start msize) s) :
    s.Accounted ∧ ∀ e s', s.step e = some s' → (s'.Accounted ↔ s.Keeps e) := by
  have unused_start : (start msize).Unused :=
    ⟨rfl, rfl, by simp [start], by simp [start], by simp [start]⟩
  obtain ⟨sound, unused⟩ : s.Sound ∧ s.Unused := by
    refine run.invariant (fun s => s.Sound ∧ s.Unused) ⟨sound_start, unused_start⟩ ?_
    intro s e s' inv keeps taken
    have orderly := inv.2.orderly keeps (act_of_step taken)
    exact ⟨inv.1.step orderly taken, inv.2.step keeps taken⟩
  refine ⟨accounted_of_unused sound unused,
    fun e s' taken => ⟨fun accounted => ?_, fun keeps => ?_⟩⟩
  · by_contra breaks
    exact not_accounted_of_step sound unused breaks taken accounted
  · have orderly := unused.orderly keeps (act_of_step taken)
    exact accounted_of_unused (sound.step orderly taken) (unused.step keeps taken)

end Steps

/-- The first request is answered: its message is on the list, and the counter is 0. -/
theorem not_calls_accounted_of_run : ¬ ∀ (msize : UInt32) (s : Conn),
    Transition.Reaches step (fun _ _ => True) (start msize) s → s.Accounted := by
  intro all
  have played : (Transition.play step (fun _ _ => True) (start 8216)
      [.begin true, .receive true, .addReq, .respond 0]).map
        (fun s => (s.freercnum, s.freerclist, s.destroyed)) = some (0, some 0, false) := by
    decide +kernel
  obtain ⟨s, is, fields⟩ := Option.map_eq_some_iff.mp played
  obtain ⟨count, list, alive⟩ : s.freercnum = 0 ∧ s.freerclist = some 0 ∧ s.destroyed = false := by
    simpa using fields
  exact not_accounted_of_list count list alive (all 8216 s (Transition.reaches_of_play is))

/-- A connection with one request is reset before the request is answered. -/
theorem calls_accounted_of_run_reset : ∃ s : Conn, s.reqs.next = 1 ∧ s.discards.next = 1 ∧
    s.Accounted := by
  have played : (Transition.play step Keeps (start 8216)
      [.begin true, .receive true, .addReq, .reset, .load 0, .clear 0, .resetDone 0]).map
        (fun s => (s.reqs.next, s.discards.next)) = some (1, 1) := by
    decide +kernel
  obtain ⟨s, is, fields⟩ := Option.map_eq_some_iff.mp played
  obtain ⟨reqs, discards⟩ : s.reqs.next = 1 ∧ s.discards.next = 1 := by simpa using fields
  exact ⟨s, reqs, discards, (calls_accounted_of_run (Transition.reaches_of_play is)).1⟩

end Conn

end FreeCalls

end Npfs
