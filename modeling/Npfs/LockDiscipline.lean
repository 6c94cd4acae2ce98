import Npfs.LockTrace

/-!
# The locks of the server core

The mutexes that one thread takes and releases on a path through `np_conn_reset`, `np_flush`,
`np_respond`, `np_conn_respond`, `np_srv_shutdown`, `np_srv_remove_conn` and `np_wthread_proc`.  A
path is given by what the function finds on its way: flags, list elements, the counts that drop to
zero and the outcomes of calls.
-/

namespace Npfs.LockDiscipline

open LockOp

/-- The mutexes of one server, by the addresses of what they belong to. -/
inductive Mutex (Addr : Type) where
  | srv
  | conn (c : Addr)
  | wlock (c : Addr)
  | req (r : Addr)
  | reqpool
  | fid (f : Addr)
  | fidpool (c : Addr)
  | user (u : Addr)
  | group (g : Addr)
  deriving DecidableEq

/-- The mutexes under which no function below is called. -/
def Mutex.inner {Addr : Type} : Mutex Addr → Bool
  | srv | req _ => false
  | _ => true

/-- What a thread does to the mutexes. -/
abbrev Trace (Addr : Type) := List (LockOp (Mutex Addr))

variable {Addr : Type}

/-! ## Users and fids -/

/-- A path through `np_group_decref`. -/
structure GroupDrop (Addr : Type) where
  group : Addr
  /-- The count drops to zero. -/
  last : Bool

def npGroupDecref (p : GroupDrop Addr) : Trace Addr :=
  if p.last then consuming (.group p.group) [] else within (.group p.group) []

/-- A path through `np_user_decref`. -/
structure UserDrop (Addr : Type) where
  user : Addr
  last : Bool
  /-- The groups of the user that are not `NULL`. -/
  groups : List (GroupDrop Addr)

/-- The last reference takes the mutex away as it is, locked. -/
def npUserDecref (p : UserDrop Addr) : Trace Addr :=
  if p.last then consuming (.user p.user) (p.groups.flatMap npGroupDecref)
  else within (.user p.user) []

/-- A path through `np_fid_decref`. -/
structure FidDrop (Addr : Type) where
  fid : Addr
  conn : Addr
  last : Bool
  /-- The connection still has its pool of fids. -/
  pooled : Bool
  user : Option (UserDrop Addr)

def npFidDestroy (p : FidDrop Addr) : Trace Addr :=
  if p.pooled then within (Mutex.fidpool p.conn) [] ++ p.user.elim [] npUserDecref else []

def npFidDecref (p : FidDrop Addr) : Trace Addr :=
  within (Mutex.fid p.fid) [] ++ if p.last then npFidDestroy p else []

/-! ## Connections and requests -/

/-- A path through `np_conn_decref`. -/
structure ConnDrop (Addr : Type) where
  conn : Addr
  last : Bool

def npConnDecref (p : ConnDrop Addr) : Trace Addr :=
  within (Mutex.conn p.conn) [] ++ if p.last then [LockOp.destroy (Mutex.conn p.conn)] else []

def npConnShutdown (c : Addr) : Trace Addr := within (.conn c) []

def npReqRef (r : Addr) : Trace Addr := within (.req r) []

/-- A path through `np_req_unref`. -/
structure ReqDrop (Addr : Type) where
  last : Bool
  conn : Option (ConnDrop Addr)

def npReqUnref (r : Addr) (p : ReqDrop Addr) : Trace Addr :=
  within (Mutex.req r) [] ++
    if p.last then p.conn.elim [] npConnDecref ++ within Mutex.reqpool [] else []

/-- A path through `np_conn_respond`. -/
structure Respond (Addr : Type) where
  conn : Addr
  /-- There is a reply. -/
  rcall : Bool
  /-- The transport is there, and the connection is not resetting. -/
  send : Bool
  /-- `np_trans_write` has written nothing. -/
  failed : Bool
  /-- There is a request to put on the free list. -/
  tcall : Bool
  /-- `conn->resetting`, as it is read at the end. -/
  resetting : Bool

def npConnRespond (p : Respond Addr) : Trace Addr :=
  (if p.rcall then
    within (Mutex.conn p.conn) [] ++
      if p.send then
        within (Mutex.wlock p.conn) [] ++ if p.failed then within (Mutex.conn p.conn) [] else []
      else []
  else []) ++
  (if p.tcall then within (Mutex.conn p.conn) [] else []) ++
  if p.resetting then within Mutex.srv [] else []

/-- A request that waits on the chain of another to be answered with it. -/
structure Flushed (Addr : Type) where
  req : Addr
  respond : Respond Addr
  drop : ReqDrop Addr

def respondFlush (p : Flushed Addr) : Trace Addr :=
  within (.req p.req) (npConnRespond p.respond) ++ npReqUnref p.req p.drop

/-- A reply: the fid that is released, and the way to the transport. -/
structure Reply (Addr : Type) where
  fid : Option (FidDrop Addr)
  respond : Respond Addr

def sendReply (p : Reply Addr) : Trace Addr :=
  p.fid.elim [] npFidDecref ++ npConnRespond p.respond

/-- A path through `np_respond`. -/
structure Answer (Addr : Type) where
  req : Addr
  /-- The request has been answered before. -/
  responded : Bool
  /-- `rc`, when it is not `NULL`. -/
  reply : Option (Reply Addr)
  /-- The requests that the last loop follows the chain `req->flushreq` through. -/
  flushreqs : List (Flushed Addr)
  drop : ReqDrop Addr

def npRespond (p : Answer Addr) : Trace Addr :=
  within (Mutex.req p.req) [] ++
    if p.responded then npReqUnref p.req p.drop
    else
      within Mutex.srv [] ++
        (within (Mutex.req p.req) (p.reply.elim [] sendReply ++ p.flushreqs.flatMap respondFlush) ++
          npReqUnref p.req p.drop)

/-! ## Flush, reset and shutdown -/

/-- What `srv->flush` does, and the reference dropped behind it.  A backend that keeps requests for
itself answers some of them. -/
structure FlushCall (Addr : Type) where
  answers : List (Answer Addr)
  drop : ReqDrop Addr

/-- A path through `np_flush`. -/
inductive Flush (Addr : Type) where
  /-- The request to flush is found among the pending ones. -/
  | pending (creq : Addr) (respond : Respond Addr) (drop : ReqDrop Addr)
  /-- It is found among the working ones; the server may have no `flush`. -/
  | working (creq : Addr) (flush : Option (FlushCall Addr))
  | absent

def npFlush : Flush Addr → Trace Addr
  | .pending creq respond drop =>
    within .srv (within (.req creq) (npConnRespond respond) ++ npReqUnref creq drop)
  | .working creq flush =>
    within .srv (npReqRef creq ++ within (.req creq) []) ++
      flush.elim [] fun call => call.answers.flatMap npRespond ++ npReqUnref creq call.drop
  | .absent => within .srv []

/-- A path through `np_conn_reset`. -/
structure Reset (Addr : Type) where
  conn : Addr
  /-- The pending requests of the connection. -/
  preqs : List (Flushed Addr)
  /-- Its working requests, with the drop of the reference that is taken to each. -/
  reqs : List (Addr × ReqDrop Addr)
  /-- What `srv->flush` answers. -/
  answers : List (Answer Addr)
  /-- How often the thread waits for `resetcond`. -/
  waits : ℕ

def npConnReset (p : Reset Addr) : Trace Addr :=
  (within (Mutex.conn p.conn) [] ++
    (within Mutex.srv (p.reqs.flatMap fun req => npReqRef req.1) ++
      (p.preqs.flatMap (fun req => npConnRespond req.respond ++ npReqUnref req.req req.drop) ++
        (p.answers.flatMap npRespond ++
          within Mutex.srv ((List.range p.waits).flatMap fun _ => [.wait .srv]))))) ++
  -- the lock at "wait until all working requests finish" is commented out
  .unlock (.conn p.conn) :: p.reqs.flatMap fun req => npReqUnref req.1 req.2

/-- A path through `np_srv_shutdown`. -/
structure Shutdown (Addr : Type) where
  /-- `srv->shuttingdown` is set already. -/
  again : Bool
  /-- The connections that are taken from the list. -/
  conns : List (ConnDrop Addr)

def npSrvShutdown (p : Shutdown Addr) : Trace Addr :=
  within Mutex.srv [] ++
    if p.again then []
    else p.conns.flatMap fun conn => npConnShutdown conn.conn ++ npConnDecref conn

/-- A path through `np_srv_remove_conn`, with the drop of the list's reference when the connection
was on the list. -/
def npSrvRemoveConn (listed : Option (ConnDrop Addr)) : Trace Addr :=
  within .srv (listed.elim [] npConnDecref)

/-! ## Workers -/

/-- What a handler other than those of `Tversion` and `Tflush` does. -/
inductive HandlerCall (Addr : Type) where
  /-- `np_fid_find` or `np_fid_create`. -/
  | lookup (conn : Addr)
  | fidIncref (f : Addr)
  | fidDecref (p : FidDrop Addr)
  | userIncref (u : Addr)
  | userDecref (p : UserDrop Addr)
  /-- The backend answers a request that it kept. -/
  | answer (p : Answer Addr)

def HandlerCall.trace : HandlerCall Addr → Trace Addr
  | lookup conn => within (.fidpool conn) []
  | fidIncref f => within (.fid f) []
  | fidDecref p => npFidDecref p
  | userIncref u => within (.user u) []
  | userDecref p => npUserDecref p
  | answer p => npRespond p

/-- A path through `np_process_request`. -/
inductive Process (Addr : Type) where
  /-- A `Tversion`, which resets the connection when the version is accepted. -/
  | version (reset : Option (Reset Addr))
  | flush (p : Flush Addr)
  | other (calls : List (HandlerCall Addr))

def npProcessRequest : Process Addr → Trace Addr
  | .version reset => reset.elim [] npConnReset
  | .flush p => npFlush p
  | .other calls => calls.flatMap HandlerCall.trace

/-- A pass of the loop of a worker. -/
inductive Pass (Addr : Type) where
  /-- There is no request, or the thread could not take its root. -/
  | wait
  /-- A request is taken and processed, and answered when there is a reply. -/
  | serve (process : Process Addr) (answer : Option (Answer Addr))

def Pass.trace : Pass Addr → Trace Addr
  | wait => [.wait .srv]
  | serve process answer =>
    without .srv (npProcessRequest process ++ answer.elim [] npRespond)

def npWthreadProc (passes : List (Pass Addr)) : Trace Addr :=
  within .srv (passes.flatMap Pass.trace)

/-! ## Which paths are right -/

/-- The chain of a request does not lead to the request itself. -/
def Answer.Apart (p : Answer Addr) : Prop :=
  p.responded = false → ∀ freq ∈ p.flushreqs, freq.req ≠ p.req

/-- A pending request is flushed only while its connection is not resetting. -/
def Flush.Settled : Flush Addr → Prop
  | pending _ respond _ => respond.resetting = false
  | working _ flush => ∀ call ∈ flush, ∀ answer ∈ call.answers, answer.Apart
  | absent => True

def HandlerCall.Settled : HandlerCall Addr → Prop
  | answer p => p.Apart
  | _ => True

def Process.Settled : Process Addr → Prop
  | version reset => reset = none
  | flush p => p.Settled
  | other calls => ∀ call ∈ calls, call.Settled

def Pass.Settled : Pass Addr → Prop
  | wait => True
  | serve process answer => process.Settled ∧ ∀ p ∈ answer, p.Apart

variable [DecidableEq Addr]

/-- The thread locks nothing that it holds, unlocks nothing that it does not hold, and returns
holding what it held, which is nothing. -/
def Disciplined (trace : Trace Addr) : Prop := run trace ∅ = some ∅

instance (trace : Trace Addr) : Decidable (Disciplined trace) :=
  inferInstanceAs (Decidable (run trace ∅ = some ∅))

/-! ## What may be held outside -/

/-- Only mutexes under which the functions below are called. -/
def Outer (held : Finset (Mutex Addr)) : Prop := ∀ m ∈ held, m.inner = false

variable {held : Finset (Mutex Addr)}

omit [DecidableEq Addr] in
theorem outer_empty : Outer (∅ : Finset (Mutex Addr)) := fun m mem => by simp at mem

omit [DecidableEq Addr] in
theorem Outer.free (h : Outer held) {m : Mutex Addr} (inner : m.inner = true) : m ∉ held := by
  intro mem
  rw [h m mem] at inner
  cases inner

theorem Outer.insert (h : Outer held) {m : Mutex Addr} (outer : m.inner = false) :
    Outer (insert m held) := by
  intro m' mem
  rcases Finset.mem_insert.mp mem with rfl | mem
  · exact outer
  · exact h m' mem

/-! ## Users and fids: no path goes wrong -/

theorem keeps_npGroupDecref (p : GroupDrop Addr) (free : .group p.group ∉ held) :
    Keeps (npGroupDecref p) held := by
  unfold npGroupDecref
  split
  · exact keeps_nil.consuming free
  · exact keeps_section free

theorem keeps_npUserDecref (h : Outer held) (p : UserDrop Addr) : Keeps (npUserDecref p) held := by
  have free : .user p.user ∉ held := h.free rfl
  unfold npUserDecref
  split
  · -- the groups are released with the user locked
    refine (keeps_flatMap fun g _ => keeps_npGroupDecref g ?_).consuming free
    simpa using h.free (m := .group g.group) rfl
  · exact keeps_section free

theorem keeps_npFidDestroy (h : Outer held) (p : FidDrop Addr) : Keeps (npFidDestroy p) held := by
  unfold npFidDestroy
  split
  · refine (keeps_section (h.free rfl)).before ?_
    cases p.user with
    | none => exact keeps_nil
    | some u => exact keeps_npUserDecref h u
  · exact keeps_nil

theorem keeps_npFidDecref (h : Outer held) (p : FidDrop Addr) : Keeps (npFidDecref p) held := by
  refine (keeps_section (h.free rfl)).before ?_
  split
  · exact keeps_npFidDestroy h p
  · exact keeps_nil

/-! ## Connections and requests -/

theorem keeps_npConnDecref (h : Outer held) (p : ConnDrop Addr) : Keeps (npConnDecref p) held := by
  have free : .conn p.conn ∉ held := h.free rfl
  refine (keeps_section free).before ?_
  split
  · exact keeps_destroy free
  · exact keeps_nil

theorem keeps_npReqUnref (h : Outer held) {r : Addr} (free : .req r ∉ held) (p : ReqDrop Addr) :
    Keeps (npReqUnref r p) held := by
  refine (keeps_section free).before ?_
  split
  · refine KeepsIff.behind ?_ (keeps_section (h.free rfl))
    cases p.conn with
    | none => exact keeps_nil
    | some conn => exact keeps_npConnDecref h conn
  · exact keeps_nil

/-- `np_conn_respond` goes wrong under `srv->lock` when it finds the connection resetting. -/
theorem keepsIff_npConnRespond (h : Outer held) (p : Respond Addr) :
    KeepsIff (p.resetting = true → .srv ∉ held) (npConnRespond p) held := by
  have section_ : Keeps (within (.conn p.conn) []) held := keeps_section (h.free rfl)
  refine KeepsIff.before (KeepsIff.before ?_ ?_) ?_
  · -- the reply
    split
    · refine section_.before ?_
      split
      · refine (keeps_section (h.free rfl)).before ?_
        split
        · exact section_
        · exact keeps_nil
      · exact keeps_nil
    · exact keeps_nil
  · -- the request
    split
    · exact section_
    · exact keeps_nil
  · -- the signal to `np_conn_reset`
    cases resetting : p.resetting with
    | false => exact keeps_nil.congr (by simp)
    | true =>
        by_cases mem : .srv ∈ held
        · exact (keeps_within_of_mem mem).congr (by simp [mem])
        · exact (keeps_section mem).congr (by simp [mem])

/-- Without `srv->lock` no path through `np_conn_respond` goes wrong. -/
theorem keeps_npConnRespond (h : Outer held) (srv : .srv ∉ held) (p : Respond Addr) :
    Keeps (npConnRespond p) held :=
  (keepsIff_npConnRespond h p).congr (by simp [srv])

/-! ## Answers -/

/-- A request on a chain is answered under the lock of the request that the chain hangs from. -/
theorem keepsIff_respondFlush (r : Addr) (p : Flushed Addr) :
    KeepsIff (p.req ≠ r) (respondFlush p) {.req r} := by
  have outer : Outer {Mutex.req r} := outer_empty.insert rfl
  by_cases same : p.req = r
  · have mem : Mutex.req p.req ∈ ({.req r} : Finset (Mutex Addr)) := by simp [same]
    exact (keeps_within_of_mem mem).never.congr (by simp [same])
  · have free : Mutex.req p.req ∉ ({.req r} : Finset (Mutex Addr)) := by simp [same]
    have respond := keeps_npConnRespond (outer.insert (m := .req p.req) rfl) (by simp) p.respond
    have keeps := (respond.within free).before (keeps_npReqUnref outer free p.drop)
    exact keeps.congr (by simp [same])

theorem keeps_sendReply (r : Addr) (p : Reply Addr) : Keeps (sendReply p) {.req r} := by
  have outer : Outer {Mutex.req r} := outer_empty.insert rfl
  refine KeepsIff.before ?_ (keeps_npConnRespond outer (by simp) p.respond)
  cases p.fid with
  | none => exact keeps_nil
  | some fid => exact keeps_npFidDecref outer fid

theorem keepsIff_npRespond (p : Answer Addr) : KeepsIff p.Apart (npRespond p) ∅ := by
  have free (m : Mutex Addr) : m ∉ (∅ : Finset (Mutex Addr)) := Finset.notMem_empty m
  have unref := keeps_npReqUnref outer_empty (free (.req p.req)) p.drop
  refine (keeps_section (free _)).before ?_
  cases responded : p.responded with
  | true => exact unref.congr (by simp [Answer.Apart, responded])
  | false =>
      refine KeepsIff.before (keeps_section (free _)) (KeepsIff.behind ?_ unref)
      refine KeepsIff.within ?_ (free _)
      have chain := KeepsIff.flatMap (l := p.flushreqs)
        fun freq _ => keepsIff_respondFlush p.req freq
      refine KeepsIff.before ?_ (chain.congr (by simp [Answer.Apart, responded]))
      cases p.reply with
      | none => exact keeps_nil
      | some reply => exact keeps_sendReply p.req reply

/-! ## Flush, reset and shutdown -/

theorem keepsIff_npFlush (p : Flush Addr) : KeepsIff p.Settled (npFlush p) ∅ := by
  have free (m : Mutex Addr) : m ∉ (∅ : Finset (Mutex Addr)) := Finset.notMem_empty m
  have locked : Outer (insert Mutex.srv (∅ : Finset (Mutex Addr))) := outer_empty.insert rfl
  have other (r : Addr) : Mutex.req r ∉ insert Mutex.srv (∅ : Finset (Mutex Addr)) := by simp
  cases p with
  | pending creq respond drop =>
      refine KeepsIff.within ?_ (free _)
      have unref := keeps_npReqUnref locked (other creq) drop
      refine KeepsIff.behind (KeepsIff.within ?_ (other creq)) unref
      -- both locks are held
      exact (keepsIff_npConnRespond (locked.insert rfl) respond).congr (by simp [Flush.Settled])
  | working creq flush =>
      have found : Keeps (npReqRef creq ++ within (Mutex.req creq) []) (insert Mutex.srv ∅) :=
        KeepsIff.before (keeps_section (other creq)) (keeps_section (other creq))
      refine KeepsIff.before (found.within (free _)) ?_
      cases flush with
      | none => exact keeps_nil.congr (by simp [Flush.Settled])
      | some call =>
          have answers := KeepsIff.flatMap (l := call.answers) fun p _ => keepsIff_npRespond p
          have unref := keeps_npReqUnref outer_empty (free (.req creq)) call.drop
          exact (answers.behind unref).congr (by simp [Flush.Settled])
  | absent => exact (keeps_section (free _)).congr (by simp [Flush.Settled])

theorem keepsIff_npConnReset (p : Reset Addr) : KeepsIff False (npConnReset p) ∅ := by
  have free (m : Mutex Addr) : m ∉ (∅ : Finset (Mutex Addr)) := Finset.notMem_empty m
  refine KeepsIff.unlock_free (p := ∀ answer ∈ p.answers, answer.Apart) ?_ (free _)
  refine (keeps_section (free _)).before (KeepsIff.before ?_ (KeepsIff.before ?_ ?_))
  · -- the references to the working requests
    refine (keeps_flatMap fun req _ => ?_).within (free _)
    exact keeps_section (by simp)
  · -- the pending requests
    refine keeps_flatMap fun req _ => ?_
    exact (keeps_npConnRespond outer_empty (free _) req.respond).before
      (keeps_npReqUnref outer_empty (free _) req.drop)
  · refine KeepsIff.behind (KeepsIff.flatMap fun p _ => keepsIff_npRespond p) ?_
    exact (keeps_flatMap fun _ _ => keeps_wait (by simp)).within (free _)

theorem keeps_npSrvShutdown (p : Shutdown Addr) : Keeps (npSrvShutdown p) ∅ := by
  have free (m : Mutex Addr) : m ∉ (∅ : Finset (Mutex Addr)) := Finset.notMem_empty m
  refine (keeps_section (free _)).before ?_
  split
  · exact keeps_nil
  · refine keeps_flatMap fun conn _ => ?_
    exact KeepsIff.before (keeps_section (free _)) (keeps_npConnDecref outer_empty conn)

theorem keeps_npSrvRemoveConn (listed : Option (ConnDrop Addr)) :
    Keeps (npSrvRemoveConn listed) ∅ := by
  refine KeepsIff.within ?_ (Finset.notMem_empty _)
  cases listed with
  | none => exact keeps_nil
  | some conn => exact keeps_npConnDecref (outer_empty.insert rfl) conn

/-! ## Workers -/

theorem keepsIff_call (call : HandlerCall Addr) : KeepsIff call.Settled call.trace ∅ := by
  have free (m : Mutex Addr) : m ∉ (∅ : Finset (Mutex Addr)) := Finset.notMem_empty m
  cases call with
  | lookup conn => exact keeps_section (free _)
  | fidIncref f => exact keeps_section (free _)
  | fidDecref p => exact keeps_npFidDecref outer_empty p
  | userIncref u => exact keeps_section (free _)
  | userDecref p => exact keeps_npUserDecref outer_empty p
  | answer p => exact keepsIff_npRespond p

theorem keepsIff_npProcessRequest (p : Process Addr) :
    KeepsIff p.Settled (npProcessRequest p) ∅ := by
  cases p with
  | version reset =>
      cases reset with
      | none => exact keeps_nil.congr (by simp [Process.Settled])
      | some reset => exact (keepsIff_npConnReset reset).congr (by simp [Process.Settled])
  | flush p => exact keepsIff_npFlush p
  | other calls => exact KeepsIff.flatMap fun call _ => keepsIff_call call

theorem keepsIff_pass (pass : Pass Addr) : KeepsIff pass.Settled pass.trace {.srv} := by
  cases pass with
  | wait => exact keeps_wait (by simp)
  | serve process answer =>
      refine KeepsIff.without ?_ (by simp)
      rw [Finset.erase_singleton]
      refine (keepsIff_npProcessRequest process).append ?_
      cases answer with
      | none => exact keeps_nil.congr (by simp)
      | some p => exact (keepsIff_npRespond p).congr (by simp)

theorem keepsIff_npWthreadProc (passes : List (Pass Addr)) :
    KeepsIff (∀ pass ∈ passes, pass.Settled) (npWthreadProc passes) ∅ :=
  (KeepsIff.flatMap fun pass _ => keepsIff_pass pass).within (Finset.notMem_empty _)

/-- Which paths keep the lock discipline: none through `np_conn_reset`; through `np_flush` and
`np_respond` those that find no pending request of a connection that is resetting and no request on
its own chain; through `np_wthread_proc` those that serve no other requests; and all paths through
the other functions. -/
theorem disciplined_iff :
    (∀ p : Reset Addr, ¬Disciplined (npConnReset p)) ∧
    (∀ p : Flush Addr, Disciplined (npFlush p) ↔ p.Settled) ∧
    (∀ p : Answer Addr, Disciplined (npRespond p) ↔ p.Apart) ∧
    (∀ p : Respond Addr, Disciplined (npConnRespond p)) ∧
    (∀ p : Shutdown Addr, Disciplined (npSrvShutdown p)) ∧
    (∀ listed : Option (ConnDrop Addr), Disciplined (npSrvRemoveConn listed)) ∧
    ∀ passes : List (Pass Addr),
      Disciplined (npWthreadProc passes) ↔ ∀ pass ∈ passes, pass.Settled := by
  refine ⟨fun p => (keepsIff_npConnReset p).iff.not.mpr id, fun p => (keepsIff_npFlush p).iff,
    fun p => (keepsIff_npRespond p).iff, fun p => ?_,
    fun p => (keeps_npSrvShutdown p).keeps trivial,
    fun listed => (keeps_npSrvRemoveConn listed).keeps trivial,
    fun passes => (keepsIff_npWthreadProc passes).iff⟩
  exact (keeps_npConnRespond outer_empty (Finset.notMem_empty _) p).keeps trivial

/-! ## Two paths on which the discipline is broken -/

/-- A reset of connection 1 that finds no request. -/
def emptyReset : Reset ℕ := ⟨1, [], [], [], 0⟩

/-- A worker takes and processes a `Tversion`, and another one a `Tflush` of a pending request when
`np_conn_reset` has set `conn->resetting` and not yet taken `srv->lock`. -/
theorem not_disciplined_all :
    ¬Disciplined (npWthreadProc [.serve (.version (some emptyReset)) none]) ∧
    ¬Disciplined
      (npFlush (.pending 2 ⟨1, false, false, false, true, true⟩ ⟨true, some ⟨1, false⟩⟩)) := by
  decide

end Npfs.LockDiscipline
