import Npfs.LinkedChain
import Npfs.Message
import Npfs.Transition

/-!
# The request queue

The life of a request from `np_conn_read_proc` through `np_wthread_proc`, `np_flush`, `np_respond`
and `np_conn_respond`.  A step of the system is one lock-delimited section of one thread; the
threads are the readers, the workers, and the threads of a back end that answers later what a
callback kept.

A request is named by the serial number of its `np_req_alloc`, and lives in a structure at some
address.  Everything a section reads through a pointer whose reference it holds is stored by serial
number.  The one field that is read from a structure after its last reference may have been dropped
is `flushreq`, in the second loop of `np_respond`; it is stored by address, so that a structure
taken again by `np_req_alloc` shows there.
-/

namespace Npfs.Requests

/-- A request: the serial number of the `np_req_alloc` that made it. -/
abbrev ReqId := Nat

/-- `Npreq`, apart from the list links. -/
structure Npreq where
  /-- Address of the structure. -/
  home : Nat
  /-- `req->conn`. -/
  conn : Nat
  tag : UInt16
  tcall : Npfcall
  refcount : Nat
  responded : Bool

/-- What a thread does next. -/
inductive Pc where
  /-- Wait for work: a reader in `np_trans_read`, a worker in its loop, a back end's own thread. -/
  | idle
  /-- The reader has allocated the request and has yet to queue it. -/
  | allocated (req : ReqId)
  /-- In `np_process_request`. -/
  | serving (req : ReqId)
  /-- In `np_flush`, with the reference on the working request that was found. -/
  | flushed (creq : ReqId)
  /-- At the head of `np_respond` with a reply of type `rtype`. -/
  | respond (req : ReqId) (rtype : UInt8)
  /-- `req->responded` is set. -/
  | marked (req : ReqId) (rtype : UInt8)
  /-- The request and its flushes are off the working list. -/
  | unlinked (req : ReqId) (rtype : UInt8)
  /-- In `np_conn_respond`, with the connection's transport in hand. -/
  | writing (req : ReqId) (rtype : UInt8)
  /-- Past `np_conn_respond(req)`, about to read `req->flushreq`. -/
  | responded (req : ReqId)
  /-- In the second loop of `np_respond`, before `np_conn_respond(freq)`. -/
  | flushing (req freq : ReqId)
  /-- In `np_conn_respond(freq)`, with the connection's transport in hand. -/
  | flushWriting (req freq : ReqId)
  /-- Past `np_conn_respond(freq)`, before `np_req_unref(freq)`. -/
  | flushResponded (req freq : ReqId)
  /-- Past `np_req_unref(freq)`, about to read `freq->flushreq`. -/
  | released (req freq : ReqId)
  /-- Past both loops of `np_respond`, before `np_req_unref(req)`. -/
  | finishing (req : ReqId)
  deriving DecidableEq

/-- The head of the second loop of `np_respond`. -/
def Pc.loop (req : ReqId) : Option ReqId → Pc
  | some freq => .flushing req freq
  | none => .finishing req

/-- The structure without a reference that a thread is about to read. -/
def Pc.dangling : Pc → Option ReqId
  | .released _ freq => some freq
  | _ => none

/-- One `np_conn_respond` of a reply: the request it answers, the tag and type of the reply, and
whether the transport took it. -/
structure Answer where
  req : ReqId
  tag : UInt16
  type : UInt8
  written : Bool
  deriving DecidableEq

/-- The request lists of `Npsrv`, the requests, and what each thread does next. -/
structure Server (threads : Nat) where
  /-- `srv->reqs_first`, ..., `srv->reqs_last`. -/
  reqs : List ReqId
  /-- `srv->workreqs`. -/
  workreqs : List ReqId
  req : ReqId → Npreq
  /-- The serial number of the next `np_req_alloc`. -/
  next : ReqId
  /-- `flushreq` of the structure at an address. -/
  flushreq : Nat → Option ReqId
  pc : Fin threads → Pc
  /-- Requests that a callback kept, to be answered later. -/
  kept : List ReqId
  /-- The answers, in the order they were given. -/
  log : List Answer
  /-- History: the requests that were queued. -/
  entered : List ReqId
  /-- History: the requests that a flush took off the queue. -/
  cancelled : List ReqId
  /-- History: the requests that carried `oldtag` when the flush was processed. -/
  targets : ReqId → List ReqId
  /-- History: the flushes that `np_respond` took off the working list with a request. -/
  chains : ReqId → List ReqId
  /-- History: the requests whose `np_respond` has returned. -/
  finished : List ReqId

/-- The table index of `np_flush` in `np_fcalls`, which `np_process_request` reaches by
`(tc->type-Tfirst)/2`, so for `Tflush` and for `Rflush`. -/
def callsFlush (tc : Npfcall) : Bool :=
  (tc.type.toNat - MsgType.tlerror.code.toNat) / 2 = 51

/-- A message with the fields that the queue looks at. -/
def message (type : MsgType) (tag oldtag : UInt16) : Npfcall :=
  { (default : Npfcall) with type := type.code, tag, oldtag }

namespace Server

variable {threads : Nat} (s : Server threads)

/-- The server before the first request. -/
def start (threads : Nat) : Server threads where
  reqs := []
  workreqs := []
  req _ := ⟨0, 0, 0, default, 0, false⟩
  next := 0
  flushreq _ := none
  pc _ := .idle
  kept := []
  log := []
  entered := []
  cancelled := []
  targets _ := []
  chains _ := []
  finished := []

/-- `req->flushreq`. -/
def link (req : ReqId) : Option ReqId := s.flushreq (s.req req).home

/-- The requests that were answered. -/
def answered : List ReqId := s.log.map Answer.req

/-- The structure at an address holds no request with a reference: it was never allocated, or it
went back to the pool of requests or to `free`. -/
def Free (home : Nat) : Prop :=
  ∀ req < s.next, (s.req req).home = home → (s.req req).refcount = 0

instance (home : Nat) : Decidable (s.Free home) :=
  inferInstanceAs (Decidable (∀ req < s.next, _ → _))

/-- The thread goes on at `pc`. -/
def setPc (t : Fin threads) (pc : Pc) : Server threads :=
  { s with pc := Function.update s.pc t pc }

/-- `np_req_ref`. -/
def npReqRef (req : ReqId) : Server threads :=
  { s with
    req := Function.update s.req req ({ s.req req with refcount := (s.req req).refcount + 1 }) }

/-- `np_req_unref`.  A structure whose count reaches zero is free for `np_req_alloc`. -/
def npReqUnref (req : ReqId) : Server threads :=
  { s with
    req := Function.update s.req req ({ s.req req with refcount := (s.req req).refcount - 1 }) }

/-- `np_req_alloc` with the structure at `home`. -/
def npReqAlloc (t : Fin threads) (conn : Nat) (tc : Npfcall) (home : Nat) : Server threads :=
  { s with
    req := Function.update s.req s.next
      ({ home, conn, tag := tc.tag, tcall := tc, refcount := 1, responded := false })
    next := s.next + 1
    flushreq := Function.update s.flushreq home none }.setPc t (.allocated s.next)

/-- `np_srv_add_req`, in the reader. -/
def npSrvAddReq (t : Fin threads) (req : ReqId) : Server threads :=
  { s with reqs := s.reqs ++ [req], entered := s.entered ++ [req] }.setPc t .idle

/-- A worker takes the first request: `np_srv_remove_req` and `np_srv_add_workreq`. -/
def takeReq (t : Fin threads) (req : ReqId) (rest : List ReqId) : Server threads :=
  { s with reqs := rest, workreqs := req :: s.workreqs }.setPc t (.serving req)

/-- A callback keeps the request and returns `NULL` without an error. -/
def keep (t : Fin threads) (req : ReqId) : Server threads :=
  { s with kept := req :: s.kept }.setPc t .idle

/-- The back end answers a request that it kept. -/
def resume (t : Fin threads) (req : ReqId) (rtype : UInt8) : Server threads :=
  { s with kept := s.kept.erase req }.setPc t (.respond req rtype)

/-- The test of the two searches in `np_flush`. -/
def carries (conn : Nat) (oldtag : UInt16) (creq : ReqId) : Bool :=
  (s.req creq).conn = conn ∧ (s.req creq).tag = oldtag

/-- The requests of a connection that carry a tag: queued at some time, and neither answered nor
taken off the queue by a flush. -/
def carriers (conn : Nat) (oldtag : UInt16) : List ReqId :=
  s.entered.filter fun creq =>
    s.carries conn oldtag creq && (creq ∉ s.answered && creq ∉ s.cancelled)

/-- The requests that carry `oldtag` as flush `req` is processed are its targets. -/
def search (req : ReqId) : Server threads :=
  { s with
    targets := Function.update s.targets req
      (s.carriers (s.req req).conn (s.req req).tcall.oldtag) }

/-- `np_flush` found a pending request: it leaves the queue and its only reference is dropped. -/
def flushPending (t : Fin threads) (req creq : ReqId) : Server threads :=
  (({ s with
      reqs := s.reqs.erase creq
      cancelled := s.cancelled ++ [creq] }).npReqUnref creq).setPc t
    (.respond req MsgType.rflush.code)

/-- `np_flush` found a working request: `req->flushreq = creq->flushreq; creq->flushreq = req`. -/
def flushWorking (t : Fin threads) (req creq : ReqId) : Server threads :=
  ({ s with
      flushreq := Function.update (Function.update s.flushreq (s.req req).home (s.link creq))
        (s.req creq).home (some req) }.npReqRef creq).setPc t (.flushed creq)

/-- The critical section of `np_flush`. -/
def npFlush (t : Fin threads) (req : ReqId) : Server threads :=
  let carries := s.carries (s.req req).conn (s.req req).tcall.oldtag
  match s.reqs.find? carries with
  | some creq => (s.search req).flushPending t req creq
  | none =>
    match s.workreqs.find? carries with
    | some creq => (s.search req).flushWorking t req creq
    | none => (s.search req).setPc t (.respond req MsgType.rflush.code)

/-- The end of `np_flush`, after the back end's flush callback. -/
def flushDone (t : Fin threads) (creq : ReqId) : Server threads :=
  (s.npReqUnref creq).setPc t .idle

/-- The first section of `np_respond`: a request that was answered is only released. -/
def respondMark (t : Fin threads) (req : ReqId) (rtype : UInt8) : Server threads :=
  if (s.req req).responded then
    (s.npReqUnref req).setPc t .idle
  else
    { s with
      req := Function.update s.req req ({ s.req req with responded := true }) }.setPc t
      (.marked req rtype)

/-- The second section of `np_respond`: the request and its flushes leave the working list. -/
def respondUnlink (t : Fin threads) (req : ReqId) (rtype : UInt8) (chain : List ReqId) :
    Server threads :=
  { s with
    workreqs := s.workreqs.diff (req :: chain)
    chains := Function.update s.chains req chain }.setPc t (.unlinked req rtype)

/-- `np_conn_respond` is through with a reply. -/
def answer (t : Fin threads) (req : ReqId) (rtype : UInt8) (written : Bool) (pc : Pc) :
    Server threads :=
  { s with log := s.log ++ [Answer.mk req (s.req req).tag rtype written] }.setPc t pc

/-- Go on in the second loop of `np_respond` with the request that a `flushreq` field held. -/
def nextFlush (t : Fin threads) (req : ReqId) (freq : Option ReqId) : Server threads :=
  s.setPc t (Pc.loop req freq)

/-- `np_req_unref(freq)` in the second loop of `np_respond`. -/
def releaseFlush (t : Fin threads) (req freq : ReqId) : Server threads :=
  (s.npReqUnref freq).setPc t (.released req freq)

/-- The last `np_req_unref` of `np_respond`. -/
def respondDone (t : Fin threads) (req : ReqId) : Server threads :=
  { s.npReqUnref req with finished := s.finished ++ [req] }.setPc t .idle

end Server

/-- What the environment decides about a thread's step. -/
inductive Event where
  /-- A message arrives, and `np_req_alloc` gets the structure at `home`. -/
  | receive (conn : Nat) (tc : Npfcall) (home : Nat)
  /-- A worker looks for work. -/
  | take
  /-- The back end answers a request that it kept. -/
  | resume (req : ReqId) (rtype : UInt8)
  /-- The handler returns a reply or an error. -/
  | reply (rtype : UInt8)
  /-- The callback keeps the request. -/
  | keep
  /-- `np_conn_respond` finds the connection's transport, or none. -/
  | send (found : Bool)
  /-- `np_trans_write` takes the reply, or fails. -/
  | write (taken : Bool)
  /-- The thread goes on. -/
  | advance

open Server in
/-- One section of thread `t`; `none` when the thread cannot take it. -/
def step {threads : Nat} (s : Server threads) : Fin threads × Event → Option (Server threads)
  | (t, event) =>
    match s.pc t with
    | .idle =>
      match event with
      | .receive conn tc home => if s.Free home then some (s.npReqAlloc t conn tc home) else none
      | .take =>
        match s.reqs with
        | req :: rest => some (s.takeReq t req rest)
        | [] => none
      | .resume req rtype => if req ∈ s.kept then some (s.resume t req rtype) else none
      | _ => none
    | .allocated req =>
      match event with
      | .advance => some (s.npSrvAddReq t req)
      | _ => none
    | .serving req =>
      match event, callsFlush (s.req req).tcall with
      | .advance, true => some (s.npFlush t req)
      | .reply rtype, false => some (s.setPc t (.respond req rtype))
      | .keep, false => some (s.keep t req)
      | _, _ => none
    | .flushed creq =>
      match event with
      | .advance => some (s.flushDone t creq)
      | _ => none
    | .respond req rtype =>
      match event with
      | .advance => some (s.respondMark t req rtype)
      | _ => none
    | .marked req rtype =>
      match event with
      | .advance =>
        -- a chain has at most as many requests as were ever allocated; a longer walk is a loop
        -- that does not end
        (LinkedChain.walk s.link s.next (s.link req)).map (s.respondUnlink t req rtype)
      | _ => none
    | .unlinked req rtype =>
      match event with
      | .send true => some (s.setPc t (.writing req rtype))
      | .send false => some (s.answer t req rtype false (.responded req))
      | _ => none
    | .writing req rtype =>
      match event with
      | .write taken => some (s.answer t req rtype taken (.responded req))
      | _ => none
    | .responded req =>
      match event with
      | .advance => some (s.nextFlush t req (s.link req))
      | _ => none
    | .flushing req freq =>
      match event with
      | .send true => some (s.setPc t (.flushWriting req freq))
      | .send false =>
        some (s.answer t freq MsgType.rflush.code false (.flushResponded req freq))
      | _ => none
    | .flushWriting req freq =>
      match event with
      | .write taken =>
        some (s.answer t freq MsgType.rflush.code taken (.flushResponded req freq))
      | _ => none
    | .flushResponded req freq =>
      match event with
      | .advance => some (s.releaseFlush t req freq)
      | _ => none
    | .released req freq =>
      match event with
      | .advance => some (s.nextFlush t req (s.link freq))
      | _ => none
    | .finishing req =>
      match event with
      | .advance => some (s.respondDone t req)
      | _ => none

end Npfs.Requests
