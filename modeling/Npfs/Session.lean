import Npfs.Cells
import Npfs.Handlers

/-!
# One request after another

The state of a connection whose requests are served one after another, and what each operation does
to it. The file server, its users and the memory allocator are the environment, which answers in any
way it likes.
-/

namespace Npfs

/-- What a callback does: it returns, sets the `aux` of the fid it works on, may take a reference to
that fid, and may call `np_werror`. -/
structure Outcome (Aux World α : Type) where
  reply : α
  aux : Option Aux
  takesRef : Bool
  /-- The last call of `np_werror`, if any. -/
  error : Option (Option Nperror)
  world : World

/-- The environment of a connection. -/
structure Env (Aux World : Type) where
  answer (callback : Callback) (fids : FidPtr → Option (Npfid Aux)) (world : World) :
    Outcome Aux World callback.Reply
  malloc (world : World) : Malloc × World
  flush (oldtag : UInt16) (world : World) : Bool × World
  /-- The callbacks of `np_fidpool_destroy`. -/
  reset (fids : FidPtr → Option (Npfid Aux)) (world : World) : World

/-- The answer of a file server that does nothing. -/
def Callback.silence : (callback : Callback) → callback.Reply
  | .clone .. | .checkauth .. => false
  | .authRead .. => (0, [])
  | .authWrite .. | .authClunk .. => (0 : Int)
  | .fiddestroy .. => ()
  | .walk .. | .startauth .. | .uname2user .. | .uid2user .. | .attach .. | .openFid ..
  | .create .. | .read .. | .write .. | .clunk .. | .remove .. | .stat .. | .wstat .. | .statfs ..
  | .lopen .. | .lcreate .. | .symlink .. | .mknod .. | .rename .. | .readlink .. | .getattr ..
  | .setattr .. | .xattrwalk .. | .xattrcreate .. | .xattrread .. | .xattrwrite .. | .readdir ..
  | .fsync .. | .flock .. | .getlock .. | .link .. | .mkdir .. | .renameat .. | .unlinkat .. => none

/-- The state of a connection and of the request that is served. -/
structure Session (Aux World : Type) where
  srv : Npsrv
  conn : Npconn
  fids : Cells (Npfid Aux)
  /-- The fid pool. -/
  pool : UInt32 → Option FidPtr
  /-- The references to users. -/
  users : UserPtr → Int
  /-- The error of the thread. -/
  error : Option Nperror
  /-- `req->fid`. -/
  reqFid : Option FidPtr
  world : World
  /-- Undefined behaviour has occurred. -/
  fault : Bool

variable {Aux World : Type}

/-- The fid that `np_fid_create` makes. -/
def Npfid.new (fid : UInt32) : Npfid Aux where
  fid := fid
  refcount := 0
  omode := Onotopen
  type := 0
  diroffset := 0
  user := none
  aux := none

/-- An `int` is added to `fid->refcount`. -/
def Npfid.addRef (n : Int) (f : Npfid Aux) : Npfid Aux := { f with refcount := f.refcount + n }

namespace Session

/-- Change the fid that a pointer points to. -/
def modify (s : Session Aux World) (fid : FidPtr) (change : Npfid Aux → Npfid Aux) :
    Session Aux World :=
  { s with fids := s.fids.modify fid change, fault := s.fault || (s.fids.get fid).isNone }

/-- Read from the fid that a pointer points to. -/
def load {β : Type} (s : Session Aux World) (fid : FidPtr) (field : Npfid Aux → β) (junk : β) :
    β × Session Aux World :=
  match s.fids.get fid with
  | some f => (field f, s)
  | none => (junk, { s with fault := true })

/-- What a callback leaves behind. -/
def afterCall {α : Type} (s : Session Aux World) (target : Option FidPtr)
    (outcome : Outcome Aux World α) : Session Aux World :=
  let s := { s with error := outcome.error.getD s.error, world := outcome.world }
  match target with
  | none => s
  | some fid =>
    s.modify fid fun f =>
      { f with aux := outcome.aux, refcount := f.refcount + if outcome.takesRef then 1 else 0 }

end Session

/-- Perform an operation. -/
def exec (env : Env Aux World) : (op : Op) → Session Aux World → op.Reply × Session Aux World
  | .fidFind fid, s => (s.pool fid, s)
  | .fidCreate fid, s =>
    match s.pool fid with
    | some f => (some f, s)
    | none =>
      (some s.fids.next,
        { s with
          fids := s.fids.push (.new fid)
          pool := Function.update s.pool fid (some s.fids.next) })
  | .fidIncref fid, s => ((), s.modify fid (.addRef 1))
  | .fidDecref fid, s =>
    ((s.load fid (·.refcount - 1) 1).1, s.modify fid (.addRef (-1)))
  | .fidUnlink fid, s =>
    match s.fids.get fid with
    | some f =>
      ((), if s.pool f.fid = some fid then
        { s with pool := Function.update s.pool f.fid none } else s)
    | none => ((), { s with fault := true })
  | .fidFree fid, s =>
    ((), { s with fids := s.fids.free fid, fault := s.fault || (s.fids.get fid).isNone })
  | .omode fid, s => s.load fid (·.omode) (0 : UInt16)
  | .type fid, s => s.load fid (·.type) (0 : UInt16)
  | .diroffset fid, s => s.load fid (·.diroffset) (0 : UInt32)
  | .user fid, s => s.load fid (·.user) none
  | .setOmode fid omode, s => ((), s.modify fid fun f => { f with omode })
  | .setType fid type, s => ((), s.modify fid fun f => { f with type })
  | .setDiroffset fid diroffset, s => ((), s.modify fid fun f => { f with diroffset })
  | .setUser fid user, s => ((), s.modify fid fun f => { f with user })
  | .userIncref none, s => ((), s)
  | .userIncref (some user), s =>
    ((), { s with users := Function.update s.users user (s.users user + 1) })
  | .userDecref user, s =>
    ((), { s with users := Function.update s.users user (s.users user - 1) })
  | .werror error, s => ((), { s with error })
  | .rerror, s => (s.error, s)
  | .reqFid, s => (s.reqFid, s)
  | .setReqFid fid, s => ((), { s with reqFid := fid })
  | .srv, s => (s.srv, s)
  | .conn, s => (s.conn, s)
  | .connReset _ dotu dotl, s =>
    ((), { s with
      conn := { s.conn with dotu, dotl }
      fids := s.fids.clear
      pool := fun _ => none
      world := env.reset s.fids.get s.world })
  | .flush oldtag, s =>
    ((env.flush oldtag s.world).1, { s with world := (env.flush oldtag s.world).2 })
  | .malloc, s => ((env.malloc s.world).1, { s with world := (env.malloc s.world).2 })
  | .call callback, s =>
    ((env.answer callback s.fids.get s.world).reply,
      s.afterCall callback.target (env.answer callback s.fids.get s.world))
  | .crash, s => ((), { s with fault := true })

/-- Serve a request to the end: `np_process_request`, and `np_respond` for its reply or, when the
file server answers later, for the reply that it then gives. -/
def serve (npErrnoToLinux : UInt32 → UInt32) (tc : Npfcall) (later : Option Npfcall) :
    Serve (Option Npfcall) := do
  let rc ← npProcessRequest npErrnoToLinux tc
  match rc.or later with
  | none => return none
  | some rc =>
    let reply ← npRespond tc rc
    return some reply

/-! ## The parts of a request -/

section Parts

open Serve

/-- The error of the thread replaces the reply of the handler. -/
def errorReply (npErrnoToLinux : UInt32 → UInt32) (rc : Option Npfcall) :
    Serve (Option Npfcall) := do
  let error ← npRerror
  match error with
  | none => return rc
  | some error =>
    let conn ← conn
    if conn.dotl then
      create (npCreateRlerror npErrnoToLinux error.ecode)
    else
      create (npCreateRerror error.ename error.ecode conn.dotu)

/-- A reply is sent. -/
def sendReply (tc : Npfcall) : Option Npfcall → Serve (Option Npfcall)
  | none => return none
  | some rc => do
    let reply ← npRespond tc rc
    return some reply

/-- The handler of a request, or the error when there is none. -/
def npHandle (tc : Npfcall) : Serve (Option Npfcall) :=
  match npHandler tc with
  | some f => f tc
  | none => fail (cstr "unsupported message") ENOSYS

theorem npProcessRequest_eq (npErrnoToLinux : UInt32 → UInt32) (tc : Npfcall) :
    npProcessRequest npErrnoToLinux tc = (do
      npWerrorNone
      let rc ← npHandle tc
      errorReply npErrnoToLinux rc) := by
  rw [npProcessRequest, npHandle]
  cases npHandler tc <;> rfl

theorem serve_eq (npErrnoToLinux : UInt32 → UInt32) (tc : Npfcall) (later : Option Npfcall) :
    serve npErrnoToLinux tc later = (do
      npWerrorNone
      let rc ← npHandle tc
      let rc ← errorReply npErrnoToLinux rc
      sendReply tc (rc.or later)) := by
  rw [serve, npProcessRequest_eq]
  simp only [bind_assoc]
  refine bind_congr fun _ => bind_congr fun _ => bind_congr fun rc => ?_
  cases rc.or later <;> rfl

end Parts

/-! ## A file server that does nothing -/

/-- The environment of a file server that does nothing. -/
def Env.silent : Env Unit Unit where
  answer callback _ _ := ⟨callback.silence, none, false, none, ()⟩
  malloc _ := (⟨default, fun _ => 0⟩, ())
  flush _ _ := (true, ())
  reset _ _ := ()

/-- A connection with one fid, which has the number 0. -/
def Session.single (msize : UInt32) (fid : Npfid Unit) : Session Unit Unit where
  srv := { msize, dotu := true, dotl := true, auth := none, fiddestroy := false }
  conn := { msize, dotu := true, dotl := true }
  fids := Cells.empty.push fid
  pool := fun n => if n = 0 then some 0 else none
  users := fun _ => 0
  error := none
  reqFid := none
  world := ()
  fault := false

/-- No operation changes the settings of the server, and only a reset those of the connection. -/
theorem exec_settings (env : Env Aux World) (op : Op) (s : Session Aux World) :
    (exec env op s).2.srv = s.srv ∧
      ((exec env op s).2.conn = s.conn ∨ ∃ msize dotu dotl, op = .connReset msize dotu dotl) := by
  have loaded {β : Type} (fid : FidPtr) (field : Npfid Aux → β) (junk : β) :
      (s.load fid field junk).2.srv = s.srv ∧ (s.load fid field junk).2.conn = s.conn := by
    unfold Session.load
    split <;> exact ⟨rfl, rfl⟩
  cases op with
  | fidCreate fid =>
      simp only [exec]
      split <;> exact ⟨rfl, .inl rfl⟩
  | fidUnlink fid =>
      simp only [exec]
      split
      · split <;> exact ⟨rfl, .inl rfl⟩
      · exact ⟨rfl, .inl rfl⟩
  | userIncref user => cases user <;> exact ⟨rfl, .inl rfl⟩
  | omode fid | type fid | diroffset fid | user fid =>
      exact ⟨(loaded _ _ _).1, .inl (loaded _ _ _).2⟩
  | call callback =>
      simp only [exec, Session.afterCall]
      split <;> exact ⟨rfl, .inl rfl⟩
  | connReset msize dotu dotl => exact ⟨rfl, .inr ⟨msize, dotu, dotl, rfl⟩⟩
  | _ => exact ⟨rfl, .inl rfl⟩

/-! ## Runs of single operations -/

section Runs

open Serve Program

variable {env : Env Aux World} {s : Session Aux World}

@[simp] theorem run_npFidFind (fid : UInt32) :
    (npFidFind fid).run (exec env) s = (s.pool fid, s) := rfl

theorem run_npFidCreate {fid : UInt32} (absent : s.pool fid = none) :
    (npFidCreate fid).run (exec env) s = (some s.fids.next,
      { s with
        fids := s.fids.push (.new fid)
        pool := Function.update s.pool fid (some s.fids.next) }) := by
  change exec env (.fidCreate fid) s = _
  simp only [exec, absent]

@[simp] theorem run_npFidIncref_none : (npFidIncref none).run (exec env) s = ((), s) := rfl

@[simp] theorem run_npFidIncref (fid : FidPtr) :
    (npFidIncref (some fid)).run (exec env) s = ((), s.modify fid (.addRef 1)) := rfl

@[simp] theorem run_npFidDecref_none : (npFidDecref none).run (exec env) s = ((), s) := rfl

@[simp] theorem run_omode (fid : FidPtr) :
    (omode fid).run (exec env) s = s.load fid (·.omode) 0 := rfl

@[simp] theorem run_type (fid : FidPtr) :
    (Serve.type fid).run (exec env) s = s.load fid (·.type) 0 := rfl

@[simp] theorem run_diroffset (fid : FidPtr) :
    (diroffset fid).run (exec env) s = s.load fid (·.diroffset) 0 := rfl

@[simp] theorem run_user (fid : FidPtr) :
    (user fid).run (exec env) s = s.load fid (·.user) none := rfl

@[simp] theorem run_setOmode (fid : FidPtr) (omode : UInt16) :
    (setOmode fid omode).run (exec env) s = ((), s.modify fid fun f => { f with omode }) := rfl

@[simp] theorem run_setType (fid : FidPtr) (type : UInt16) :
    (setType fid type).run (exec env) s = ((), s.modify fid fun f => { f with type }) := rfl

@[simp] theorem run_setDiroffset (fid : FidPtr) (diroffset : UInt32) :
    (setDiroffset fid diroffset).run (exec env) s =
      ((), s.modify fid fun f => { f with diroffset }) := rfl

@[simp] theorem run_setUser (fid : FidPtr) (user : Option UserPtr) :
    (setUser fid user).run (exec env) s = ((), s.modify fid fun f => { f with user }) := rfl

@[simp] theorem run_npUserIncref (user : Option UserPtr) :
    (npUserIncref user).run (exec env) s = exec env (.userIncref user) s := rfl

@[simp] theorem run_npUserDecref (user : UserPtr) :
    (npUserDecref user).run (exec env) s = exec env (.userDecref user) s := rfl

@[simp] theorem run_npWerror (ename : CStr) (ecode : UInt32) :
    (npWerror ename ecode).run (exec env) s =
      ((), { s with error := some (.of ename ecode) }) := rfl

@[simp] theorem run_npWerrorNone :
    npWerrorNone.run (exec env) s = ((), { s with error := none }) := rfl

@[simp] theorem run_fail {α : Type} (ename : CStr) (ecode : UInt32) :
    (fail ename ecode : Serve (Option α)).run (exec env) s =
      (none, { s with error := some (.of ename ecode) }) := rfl

@[simp] theorem run_npRerror : npRerror.run (exec env) s = (s.error, s) := rfl

@[simp] theorem run_reqFid : reqFid.run (exec env) s = (s.reqFid, s) := rfl

@[simp] theorem run_setReqFid (fid : Option FidPtr) :
    (setReqFid fid).run (exec env) s = ((), { s with reqFid := fid }) := rfl

@[simp] theorem run_srv : srv.run (exec env) s = (s.srv, s) := rfl

@[simp] theorem run_conn : conn.run (exec env) s = (s.conn, s) := rfl

@[simp] theorem run_call (callback : Callback) :
    (call callback).run (exec env) s = ((env.answer callback s.fids.get s.world).reply,
      s.afterCall callback.target (env.answer callback s.fids.get s.world)) := rfl

@[simp] theorem run_crash : crash.run (exec env) s = ((), { s with fault := true }) := rfl

@[simp] theorem run_create (constructor : Malloc → Option Npfcall) :
    (create constructor).run (exec env) s = (constructor (env.malloc s.world).1,
      { s with world := (env.malloc s.world).2 }) := rfl

/-! ## Events of single operations -/

@[simp] theorem events_npFidFind (fid : UInt32) :
    (npFidFind fid).events (exec env) s = [(.fidFind fid, s)] := rfl

@[simp] theorem events_npFidIncref (fid : FidPtr) :
    (npFidIncref (some fid)).events (exec env) s = [(.fidIncref fid, s)] := rfl

@[simp] theorem events_omode (fid : FidPtr) :
    (omode fid).events (exec env) s = [(.omode fid, s)] := rfl

@[simp] theorem events_type (fid : FidPtr) :
    (Serve.type fid).events (exec env) s = [(.type fid, s)] := rfl

@[simp] theorem events_diroffset (fid : FidPtr) :
    (diroffset fid).events (exec env) s = [(.diroffset fid, s)] := rfl

@[simp] theorem events_fail {α : Type} (ename : CStr) (ecode : UInt32) :
    (fail ename ecode : Serve (Option α)).events (exec env) s =
      [(.werror (some (.of ename ecode)), s)] := rfl

@[simp] theorem events_setReqFid (fid : Option FidPtr) :
    (setReqFid fid).events (exec env) s = [(.setReqFid fid, s)] := rfl

@[simp] theorem events_conn : conn.events (exec env) s = [(.conn, s)] := rfl

@[simp] theorem events_call (callback : Callback) :
    (call callback).events (exec env) s = [(.call callback, s)] := rfl

end Runs

end Npfs
