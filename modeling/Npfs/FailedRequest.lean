import Npfs.Marks
import Npfs.PacketSize

/-!
# Failed requests

A request that is answered with an `Rerror` or an `Rlerror` should leave the fids as they were. The
handlers that store in a fid do so at different points: `np_open` and `np_lopen` store the mode
without looking at what the file server answered, and the others when it answered with the
R-message, which `np_process_request` may still turn into an error.
-/

namespace Npfs

open Serve Program

variable {Aux World : Type}

/-- An `Rerror` or an `Rlerror`. -/
def Npfcall.Failed (rc : Npfcall) : Prop :=
  rc.type = MsgType.rerror.code ∨ rc.type = MsgType.rlerror.code

/-- `np_open`, `np_create`, `np_lopen`, `np_lcreate` and `np_xattrcreate`. -/
inductive Storing where
  | openFid | create | lopen | lcreate | xattrcreate

namespace Storing

/-- The T-message. -/
def type : Storing → MsgType
  | .openFid => .topen
  | .create => .tcreate
  | .lopen => .tlopen
  | .lcreate => .tlcreate
  | .xattrcreate => .txattrcreate

def handler : Storing → Npfcall → Serve (Option Npfcall)
  | .openFid => npOpen
  | .create => npCreateFile
  | .lopen => npLopen
  | .lcreate => npLcreate
  | .xattrcreate => npXattrcreate

/-- The tests of the handler. -/
def Passes (tc : Npfcall) (conn : Npconn) (f : Npfid Aux) : Storing → Prop
  | .openFid => f.omode = Onotopen ∧ ¬ (f.type &&& Qtdir ≠ 0 ∧ tc.mode ≠ Oread)
  | .create =>
    f.omode = Onotopen ∧ f.type &&& Qtdir ≠ 0 ∧ ¬ (tc.perm &&& Dmdir ≠ 0 ∧ tc.mode ≠ Oread) ∧
      ¬ (tc.perm &&& Dmspecial ≠ 0 ∧ ¬ conn.dotu)
  | .lopen => True
  | .lcreate =>
    f.omode = Onotopen ∧ f.type &&& Qtdir ≠ 0 ∧ ¬ (tc.perm &&& Dmdir ≠ 0 ∧ tc.mode ≠ Oread)
  | .xattrcreate => f.type &&& Ftxattr = 0

/-- What the file server does for the handler. -/
def outcome (tc : Npfcall) (env : Env Aux World) (fid : FidPtr)
    (fids : FidPtr → Option (Npfid Aux)) (world : World) :
    Storing → Outcome Aux World (Option Npfcall)
  | .openFid => env.answer (.openFid fid tc.mode) fids world
  | .create =>
    env.answer (.create fid (tc.text tc.name) tc.perm tc.mode (tc.text tc.extension)) fids world
  | .lopen => env.answer (.lopen fid tc.flags) fids world
  | .lcreate => env.answer (.lcreate fid (tc.text tc.name) tc.flags tc.perm tc.gid) fids world
  | .xattrcreate => env.answer (.xattrcreate fid (tc.text tc.name) tc.asize tc.flags) fids world

/-- Behind this answer the handler stores something else than the fid holds. -/
def Stores (tc : Npfcall) (f : Npfid Aux) (reply : Option Npfcall) : Storing → Prop
  | .openFid => True
  | .create => ∃ rc, reply = some rc ∧ rc.type = MsgType.rcreate.code
  | .lopen => (uflags2omode tc.flags).toUInt16 ≠ f.omode
  | .lcreate => ∃ rc, reply = some rc ∧ rc.type = MsgType.rlcreate.code
  | .xattrcreate => ∃ rc, reply = some rc ∧ rc.type = MsgType.rxattrcreate.code

end Storing

/-- The file server refuses: it sets an error, or the reply that it gives, now or later, is one. -/
def Outcome.Refuses (outcome : Outcome Aux World (Option Npfcall)) (later : Option Npfcall) :
    Prop :=
  (∃ error, outcome.error = some (some error)) ∨
    ∃ rc, outcome.reply.or later = some rc ∧ rc.Failed

theorem created_type {type : MsgType} {size : UInt32} {fields : List PutOp}
    (fits : ∀ op ∈ fields, op.Fits) (keeps : ∀ op ∈ fields, op.Keeps Npfcall.type)
    (room : (packed fields []).length ≤ size.toNat) (small : size.toNat + 7 < 2 ^ 31)
    (heap : Malloc) : ∃ fc, npCreate type size fields heap = some fc ∧ fc.type = type.code := by
  obtain ⟨fc, tail, created, -, -⟩ := created_packet heap type fits room small
  refine ⟨fc, created, ?_⟩
  rw [npCreate_keeps keeps (fun _ _ => rfl) created, npCreateCommon_type heap type small]

theorem rerror_type (error : Nperror) (dotu : Bool) (heap : Malloc) :
    ∃ fc, npCreateRerror error.ename error.ecode dotu heap = some fc ∧
      fc.type = MsgType.rerror.code := by
  have short := error.short
  have text : (CStr.bytes? (some error.ename)).length = error.ename.strlen := rfl
  have size : (UInt32.ofNat (2 + error.ename.strlen + if dotu then 4 else 0)).toNat =
      2 + error.ename.strlen + if dotu then 4 else 0 := by
    apply toNat_ofNat32
    split <;> omega
  apply created_type
  · cases dotu <;> simp <;> omega
  · cases dotu <;> simp
  · rw [size]
    cases dotu <;> simp +arith [packed, PutOp.bytes, text]
  · rw [size]
    split <;> omega

theorem rlerror_type (npErrnoToLinux : UInt32 → UInt32) (ecode : UInt32) (heap : Malloc) :
    ∃ fc, npCreateRlerror npErrnoToLinux ecode heap = some fc ∧
      fc.type = MsgType.rlerror.code := by
  apply created_type <;> simp [packed, PutOp.bytes]

section Finish

variable {npErrnoToLinux : UInt32 → UInt32} {env : Env Aux World} {s s' : Session Aux World}
  {tc : Npfcall} {later rc : Option Npfcall} {reply : Npfcall}

theorem run_errorReply_none (clear : s.error = none) :
    (errorReply npErrnoToLinux rc).run (exec env) s = (rc, s) := by
  simp [errorReply, run_bind, clear]

theorem run_errorReply {error : Nperror} (failed : s.error = some error) :
    ∃ fc world, fc.Failed ∧
      (errorReply npErrnoToLinux rc).run (exec env) s = (some fc, { s with world }) := by
  obtain ⟨rerror, created, type⟩ := rerror_type error s.conn.dotu (env.malloc s.world).1
  obtain ⟨rlerror, created', type'⟩ :=
    rlerror_type npErrnoToLinux error.ecode (env.malloc s.world).1
  by_cases dotl : s.conn.dotl
  · exact ⟨rlerror, _, .inr type', by simp [errorReply, run_bind, failed, dotl, created']; rfl⟩
  · exact ⟨rerror, _, .inl type, by simp [errorReply, run_bind, failed, dotl, created]; rfl⟩

theorem run_npRespond (other : reply.type ≠ MsgType.rread.code) :
    (npRespond tc reply).run (exec env) s = (npSetTag reply tc.tag,
      { ((npFidDecref s.reqFid).run (exec env) s).2 with reqFid := none }) := by
  simp [npRespond, run_bind, other]

theorem Npfcall.Failed.ne_rread (failed : reply.Failed) : reply.type ≠ MsgType.rread.code := by
  rcases failed with type | type <;> rw [type] <;> decide

/-- What follows on the handler. -/
def finish (npErrnoToLinux : UInt32 → UInt32) (tc : Npfcall) (later rc : Option Npfcall) :
    Serve (Option Npfcall) := do
  let rc ← errorReply npErrnoToLinux rc
  sendReply tc (rc.or later)

/-- The request fails when the thread has an error, or when the reply is one. -/
def Fails (error : Option Nperror) (rc later : Option Npfcall) : Prop :=
  (∃ e, error = some e) ∨ ∃ fc, rc.or later = some fc ∧ fc.Failed

theorem always_npRespond : (npRespond tc reply).Always (fun _ _ => True) (Op.Spares fun _ => True)
    (· = npSetTag reply tc.tag) := by
  simp [npRespond, Option.forall, Op.Spares]

theorem npRespond_fst : ((npRespond tc reply).run (exec env) s).1 = npSetTag reply tc.tag :=
  (always_npRespond.run (fun _ (_ : Session Aux World) (_ : True) _ => trivial)
    (fun _ _ _ _ => trivial) trivial).1

theorem run_sendReply (failed : reply.Failed) :
    (sendReply tc (some reply)).run (exec env) s = (some (npSetTag reply tc.tag),
      { ((npFidDecref s.reqFid).run (exec env) s).2 with reqFid := none }) := by
  simp only [sendReply, run_bind, run_npRespond failed.ne_rread]
  rfl

theorem finish_of_fails (fails : Fails s.error rc later) :
    ∃ reply world, reply.Failed ∧ (finish npErrnoToLinux tc later rc).run (exec env) s =
      (some reply,
        { ((npFidDecref s.reqFid).run (exec env) { s with world }).2 with reqFid := none }) := by
  by_cases clear : s.error = none
  · obtain ⟨fc, given, failed⟩ := fails.resolve_left fun ⟨_, error⟩ => by simp [clear] at error
    refine ⟨npSetTag fc tc.tag, s.world, failed, ?_⟩
    rw [finish, run_bind, run_errorReply_none clear, given, run_sendReply failed]
  · obtain ⟨e, error⟩ := Option.ne_none_iff_exists'.mp clear
    obtain ⟨fc, world, failed, replied⟩ :=
      @run_errorReply _ _ npErrnoToLinux env s rc e error
    refine ⟨npSetTag fc tc.tag, world, failed, ?_⟩
    rw [finish, run_bind, replied, Option.some_or, run_sendReply failed]

end Finish

theorem rwalk_type {wqids : List Npqid} (few : wqids.length ≤ MAXWELEM) (heap : Malloc) :
    ∃ fc, npCreateRwalk wqids heap = some fc ∧ fc.type = MsgType.rwalk.code := by
  have qids := packed_putWqids_length wqids 0
  simp only [MAXWELEM] at few
  have size : (UInt32.ofNat (2 + wqids.length * 13)).toNat = 2 + wqids.length * 13 :=
    toNat_ofNat32 (by omega)
  simp only [npCreateRwalk, MAXWELEM, if_neg (Nat.not_lt.mpr few)]
  apply created_type
  · simpa using fits_putWqids wqids 0
  · simpa using @keeps_putWqids _ Npfcall.type (fun _ _ => rfl) wqids 0
  · simp only [packed, PutOp.bytes, List.length_append, LittleEndian.bytes16_length, qids, size]
    omega
  · omega

/-! ## The last reference -/

section Decref

variable {env : Env Aux World} {s : Session Aux World} {fid : FidPtr} {f : Npfid Aux}

theorem get_npFidDestroy (env : Env Aux World) (s : Session Aux World) (fid : FidPtr) :
    ((npFidDestroy fid).run (exec env) s).2.fids.get fid = none := by
  have freed (s : Session Aux World) : ((fidFree fid).run (exec env) s).2.fids.get fid = none :=
    Cells.get_free_self
  simp only [npFidDestroy, run_bind]
  split_ifs <;> simp only [run_bind] <;> split <;> exact freed _

theorem run_npFidDecref_more (live : s.fids.get fid = some f) (more : f.refcount ≠ 1) :
    (npFidDecref (some fid)).run (exec env) s = ((), s.modify fid (.addRef (-1))) := by
  have left : ¬ f.refcount - 1 = 0 := by omega
  have decreased : (fidDecref fid).run (exec env) s =
      ((s.load fid (·.refcount - 1) 1).1, s.modify fid (.addRef (-1))) := rfl
  simp [npFidDecref, run_bind, decreased, Session.load, live, left]

theorem get_npFidDecref_more (live : s.fids.get fid = some f) (more : f.refcount ≠ 1) :
    ((npFidDecref (some fid)).run (exec env) s).2.fids.get fid = some (f.addRef (-1)) := by
  rw [run_npFidDecref_more live more]
  simp [Session.modify, live]

theorem get_npFidDecref_last (live : s.fids.get fid = some f) (last : f.refcount = 1) :
    ((npFidDecref (some fid)).run (exec env) s).2.fids.get fid = none := by
  have decreased : (fidDecref fid).run (exec env) s =
      ((s.load fid (·.refcount - 1) 1).1, s.modify fid (.addRef (-1))) := rfl
  simp [npFidDecref, run_bind, decreased, Session.load, live, last, get_npFidDestroy]

end Decref

/-! ## Runs of the handlers that store -/

namespace Storing

variable {env : Env Aux World} {s : Session Aux World} {tc : Npfcall} {fid : FidPtr}
  {f : Npfid Aux} {storing : Storing}

/-- What a handler whose tests pass does to the fid. -/
@[mk_iff]
structure Stored (env : Env Aux World) (s : Session Aux World) (tc : Npfcall) (fid : FidPtr)
    (f : Npfid Aux) (storing : Storing)
    (outcome : Outcome Aux World (Option Npfcall)) : Prop where
  reply : ((storing.handler tc).run (exec env) s).1 = outcome.reply
  reqFid : ((storing.handler tc).run (exec env) s).2.reqFid = some fid
  error : ((storing.handler tc).run (exec env) s).2.error = outcome.error.getD s.error
  cell : ∃ f', ((storing.handler tc).run (exec env) s).2.fids.get fid = some f' ∧
    f'.refcount = f.refcount + 1 + (if outcome.takesRef then 1 else 0) ∧
      (f'.mark ≠ f.mark ↔ storing.Stores tc f outcome.reply)

theorem toUInt16_ne_Onotopen (mode : UInt8) : mode.toUInt16 ≠ Onotopen := by
  intro same
  have bound := mode.toNat_lt
  have value : mode.toNat = 65535 := by simpa [Onotopen] using congrArg UInt16.toNat same
  omega

theorem or_ne_self {type flag : UInt16} (unset : type &&& flag = 0) (flagged : flag ≠ 0) :
    type ||| flag ≠ type := by
  intro same
  apply flagged
  apply UInt16.toNat_inj.mp
  refine Nat.eq_of_testBit_eq fun i => ?_
  have common := congrArg (·.toNat.testBit i) unset
  have joined := congrArg (·.toNat.testBit i) same
  simp only [UInt16.toNat_and, UInt16.toNat_or, Nat.testBit_and, Nat.testBit_or] at common joined
  cases set : flag.toNat.testBit i with
  | false => simp
  | true => simp_all

theorem stored (found : s.pool tc.fid = some fid) (live : s.fids.get fid = some f)
    (passes : storing.Passes tc s.conn f) :
    Stored env s tc fid f storing
      (storing.outcome tc env fid (s.modify fid (.addRef 1)).fids.get s.world) := by
  cases storing with
  | openFid =>
    obtain ⟨closed, plain⟩ := passes
    simp [stored_iff, handler, npOpen, withFid, call, exec, run_bind, found, live, Session.modify,
        Session.load, Npfid.addRef, closed, plain, Session.afterCall, Callback.target, outcome,
        Stores, Npfid.mark, toUInt16_ne_Onotopen]
  | create =>
    obtain ⟨closed, directory, plain, special⟩ := passes
    have ordinary : ¬ (¬ tc.perm &&& Dmspecial = 0 ∧ s.conn.dotu = false) :=
      fun both => special ⟨both.1, by simp [both.2]⟩
    cases reply : (env.answer (.create fid (tc.text tc.name) tc.perm tc.mode (tc.text tc.extension))
      (s.fids.modify fid (.addRef 1)).get s.world).reply with
    | none =>
      simp [stored_iff, handler, npCreateFile, inDirectory, withFid, call, exec, run_bind, found, live,
          Session.modify, Session.load, Npfid.addRef, closed, directory, plain, ordinary, reply,
          Session.afterCall, Callback.target, outcome, Stores, Npfid.mark]
    | some rc =>
      by_cases created : rc.type = MsgType.rcreate.code <;>
        simp [stored_iff, handler, npCreateFile, inDirectory, withFid, call, exec, run_bind, found, live,
          Session.modify, Session.load, Npfid.addRef, closed, directory, plain, ordinary, reply,
          Session.afterCall, Callback.target, outcome, Stores, Npfid.mark, created,
          toUInt16_ne_Onotopen]
  | lopen =>
    simp [stored_iff, handler, npLopen, withFid, call, exec, run_bind, found, live, Session.modify,
        Npfid.addRef, Session.afterCall, Callback.target, outcome, Stores, Npfid.mark]
  | lcreate =>
    obtain ⟨closed, directory, plain⟩ := passes
    cases reply : (env.answer (.lcreate fid (tc.text tc.name) tc.flags tc.perm tc.gid)
      (s.fids.modify fid (.addRef 1)).get s.world).reply with
    | none =>
      simp [stored_iff, handler, npLcreate, inDirectory, withFid, call, exec, run_bind, found, live,
          Session.modify, Session.load, Npfid.addRef, closed, directory, plain, reply,
          Session.afterCall, Callback.target, outcome, Stores, Npfid.mark]
    | some rc =>
      by_cases created : rc.type = MsgType.rlcreate.code <;>
        simp [stored_iff, handler, npLcreate, inDirectory, withFid, call, exec, run_bind, found, live,
          Session.modify, Session.load, Npfid.addRef, closed, directory, plain, reply,
          Session.afterCall, Callback.target, outcome, Stores, Npfid.mark, created,
          toUInt16_ne_Onotopen]
  | xattrcreate =>
    have unset : f.type &&& Ftxattr = 0 := passes
    cases reply : (env.answer (.xattrcreate fid (tc.text tc.name) tc.asize tc.flags)
      (s.fids.modify fid (.addRef 1)).get s.world).reply with
    | none =>
      simp [stored_iff, handler, npXattrcreate, withFid, call, exec, run_bind, found, live,
          Session.modify, Session.load, Npfid.addRef, unset, reply,
          Session.afterCall, Callback.target, outcome, Stores, Npfid.mark]
    | some rc =>
      by_cases created : rc.type = MsgType.rxattrcreate.code <;>
        simp [stored_iff, handler, npXattrcreate, withFid, call, exec, run_bind, found, live,
          Session.modify, Session.load, Npfid.addRef, unset, reply,
          Session.afterCall, Callback.target, outcome, Stores, Npfid.mark, created,
          or_ne_self unset (by decide : Ftxattr ≠ 0)]

/-- A handler stores in no other fid than that of the request. -/
theorem spared (env : Env Aux World) (s : Session Aux World) (tc : Npfcall) (storing : Storing) :
    s.Spared (fun fid => s.pool tc.fid = some fid) ((storing.handler tc).run (exec env) s).2 := by
  cases storing <;> refine spared_withFid (fun fid => ?_) env s <;>
    simp [Spares, inDirectory, call, Option.forall, Op.Spares, Op.assigned]

end Storing

/-! ## Handlers that store in new fids -/

section New

variable {env : Env Aux World} {s : Session Aux World} {exempt : FidPtr → Prop}

end New

/-! ## Walking -/

section Walk

variable {env : Env Aux World} {s : Session Aux World} {tc : Npfcall} {fid newfid : FidPtr}

theorem npWalkNames_length (env : Env Aux World) (s : Session Aux World) (newfid : FidPtr)
    (wnames : List (List UInt8)) :
    ((npWalkNames newfid wnames).run (exec env) s).1.length ≤ wnames.length := by
  induction wnames generalizing s with
  | nil => simp [npWalkNames]
  | cons wname wnames ih =>
      simp only [npWalkNames, run_bind]
      split
      · simp
      · simp only [run_bind]
        split_ifs
        · simp
        · simpa [run_bind] using ih _

end Walk

/-! ## Whole requests -/

section Whole

variable {npErrnoToLinux : UInt32 → UInt32} {env : Env Aux World} {s s' : Session Aux World}
  {tc : Npfcall} {later : Option Npfcall} {reply : Npfcall}

theorem run_serve : (serve npErrnoToLinux tc later).run (exec env) s =
    (finish npErrnoToLinux tc later
      ((npHandle tc).run (exec env) { s with error := none }).1).run (exec env)
        ((npHandle tc).run (exec env) { s with error := none }).2 := by
  rw [serve_eq, run_bind, run_bind]
  rfl

end Whole

end Npfs
