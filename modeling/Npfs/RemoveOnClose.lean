import Npfs.Confined
import Npfs.DirOffset

/-!
# Remove on close

A Tclunk of a fid that was opened or created with `Orclose`.  `np_clunk` asks the file server to
remove the file, and gives up the reference of the client for an `Rclunk` of its own.
-/

namespace Npfs

open Serve Program

variable {Aux World : Type}

/-- What an operation does to the number of references to a fid. -/
def Op.refs (p : FidPtr) : Op → Int
  | .fidIncref fid => if fid = p then 1 else 0
  | .fidDecref fid => if fid = p then -1 else 0
  | _ => 0

/-- The operation asks the file server to remove the file of a fid. -/
def Op.removes (p : FidPtr) : Op → Bool
  | .call (.remove fid) => fid = p
  | _ => false

/-- The fid that `p` points to has the number of the Tclunk, was opened or created with this mode,
and is referenced. -/
structure Session.OpenedWith (s : Session Aux World) (tc : Npfcall) (p : FidPtr) (g : Npfid Aux)
    (mode : UInt8) : Prop where
  found : s.pool tc.fid = some p
  live : s.fids.get p = some g
  number : g.fid = tc.fid
  omode : g.omode = mode.toUInt16
  referenced : 1 ≤ g.refcount
  sound : s.fault = false

/-- What the file server does when it is asked to remove the file. -/
def Session.removal (env : Env Aux World) (s : Session Aux World) (p : FidPtr) :
    Outcome Aux World (Option Npfcall) :=
  env.answer (.remove p) (s.fids.modify p (.addRef 1)).get s.world

/-- The removal is attempted, the Tclunk is answered without undefined behaviour, and the reference
of the client is given up once, so that the number is free if there was no other one. -/
structure RemovesOnClose (npErrnoToLinux : UInt32 → UInt32) (env : Env Aux World)
    (s : Session Aux World) (tc : Npfcall) (p : FidPtr) (g : Npfid Aux) : Prop where
  removes : ((serve npErrnoToLinux tc none).events (exec env) s).any (·.1.removes p)
  sound : ((serve npErrnoToLinux tc none).run (exec env) s).2.fault = false
  answered : ((serve npErrnoToLinux tc none).run (exec env) s).1.isSome
  released : (((serve npErrnoToLinux tc none).events (exec env) s).map (·.1.refs p)).sum = -1
  free : g.refcount = 1 → (s.removal env p).takesRef = false →
    ((serve npErrnoToLinux tc none).run (exec env) s).2.pool tc.fid = none

/-! ## Counting references -/

section Count

variable {env : Env Aux World} {s : Session Aux World} {p : FidPtr} {α β : Type}

/-- The references to a fid that a program takes, less those that it gives up. -/
def refs (env : Env Aux World) (p : FidPtr) (program : Serve α) (s : Session Aux World) : Int :=
  ((program.events (exec env) s).map (·.1.refs p)).sum

theorem refs_done {result : α} : refs env p (.done result) s = 0 := rfl

theorem refs_step {op : Op} {next : op.Reply → Serve α} : refs env p (.step op next) s =
    op.refs p + refs env p (next (exec env op s).1) (exec env op s).2 := by
  simp [refs]

theorem refs_bind {program : Serve α} {rest : α → Serve β} :
    refs env p (program >>= rest) s = refs env p program s +
      refs env p (rest (program.run (exec env) s).1) (program.run (exec env) s).2 := by
  simp [refs, events_bind]

/-- A program without such operations. -/
theorem refs_eq_zero {program : Serve α}
    (always : program.Always (fun _ _ => True) (fun op => op.refs p = 0) fun _ => True) :
    refs env p program s = 0 := by
  have none' : ∀ event ∈ program.events (exec env) s, event.1.refs p = 0 :=
    (always.run (fun _ (_ : Session Aux World) (_ : True) _ => trivial)
      (fun _ _ _ _ => trivial) trivial).2.2
  refine List.sum_eq_zero fun n member => ?_
  obtain ⟨event, among, rfl⟩ := List.mem_map.mp member
  exact none' event among

theorem refs_errorReply {npErrnoToLinux : UInt32 → UInt32} {rc : Option Npfcall} :
    refs env p (errorReply npErrnoToLinux rc) s = 0 := by
  apply refs_eq_zero
  simp [errorReply, Option.forall, Op.refs]

theorem refs_npFidDestroy : refs env p (npFidDestroy p) s = 0 := by
  apply refs_eq_zero
  rw [npFidDestroy, always_bind]
  refine ⟨rfl, fun _ _ => ?_⟩
  simp only [always_bind, always_srv, always_type, always_done, Op.refs]
  refine ⟨trivial, fun srv _ => ⟨trivial, fun type _ => ?_⟩⟩
  have rest : (fidFree p).Always (fun _ _ => True) (fun op => op.refs p = 0) fun _ => True :=
    ⟨rfl, fun _ _ => trivial⟩
  split_ifs <;> simp only [always_bind, always_user]
  · refine ⟨rfl, fun _ _ => ⟨trivial, fun user _ => ?_⟩⟩
    cases user with
    | none => exact rest
    | some user => exact ⟨rfl, fun _ _ => rest⟩
  · refine ⟨rfl, fun _ _ => ⟨trivial, fun user _ => ?_⟩⟩
    cases user with
    | none => exact rest
    | some user => exact ⟨rfl, fun _ _ => rest⟩
  · refine ⟨trivial, fun user _ => ?_⟩
    cases user with
    | none => exact rest
    | some user => exact ⟨rfl, fun _ _ => rest⟩

theorem refs_npFidDecref : refs env p (npFidDecref (some p)) s = -1 := by
  rw [npFidDecref, refs_bind, fidDecref, refs_step, refs_done, Op.refs, if_pos rfl]
  split_ifs
  · rw [refs_npFidDestroy]
    rfl
  · rfl

end Count

/-! ## Without a removal -/

section Keep

variable {npErrnoToLinux : UInt32 → UInt32} {env : Env Aux World} {s : Session Aux World}
  {tc : Npfcall} {p : FidPtr} {g : Npfid Aux} {mode : UInt8} {α : Type}

/-- A program that does not ask for the removal. -/
def Unremoving (p : FidPtr) (program : Serve α) : Prop :=
  program.Always (fun _ _ => True) (fun op => op.removes p = false) fun _ => True

theorem Unremoving.events {program : Serve α} (unremoving : Unremoving p program) :
    (program.events (exec env) s).any (·.1.removes p) = false := by
  have none' : ∀ event ∈ program.events (exec env) s, event.1.removes p = false :=
    (Always.run unremoving (fun _ (_ : Session Aux World) (_ : True) _ => trivial)
      (fun _ _ _ _ => trivial) trivial).2.2
  exact List.any_eq_false.mpr fun event member => by simp [none' event member]

theorem unremoving_npFidDecref (fid : Option FidPtr) : Unremoving p (npFidDecref fid) := by
  refine always_npFidDecref (fun q _ op allowed => ?_) trivial
  cases op with
  | call callback => rcases allowed with rfl | rfl <;> rfl
  | _ => rfl

theorem unremoving_errorReply (rc : Option Npfcall) : Unremoving p (errorReply npErrnoToLinux rc) := by
  simp [Unremoving, errorReply, Option.forall, Op.removes]

theorem unremoving_npRespond (rc : Npfcall) : Unremoving p (npRespond tc rc) := by
  simp [Unremoving, npRespond, Option.forall, Op.removes]
  exact ⟨unremoving_npFidDecref none, fun fid => unremoving_npFidDecref (some fid)⟩

theorem unremoving_sendReply (rc : Option Npfcall) : Unremoving p (sendReply tc rc) := by
  cases rc with
  | none => exact trivial
  | some rc => exact (always_bind _ _).mpr ((unremoving_npRespond rc).mono fun _ _ => trivial)

/-- The operations of a Tclunk. -/
theorem events_tclunk (type : tc.type = MsgType.tclunk.code) :
    ((serve npErrnoToLinux tc none).events (exec env) s).any (·.1.removes p) =
      ((npClunk tc).events (exec env) { s with error := none }).any (·.1.removes p) := by
  have handler : npHandle tc = npClunk tc := by
    rw [npHandle, npHandler, type]
    rfl
  rw [serve_eq, handler, events_bind, events_bind, events_bind]
  simp only [List.any_append, (unremoving_errorReply _).events, (unremoving_sendReply _).events,
    Bool.or_false]
  rfl

theorem live_referenced (live : s.fids.get p = some g) :
    (s.referenced p).fids.get p = some (g.addRef 1) := by
  simp [Session.referenced, Session.modify, live]

theorem events_withFid (found : s.pool tc.fid = some p) (rest : FidPtr → Serve (Option Npfcall)) :
    ((withFid tc.fid rest).events (exec env) s).any (·.1.removes p) =
      ((rest p).events (exec env) (s.referenced p)).any (·.1.removes p) := by
  simp only [withFid, npFidFind, npFidIncref, setReqFid, step_bind, done_bind, events_step,
    List.any_cons, Op.removes, Bool.false_or, exec, found]
  rfl

/-- The file server is asked to remove the file only for `Orclose` alone, and for no fid of an
authentication. -/
theorem events_npClunk_other (opened : s.OpenedWith tc p g mode)
    (other : ¬ (g.type &&& Qtauth = 0 ∧ mode = Orclose)) :
    ((npClunk tc).events (exec env) s).any (·.1.removes p) = false := by
  obtain ⟨found, live, -, omode, -, -⟩ := opened
  have live' := live_referenced live
  rw [npClunk, events_withFid found]
  simp only [Serve.type, step_bind, done_bind, events_step, List.any_cons, Op.removes,
    Bool.false_or, exec, Session.load, live']
  by_cases auth : g.type &&& Qtauth = 0
  · have unlike : ¬ (g.omode ≠ Onotopen ∧ g.omode = Orclose.toUInt16) := by
      rintro ⟨-, same⟩
      refine other ⟨auth, ?_⟩
      rw [omode] at same
      simpa using congrArg UInt16.toUInt8 same
    have clunked (rc : Option Npfcall) : Unremoving p (npClunked p rc) := by
      unfold Unremoving npClunked
      split_ifs
      · exact (always_bind _ _).mpr ((unremoving_npFidDecref _).mono fun _ _ => trivial)
      · trivial
    rw [if_neg (show ¬ (g.addRef 1).type &&& Qtauth ≠ 0 from not_not.mpr auth)]
    simp only [Serve.omode, step_bind, done_bind, events_step, List.any_cons, Bool.false_or, exec,
      Session.load, live']
    rw [if_neg (show ¬ ((g.addRef 1).omode ≠ Onotopen ∧ (g.addRef 1).omode = Orclose.toUInt16) from
      unlike)]
    exact (clunked _).events
  · rw [if_pos (show (g.addRef 1).type &&& Qtauth ≠ 0 from auth)]
    have authClunked : Unremoving p (do
        let srv ← srv
        if srv.auth.isNone then
          fail Ebadusefid EIO
        else
          let n : Int ← call (.authClunk p)
          if n = 0 then return none else create npCreateRclunk) := by
      refine ⟨rfl, fun srv _ => ?_⟩
      change Program.Always _ _ _ (if srv.auth.isNone = true then _ else _)
      split_ifs
      · exact ⟨rfl, fun _ _ => trivial⟩
      · refine ⟨rfl, fun n _ => ?_⟩
        change Program.Always _ _ _ (if _ = (0 : Int) then _ else _)
        split_ifs
        · trivial
        · exact ⟨rfl, fun _ _ => trivial⟩
    exact authClunked.events

end Keep

/-! ## The removal -/

section Removal

variable {npErrnoToLinux : UInt32 → UInt32} {env : Env Aux World} {s : Session Aux World}
  {tc : Npfcall} {p : FidPtr} {g : Npfid Aux} {removed : Option Npfcall}

/-- The file server has answered. -/
def Session.asked (env : Env Aux World) (s : Session Aux World) (p : FidPtr) : Session Aux World :=
  (s.referenced p).afterCall (some p) (s.removal env p)

/-- The end of `np_clunk`, behind the answer. -/
def npRemoved (p : FidPtr) : Option Npfcall → Serve (Option Npfcall)
  | none => do
    crash
    return none
  | some removed =>
    if removed.type = MsgType.rerror.code then
      return some removed
    else do
      let rc ← create npCreateRclunk
      npClunked p rc

theorem run_withFid (found : s.pool tc.fid = some p) (rest : FidPtr → Serve (Option Npfcall)) :
    (withFid tc.fid rest).run (exec env) s = (rest p).run (exec env) (s.referenced p) := by
  simp only [withFid, npFidFind, npFidIncref, setReqFid, step_bind, done_bind, run_step, exec,
    found]
  rfl

theorem refs_withFid (found : s.pool tc.fid = some p) (rest : FidPtr → Serve (Option Npfcall)) :
    refs env p (withFid tc.fid rest) s = 1 + refs env p (rest p) (s.referenced p) := by
  simp only [withFid, npFidFind, npFidIncref, setReqFid, step_bind, done_bind, refs_step, Op.refs,
    exec, found, Int.zero_add, if_true]
  rfl

/-- The file server is asked, and the rest depends on its answer. -/
theorem run_npClunk_orclose (opened : s.OpenedWith tc p g Orclose)
    (plain : g.type &&& Qtauth = 0) :
    (npClunk tc).run (exec env) s =
      (npRemoved p (s.removal env p).reply).run (exec env) (s.asked env p) ∧
    ((npClunk tc).events (exec env) s).any (·.1.removes p) = true ∧
    refs env p (npClunk tc) s =
      1 + refs env p (npRemoved p (s.removal env p).reply) (s.asked env p) := by
  obtain ⟨found, live, -, omode, -, -⟩ := opened
  have live' := live_referenced live
  have alike : (g.addRef 1).omode ≠ Onotopen ∧ (g.addRef 1).omode = Orclose.toUInt16 := by
    have mode : (g.addRef 1).omode = Orclose.toUInt16 := omode
    exact ⟨by rw [mode]; decide, mode⟩
  have plain' : ¬ (g.addRef 1).type &&& Qtauth ≠ 0 := not_not.mpr plain
  refine ⟨?_, ?_, ?_⟩
  · rw [npClunk, run_withFid found]
    simp only [Serve.type, Serve.omode, step_bind, done_bind, run_step, exec, Session.load, live']
    rw [if_neg plain']
    simp only [run_step, exec, Session.load, live']
    rw [if_pos alike]
    rfl
  · rw [npClunk, events_withFid found]
    simp only [Serve.type, Serve.omode, step_bind, done_bind, events_step, List.any_cons, Op.removes,
      Bool.false_or, exec, Session.load, live']
    rw [if_neg plain']
    simp only [events_step, List.any_cons, Bool.false_or, exec, Session.load, live']
    rw [if_pos alike]
    simp [call]
  · rw [npClunk, refs_withFid found]
    simp only [Serve.type, Serve.omode, step_bind, done_bind, refs_step, Op.refs, exec, Session.load,
      live', Int.zero_add]
    rw [if_neg plain']
    simp only [refs_step, Op.refs, exec, Session.load, live', Int.zero_add]
    rw [if_pos alike]
    simp only [call, step_bind, done_bind, refs_step, Op.refs, Int.zero_add]
    rfl

/-! ### Giving up references -/

/-- The fid is there, and there was no undefined behaviour. -/
def Session.Intact (p : FidPtr) (s : Session Aux World) : Prop :=
  (s.fids.get p).isSome ∧ s.fault = false

theorem Session.Intact.modify (intact : s.Intact p) (change : Npfid Aux → Npfid Aux) :
    (s.modify p change).Intact p := by
  obtain ⟨g, live⟩ := Option.isSome_iff_exists.mp intact.1
  refine ⟨?_, ?_⟩
  · simp [Session.modify, live]
  · simp [Session.modify, live, intact.2]

theorem Session.Intact.load {β : Type} (intact : s.Intact p) (field : Npfid Aux → β) (junk : β) :
    (s.load p field junk).2.Intact p := by
  obtain ⟨g, live⟩ := Option.isSome_iff_exists.mp intact.1
  simpa [Session.load, live] using intact

theorem Session.Intact.call (intact : s.Intact p) (env : Env Aux World) (callback : Callback)
    (target : callback.target = some p) : (exec env (.call callback) s).2.Intact p := by
  obtain ⟨g, live⟩ := Option.isSome_iff_exists.mp intact.1
  refine ⟨?_, ?_⟩
  · simp [exec, Session.afterCall, target, Session.modify, live]
  · simp [exec, Session.afterCall, target, Session.modify, live, intact.2]

theorem Session.Intact.unlink (intact : s.Intact p) (env : Env Aux World) :
    (exec env (.fidUnlink p) s).2.Intact p := by
  obtain ⟨g, live⟩ := Option.isSome_iff_exists.mp intact.1
  simp only [exec, live]
  split_ifs <;> exact intact

theorem Session.Intact.free (intact : s.Intact p) :
    ((fidFree p).run (exec env) s).2.fault = false := by
  obtain ⟨g, live⟩ := Option.isSome_iff_exists.mp intact.1
  simp [fidFree, exec, live, intact.2]

theorem fault_npFidDestroy (intact : s.Intact p) :
    ((npFidDestroy p).run (exec env) s).2.fault = false := by
  have typed : ((Serve.type p).run (exec env)
      (srv.run (exec env) ((fidUnlink p).run (exec env) s).2).2).2.Intact p :=
    (intact.unlink env).load (·.type) 0
  have clunked := (typed.call env (.authClunk p) rfl).load (·.user) none
  have destroyed := (typed.call env (.fiddestroy p) rfl).load (·.user) none
  have plain := typed.load (·.user) none
  simp only [npFidDestroy, run_bind]
  split_ifs
  · simp only [run_bind]
    split
    · exact clunked.free
    · exact Session.Intact.free clunked
  · simp only [run_bind]
    split
    · exact destroyed.free
    · exact Session.Intact.free destroyed
  · simp only [run_bind]
    split
    · exact plain.free
    · exact Session.Intact.free plain

/-- The reference of the request, or of the client, is given up. -/
theorem fault_npFidDecref (intact : s.Intact p) :
    ((npFidDecref (some p)).run (exec env) s).2.fault = false := by
  have decreased := intact.modify (.addRef (-1))
  obtain ⟨g, live⟩ := Option.isSome_iff_exists.mp intact.1
  have first : (fidDecref p).run (exec env) s = (g.refcount - 1, s.modify p (.addRef (-1))) := by
    simp [fidDecref, exec, Session.load, live]
  rw [npFidDecref, run_bind, first]
  dsimp only
  rw [run_ite]
  split_ifs
  · exact fault_npFidDestroy decreased
  · exact decreased.2

/-! ### The answer of the file server -/

theorem live_asked (live : s.fids.get p = some g) : ∃ g', (s.asked env p).fids.get p = some g' ∧
    g'.fid = g.fid ∧ g'.refcount = g.refcount + 1 + if (s.removal env p).takesRef then 1 else 0 := by
  have live' := live_referenced live
  refine ⟨{ g.addRef 1 with
    aux := (s.removal env p).aux
    refcount := (g.addRef 1).refcount + if (s.removal env p).takesRef then 1 else 0 }, ?_, rfl, rfl⟩
  simp [Session.asked, Session.afterCall, Session.modify, live']

theorem refs_sendReply {rc : Npfcall} (served : s.reqFid = some p)
    (other : rc.type ≠ MsgType.rread.code) : refs env p (sendReply tc (some rc)) s = -1 := by
  have responded : refs env p (npRespond tc rc) s = -1 := by
    rw [npRespond, refs_bind]
    simp only [reqFid, refs_step, refs_done, Op.refs, run_step, run_done, exec, served, if_neg other]
    rw [refs_bind, refs_npFidDecref]
    rfl
  rw [sendReply, refs_bind, responded]
  rfl

/-- Undefined behaviour stays. -/
theorem exec_fault (op : Op) (faulty : s.fault = true) : (exec env op s).2.fault = true := by
  have loaded {β : Type} (fid : FidPtr) (field : Npfid Aux → β) (junk : β) :
      (s.load fid field junk).2.fault = true := by
    unfold Session.load
    split
    · exact faulty
    · rfl
  have modified (fid : FidPtr) (change : Npfid Aux → Npfid Aux) :
      (s.modify fid change).fault = true := by simp [Session.modify, faulty]
  cases op with
  | fidCreate fid =>
      simp only [exec]
      split <;> exact faulty
  | fidUnlink fid =>
      simp only [exec]
      split
      · split <;> exact faulty
      · rfl
  | fidIncref fid | fidDecref fid => exact modified _ _
  | fidFree fid => simp [exec, faulty]
  | omode fid | type fid | diroffset fid | user fid => exact loaded _ _ _
  | setOmode fid value | setType fid value | setDiroffset fid value | setUser fid value =>
      exact modified _ _
  | userIncref user => cases user <;> exact faulty
  | call callback =>
      simp only [exec, Session.afterCall]
      split
      · exact faulty
      · simp [Session.modify, faulty]
  | crash => rfl
  | _ => exact faulty

theorem run_fault {α : Type} (program : Serve α) (faulty : s.fault = true) :
    (program.run (exec env) s).2.fault = true :=
  (@run_invariant _ _ _ _ (exec env) (fun s => s.fault = true)
    (fun op _ faulty => exec_fault op faulty) program s faulty).1

/-- The reply of the handler is sent, or an error in its place. -/
theorem finish_some {rc : Npfcall} (served : s.reqFid = some p)
    (other : rc.type ≠ MsgType.rread.code) : ∃ reply world,
      (finish npErrnoToLinux tc none (some rc)).run (exec env) s = (some reply,
        { ((npFidDecref (some p)).run (exec env) { s with world }).2 with reqFid := none }) ∧
      refs env p (finish npErrnoToLinux tc none (some rc)) s = -1 := by
  obtain ⟨rc', world, replied, kind⟩ : ∃ rc' world,
      (errorReply npErrnoToLinux (some rc)).run (exec env) s = (some rc', { s with world }) ∧
        rc'.type ≠ MsgType.rread.code := by
    by_cases clear : s.error = none
    · exact ⟨rc, s.world, run_errorReply_none clear, other⟩
    · obtain ⟨e, error⟩ := Option.ne_none_iff_exists'.mp clear
      obtain ⟨fc, world, failed, replied⟩ :=
        @run_errorReply _ _ npErrnoToLinux env s (some rc) e error
      exact ⟨fc, world, replied, failed.ne_rread⟩
  refine ⟨npSetTag rc' tc.tag, world, ?_, ?_⟩
  · rw [finish, run_bind, replied, Option.or_none, sendReply, run_bind, run_npRespond kind]
    dsimp only
    rw [served]
    rfl
  · rw [finish, refs_bind, refs_errorReply, replied, Option.or_none]
    exact (Int.zero_add _).trans (refs_sendReply served kind)

theorem run_tclunk (type : tc.type = MsgType.tclunk.code) :
    (serve npErrnoToLinux tc none).run (exec env) s =
      (finish npErrnoToLinux tc none ((npClunk tc).run (exec env) { s with error := none }).1).run
        (exec env) ((npClunk tc).run (exec env) { s with error := none }).2 ∧
    refs env p (serve npErrnoToLinux tc none) s = refs env p (npClunk tc) { s with error := none } +
      refs env p (finish npErrnoToLinux tc none
        ((npClunk tc).run (exec env) { s with error := none }).1)
          ((npClunk tc).run (exec env) { s with error := none }).2 := by
  have handler : npHandle tc = npClunk tc := by
    rw [npHandle, npHandler, type]
    rfl
  rw [serve_eq, handler]
  refine ⟨?_, ?_⟩
  · rw [run_bind, run_bind]
    rfl
  · rw [refs_bind, refs_bind]
    simp only [npWerrorNone, refs_step, refs_done, Op.refs, Int.zero_add]
    rfl

/-- `np_clunk` has a reply of its own if the file server gives one that is not an `Rerror`. -/
theorem run_npRemoved_some {fc : Npfcall} (removed : fc.type ≠ MsgType.rerror.code) :
    ∃ rc world, (npRemoved p (some fc)).run (exec env) s =
        (some rc, ((npFidDecref (some p)).run (exec env) { s with world }).2) ∧
      rc.type = MsgType.rclunk.code ∧ refs env p (npRemoved p (some fc)) s = -1 := by
  obtain ⟨rc, created, type⟩ : ∃ rc, npCreateRclunk (env.malloc s.world).1 = some rc ∧
      rc.type = MsgType.rclunk.code := by
    apply created_type <;> simp [packed]
  have clunk : (some rc).any (fun rc => rc.type == MsgType.rclunk.code) = true := by simp [type]
  refine ⟨rc, (env.malloc s.world).2, ?_, type, ?_⟩
  · rw [npRemoved, if_neg removed, run_bind, run_create, created]
    rw [npClunked, if_pos clunk, run_bind]
    rfl
  · rw [npRemoved, if_neg removed, refs_bind, run_create, created]
    rw [npClunked, if_pos clunk, refs_bind, refs_npFidDecref]
    rfl

theorem intact_asked (opened : s.OpenedWith tc p g Orclose) : (s.asked env p).Intact p := by
  obtain ⟨g', live', -, -⟩ := @live_asked _ _ env s p g opened.live
  refine ⟨by rw [live']; rfl, ?_⟩
  have live := live_referenced opened.live
  simp [Session.asked, Session.afterCall, Session.modify, Session.referenced, opened.live,
    opened.sound]

/-- The file server removes the file, or says something else that is no `Rerror`. -/
theorem removesOnClose_of_removed (type : tc.type = MsgType.tclunk.code)
    (opened : s.OpenedWith tc p g Orclose) (plain : g.type &&& Qtauth = 0) {fc : Npfcall}
    (reply : (s.removal env p).reply = some fc) (removed : fc.type ≠ MsgType.rerror.code) :
    RemovesOnClose npErrnoToLinux env s tc p g := by
  set s₀ : Session Aux World := { s with error := none } with cleared
  have opened₀ : s₀.OpenedWith tc p g Orclose := { opened with }
  have reply₀ : (s₀.removal env p).reply = some fc := reply
  obtain ⟨handled, asks, counted⟩ := @run_npClunk_orclose _ _ env s₀ tc p g opened₀ plain
  obtain ⟨rc, world, ran, clunk, given⟩ :=
    @run_npRemoved_some _ _ env (s₀.asked env p) p fc removed
  obtain ⟨g', live, number, total⟩ := @live_asked _ _ env s₀ p g opened₀.live
  have intact := @intact_asked _ _ env s₀ tc p g opened₀
  have referenced := opened.referenced
  have more : g'.refcount ≠ 1 := by
    rw [total]
    split_ifs <;> omega
  set s₁ : Session Aux World := { s₀.asked env p with world } with answered
  have decreased : (npFidDecref (some p)).run (exec env) s₁ = ((), s₁.modify p (.addRef (-1))) :=
    run_npFidDecref_more live more
  have intact₁ : (s₁.modify p (.addRef (-1))).Intact p := Session.Intact.modify intact _
  have live₁ : (s₁.modify p (.addRef (-1))).fids.get p = some (g'.addRef (-1)) := by
    simp [Session.modify, answered, live]
  have other : rc.type ≠ MsgType.rread.code := by
    rw [clunk]
    decide
  obtain ⟨sent, world', finished, last⟩ :=
    @finish_some _ _ npErrnoToLinux env (s₁.modify p (.addRef (-1))) tc p rc rfl other
  obtain ⟨served, sum⟩ := @run_tclunk _ _ npErrnoToLinux env s tc p type
  rw [← cleared, handled, reply₀, ran, decreased] at served sum
  rw [counted, reply₀, given, last] at sum
  rw [finished] at served
  refine ⟨?_, ?_, ?_, sum, fun alone kept => ?_⟩
  · rw [events_tclunk type]
    exact asks
  · rw [served]
    exact fault_npFidDecref intact₁
  · rw [served]
    rfl
  · rw [served]
    have count : (g'.addRef (-1)).refcount = 1 := by
      have none' : (s₀.removal env p).takesRef = false := kept
      rw [none', alone] at total
      simp only [Npfid.addRef, total]
      decide
    have named : (s₁.modify p (.addRef (-1))).pool (g'.addRef (-1)).fid = some p := by
      have same : (g'.addRef (-1)).fid = tc.fid := number.trans opened.number
      rw [same]
      exact opened.found
    have gone : ((npFidDecref (some p)).run (exec env)
        { s₁.modify p (.addRef (-1)) with world := world' }).2.pool (g'.addRef (-1)).fid = none :=
      pool_npFidDecref_last live₁ count named
    have same : (g'.addRef (-1)).fid = tc.fid := number.trans opened.number
    rw [same] at gone
    exact gone

/-- A Tclunk removes on close if and only if the fid was opened with `Orclose` and nothing else, is
no fid of an authentication, and the file server gives a reply that is not an `Rerror`. -/
theorem removesOnClose_iff {mode : UInt8} (type : tc.type = MsgType.tclunk.code)
    (opened : s.OpenedWith tc p g mode) : RemovesOnClose npErrnoToLinux env s tc p g ↔
      g.type &&& Qtauth = 0 ∧ mode = Orclose ∧
        ∃ rc, (s.removal env p).reply = some rc ∧ rc.type ≠ MsgType.rerror.code := by
  set s₀ : Session Aux World := { s with error := none } with cleared
  have opened₀ : s₀.OpenedWith tc p g mode := { opened with }
  constructor
  · intro removes
    by_cases exact' : g.type &&& Qtauth = 0 ∧ mode = Orclose
    case neg =>
      have asks := removes.removes
      rw [events_tclunk type, events_npClunk_other opened₀ exact'] at asks
      cases asks
    obtain ⟨plain, rfl⟩ := exact'
    refine ⟨plain, rfl, ?_⟩
    obtain ⟨handled, -, counted⟩ := @run_npClunk_orclose _ _ env s₀ tc p g opened₀ plain
    obtain ⟨served, sum⟩ := @run_tclunk _ _ npErrnoToLinux env s tc p type
    rw [← cleared] at served sum
    cases reply : (s.removal env p).reply with
    | none =>
        -- The missing reply is dereferenced.
        have reply₀ : (s₀.removal env p).reply = none := reply
        have sound := removes.sound
        rw [served, handled, reply₀] at sound
        have faulty : ((npRemoved p none).run (exec env) (s₀.asked env p)).2.fault = true := rfl
        rw [run_fault _ faulty] at sound
        cases sound
    | some rc =>
        refine ⟨rc, rfl, fun failed => ?_⟩
        -- No reference is given up but the one of the request.
        have reply₀ : (s₀.removal env p).reply = some rc := reply
        have kept : npRemoved p (some rc) = return some rc := if_pos failed
        have other : rc.type ≠ MsgType.rread.code := by
          rw [failed]
          decide
        obtain ⟨sent, world, -, last⟩ :=
          @finish_some _ _ npErrnoToLinux env (s₀.asked env p) tc p rc rfl other
        have released := removes.released
        change refs env p (serve npErrnoToLinux tc none) s = -1 at released
        rw [sum, handled, counted, reply₀, kept] at released
        change 1 + 0 + refs env p (finish npErrnoToLinux tc none (some rc)) (s₀.asked env p) = -1
          at released
        rw [last] at released
        cases released
  · rintro ⟨plain, rfl, rc, reply, removed⟩
    exact removesOnClose_of_removed type opened plain reply removed

end Removal

/-! ### A fid of a file -/

/-- A file server that answers a removal with an `Rremove`. -/
def Env.removing : Env Unit Unit where
  answer callback _ _ :=
    let reply : callback.Reply := match callback with
      | .remove _ => some { (default : Npfcall) with type := MsgType.rremove.code }
      | callback => callback.silence
    ⟨reply, none, false, none, ()⟩
  malloc _ := (⟨default, fun _ => 0⟩, ())
  flush _ _ := (true, ())
  reset _ _ := ()

/-- A fid that was opened with this mode. -/
def fileFid (mode : UInt8) : Npfid Unit :=
  { Npfid.new 0 with refcount := 1, omode := mode.toUInt16 }

/-- A Tclunk of the fid. -/
def closing : Npfcall := { (default : Npfcall) with type := MsgType.tclunk.code, fid := 0 }

theorem openedWith_fileFid (mode : UInt8) :
    (Session.single 8216 (fileFid mode)).OpenedWith closing 0 (fileFid mode) mode where
  found := rfl
  live := rfl
  number := rfl
  omode := rfl
  referenced := by simp [fileFid]
  sound := rfl

/-- A file that was opened for writing is not removed. -/
theorem not_removesOnClose_all : ¬ ∀ (npErrnoToLinux : UInt32 → UInt32) (env : Env Unit Unit)
    (s : Session Unit Unit) (tc : Npfcall) (p : FidPtr) (g : Npfid Unit) (mode : UInt8),
    tc.type = MsgType.tclunk.code → s.OpenedWith tc p g mode → mode &&& Orclose ≠ 0 →
      RemovesOnClose npErrnoToLinux env s tc p g := by
  intro all
  have opened := openedWith_fileFid (Owrite ||| Orclose)
  have asks := (all id .removing _ closing 0 _ _ rfl opened (by decide)).removes
  rw [events_tclunk rfl] at asks
  exact Bool.false_ne_true ((events_npClunk_other opened (by decide)).symm.trans asks)

/-- A file that was opened for reading is removed. -/
theorem removesOnClose_orclose :
    RemovesOnClose id .removing (.single 8216 (fileFid Orclose)) closing 0 (fileFid Orclose) :=
  (removesOnClose_iff rfl (openedWith_fileFid Orclose)).mpr
    ⟨by decide, rfl, _, rfl, by decide⟩

end Npfs
