import Npfs.ShrunkReply
import Npfs.Transition
import Npfs.Walk

/-!
# The negotiated message size

`np_default_version` answers a `Tversion` with a message size of which `np_conn_reset` keeps
nothing: the handlers go on comparing counts with the size that the connection was made with, and
the replies are as long as the file server and the library make them.
-/

namespace Npfs

open Serve Program

variable {Aux World : Type}

/-! ## The dialogue on a connection -/

/-- What comes next: a request, or the file server's reply to a request that was left unanswered and
has a reference to this fid. -/
inductive Arrival where
  | request (tc : Npfcall)
  | respond (fid : Option FidPtr) (tc rc : Npfcall)

/-- A `Tversion` is the end of what was negotiated before. -/
def Arrival.renews : Arrival → Prop
  | .request tc => tc.type = MsgType.tversion.code
  | .respond .. => False

/-- What came next, and the reply that was sent. -/
structure Exchange where
  /-- What was negotiated. -/
  msize : Option UInt32
  arrival : Arrival
  reply : Option Npfcall
  /-- The file server was asked to read or write. -/
  asked : Bool

/-- The state of a connection whose requests are served in the order of their arrival. -/
structure Dialogue (Aux World : Type) where
  session : Session Aux World
  /-- The message size of the last `Rversion`, unless a later `Tversion` has failed. -/
  msize : Option UInt32
  log : List Exchange

/-- The callbacks that read or write. -/
def Callback.transfers : Callback → Bool
  | .read .. | .xattrread .. | .authRead .. | .write .. | .xattrwrite .. | .authWrite ..
  | .readdir .. => true
  | _ => false

/-- An operation that calls one of them. -/
def Op.transfers : Op → Bool
  | .call callback => callback.transfers
  | _ => false

/-- The message size that an `Rversion` settles. -/
def Npfcall.settled (rc : Npfcall) : Option UInt32 :=
  if rc.type = MsgType.rversion.code then some rc.msize else none

/-- What is next in the dialogue. -/
def Dialogue.next (npErrnoToLinux : UInt32 → UInt32) (env : Env Aux World)
    (d : Dialogue Aux World) : Arrival → Option (Dialogue Aux World)
  | .request tc =>
    let request := serve npErrnoToLinux tc none
    let start := { d.session with reqFid := none }
    let (reply, session) := request.run (exec env) start
    let asked := (request.events (exec env) start).any (·.1.transfers)
    some {
      session
      msize := if tc.type = MsgType.tversion.code then reply.bind Npfcall.settled else d.msize
      log := d.log ++ [⟨d.msize, .request tc, reply, asked⟩] }
  | .respond fid tc rc =>
    let (reply, session) := (npRespond tc rc).run (exec env) { d.session with reqFid := fid }
    some { d with session, log := d.log ++ [⟨d.msize, .respond fid tc rc, some reply, false⟩] }

/-- The T-message of a request with a `count`. -/
def IoRequest.type : IoRequest → MsgType
  | .read => .tread
  | .write => .twrite
  | .readdir => .treaddir

/-- The promise of an `Rversion`. -/
structure Exchange.Kept (srv conn : UInt32) (exchange : Exchange) : Prop where
  /-- The size is none that somebody cannot carry. -/
  least : ∀ tc rc m, exchange.arrival = .request tc → tc.type = MsgType.tversion.code →
    exchange.reply = some rc → rc.settled = some m → m ≤ tc.msize ∧ m ≤ srv ∧ m ≤ conn
  /-- Until the next `Tversion`, no reply is longer. -/
  short : ¬ exchange.arrival.renews → ∀ m rc, exchange.msize = some m →
    exchange.reply = some rc → rc.size ≤ m
  /-- A request for more data than fits is refused. -/
  refused : ∀ tc m (request : IoRequest), exchange.arrival = .request tc →
    exchange.msize = some m → tc.type = request.type.code → m.toNat < tc.count.toNat + 24 →
      (∃ rc, exchange.reply = some rc ∧ rc.Failed) ∧ exchange.asked = false

/-- Each `Rversion` was kept to. -/
def Dialogue.KeepsMsize (d : Dialogue Aux World) : Prop :=
  ∀ exchange ∈ d.log, exchange.Kept d.session.srv.msize d.session.conn.msize

/-! ## Where it is kept -/

/-- The number of bytes that are sent. -/
def replyBytes : Option Npfcall → Nat
  | none => 0
  | some rc => rc.size.toNat

@[simp] theorem replyBytes_none : replyBytes none = 0 := rfl

@[simp] theorem replyBytes_some (rc : Npfcall) : replyBytes (some rc) = rc.size.toNat := rfl

/-- The number of bytes of an error as `np_process_request` answers it. -/
def Nperror.replyBytes (conn : Npconn) (error : Nperror) : Nat :=
  if conn.dotl then 11 else 9 + error.ename.strlen + if conn.dotu then 4 else 0

/-- The reply that the file server gives is not longer than this, nor is the `Rread` for what the
authentication server gives, whose length is an `int`. -/
def Callback.Short (m : UInt32) : (callback : Callback) → callback.Reply → Prop
  | .authRead .., answer => answer.1.toNat + 11 ≤ m.toNat ∧ answer.1.toNat + 11 < 2 ^ 31
  | .clone .., _ | .checkauth .., _ | .authWrite .., _ | .authClunk .., _ | .fiddestroy .., _
  | .walk .., _ | .startauth .., _ | .uname2user .., _ | .uid2user .., _ => True
  | .attach .., rc | .openFid .., rc | .create .., rc | .read .., rc | .write .., rc
  | .clunk .., rc | .remove .., rc | .stat .., rc | .wstat .., rc | .statfs .., rc | .lopen .., rc
  | .lcreate .., rc | .symlink .., rc | .mknod .., rc | .rename .., rc | .readlink .., rc
  | .getattr .., rc | .setattr .., rc | .xattrwalk .., rc | .xattrcreate .., rc
  | .xattrread .., rc | .xattrwrite .., rc | .readdir .., rc | .fsync .., rc | .flock .., rc
  | .getlock .., rc | .link .., rc | .mkdir .., rc | .renameat .., rc | .unlinkat .., rc =>
    replyBytes rc ≤ m.toNat

/-- In this operation of a request, the file server gives no reply that is longer than this, and
neither it nor the library sets an error whose reply would be. -/
def ShortEvent (env : Env Aux World) (conn : Npconn) (m : UInt32) :
    Op × Session Aux World → Prop
  | (.werror error, _) => ∀ e, error = some e → e.replyBytes conn ≤ m.toNat
  | (.call callback, s) =>
    let outcome := env.answer callback s.fids.get s.world
    callback.Short m outcome.reply ∧
      ∀ e, outcome.error = some (some e) → e.replyBytes conn ≤ m.toNat
  | _ => True

/-- The fid that a pointer points to, with what is read where there is none. -/
def Session.fidAt (s : Session Aux World) (ptr : FidPtr) : Npfid Aux :=
  (s.fids.get ptr).getD { Npfid.new 0 with omode := 0 }

/-- The tests of the handler, in which the size that was negotiated does not occur. -/
def IoRequest.Admits (s : Session Aux World) (tc : Npfcall) (request : IoRequest) : Prop :=
  ∃ ptr, s.pool tc.fid = some ptr ∧
    let f := s.fidAt ptr
    match request with
    | .read => tc.count + IOHDRSZ ≤ s.conn.msize ∧
        if f.type &&& Qtauth ≠ 0 then s.srv.auth ≠ none
        else f.type &&& Ftxattr ≠ 0 ∨
          ¬ (f.omode = Onotopen ∨ f.omode &&& 3 = Owrite.toUInt16) ∧
            ¬ (f.type &&& Qtdir ≠ 0 ∧ tc.offset ≠ f.diroffset.toUInt64)
    | .write =>
        if f.type &&& Qtauth ≠ 0 then s.srv.auth ≠ none
        else f.type &&& Ftxattr ≠ 0 ∨
          ¬ (f.omode = Onotopen ∨ f.type &&& Qtdir ≠ 0 ∨ f.omode &&& 3 = Oread.toUInt16) ∧
            tc.count + IOHDRSZ ≤ s.conn.msize
    | .readdir => tc.count + IOHDRSZ ≤ s.conn.msize ∧
        ¬ (f.omode = Onotopen ∨ f.omode &&& 3 = Owrite.toUInt16 ∨ f.type &&& Qtdir = 0)

/-- The request keeps to this message size. -/
structure ShortRequest (npErrnoToLinux : UInt32 → UInt32) (env : Env Aux World)
    (s : Session Aux World) (tc : Npfcall) (m : UInt32) : Prop where
  /-- If it asks for more data than fits, the handler turns it down for another reason. -/
  turned : ∀ request : IoRequest, tc.type = request.type.code →
    m.toNat < tc.count.toNat + 24 → ¬ request.Admits s tc
  /-- The errors and the replies of the file server fit. -/
  events : ∀ event ∈ (serve npErrnoToLinux tc none).events (exec env) s,
    ShortEvent env s.conn m event
  /-- The qids of the names that are walked fit. -/
  walked : 9 + 13 * (seen (walkedQid env) env (serve npErrnoToLinux tc none) s).length ≤ m.toNat

/-- The next arrival keeps to what was negotiated. -/
def Dialogue.Fits (npErrnoToLinux : UInt32 → UInt32) (env : Env Aux World)
    (d : Dialogue Aux World) : Arrival → Prop
  | .request tc => tc.type ≠ MsgType.tversion.code → ∀ m, d.msize = some m →
    ShortRequest npErrnoToLinux env { d.session with reqFid := none } tc m
  | .respond _ _ rc => ∀ m, d.msize = some m → rc.size ≤ m

/-! ## The length of replies -/

theorem npCreate_bytes {type : MsgType} {size : UInt32} {fields : List PutOp} {heap : Malloc}
    (keeps : ∀ op ∈ fields, op.Keeps Npfcall.size) (small : size.toNat + 7 < 2 ^ 31) :
    replyBytes (npCreate type size fields heap) ≤ size.toNat + 7 := by
  cases created : npCreate type size fields heap with
  | none => exact Nat.zero_le _
  | some fc =>
      rw [replyBytes, npCreate_size keeps created, npCreateCommon_size heap type small,
        UInt32.toNat_add]
      exact Nat.mod_le _ _

theorem rerror_bytes (error : Nperror) (conn : Npconn) (heap : Malloc) :
    replyBytes (npCreateRerror error.ename error.ecode conn.dotu heap) ≤
      9 + error.ename.strlen + if conn.dotu then 4 else 0 := by
  have short := error.short
  have size : (UInt32.ofNat (2 + error.ename.strlen + if conn.dotu then 4 else 0)).toNat =
      2 + error.ename.strlen + if conn.dotu then 4 else 0 := by
    apply toNat_ofNat32
    split <;> omega
  refine (npCreate_bytes ?_ ?_).trans ?_
  · cases conn.dotu <;> simp
  · rw [size]
    split <;> omega
  · rw [size]
    omega

theorem rlerror_bytes (npErrnoToLinux : UInt32 → UInt32) (ecode : UInt32) (heap : Malloc) :
    replyBytes (npCreateRlerror npErrnoToLinux ecode heap) ≤ 11 :=
  npCreate_bytes (by simp) (by decide)

theorem rwalk_bytes {wqids : List Npqid} (heap : Malloc) :
    replyBytes (npCreateRwalk wqids heap) ≤ 9 + 13 * wqids.length := by
  unfold npCreateRwalk
  split_ifs with many
  · exact Nat.zero_le _
  · simp only [MAXWELEM, not_lt] at many
    have size : (UInt32.ofNat (2 + wqids.length * 13)).toNat = 2 + wqids.length * 13 :=
      toNat_ofNat32 (by omega)
    refine (npCreate_bytes ?_ (by omega)).trans (by omega)
    simpa using @keeps_putWqids _ Npfcall.size (fun _ _ => rfl) wqids 0

theorem rversion_bytes {srv : Npsrv} {version : List UInt8} {ver : CStr} {dotu dotl : Bool}
    (chosen : chosenVersion srv version = some (ver, dotu, dotl)) (msize : UInt32)
    (heap : Malloc) : replyBytes (npCreateRversion msize ver heap) ≤ 24 := by
  have length : ver.strlen ≤ 8 := by
    unfold chosenVersion at chosen
    split_ifs at chosen <;> cases chosen <;> decide
  have size : (UInt32.ofNat (4 + 2 + ver.strlen)).toNat = 4 + 2 + ver.strlen :=
    toNat_ofNat32 (by omega)
  refine (npCreate_bytes (by simp) (by omega)).trans (by omega)

theorem npSetCount_bytes {count : UInt32} {fc : Npfcall} (small : 11 + count.toNat < 2 ^ 31) :
    (npSetCount fc count).size.toNat = 11 + count.toNat := by
  rw [npSetCount_eq small]
  exact shrunk_toNat small

/-! ## The length of what the handlers return -/

/-- The replies of the file server are not longer than this. -/
def Op.Short (m : UInt32) : (op : Op) → op.Reply → Prop
  | .call callback, reply => callback.Short m reply
  | _, _ => True

/-- The operation is not `np_conn_reset`. -/
def Op.Unreset : Op → Prop
  | .connReset .. => False
  | _ => True

/-- The program does not reset the connection, and returns no reply that is longer than this if the
file server gives none. -/
def Brief (m : UInt32) (program : Serve (Option Npfcall)) : Prop :=
  program.Always (Op.Short m) Op.Unreset fun rc => replyBytes rc ≤ m.toNat

section Brief

attribute [local simp] Op.Short Op.Unreset Callback.Short

variable {m : UInt32}

theorem always_unreset {possible : (op : Op) → op.Reply → Prop}
    (one : ∀ fid, possible (.fidDecref fid) (1 : Int)) {fid : Option FidPtr}
    {post : Unit → Prop} : (npFidDecref fid).Always possible Op.Unreset post ↔ post () := by
  constructor
  · intro always
    cases fid with
    | none => exact always
    | some fid => exact always.2 1 (one fid)
  · refine always_npFidDecref fun _ _ op allowed => ?_
    cases op <;> first | exact trivial | cases allowed

@[simp] theorem always_short_npFidDecref {fid : Option FidPtr} {post : Unit → Prop} :
    (npFidDecref fid).Always (Op.Short m) Op.Unreset post ↔ post () :=
  always_unreset fun _ => trivial

@[simp] theorem always_unreset_npFidDecref {fid : Option FidPtr} {post : Unit → Prop} :
    (npFidDecref fid).Always (fun _ _ => True) Op.Unreset post ↔ post () :=
  always_unreset fun _ => trivial

theorem rauth_bytes (aqid : Npqid) (heap : Malloc) : replyBytes (npCreateRauth aqid heap) ≤ 20 :=
  npCreate_bytes (keeps_bufPutQid fun _ _ => rfl) (by decide)

theorem brief_npAuth (room : 24 ≤ m.toNat) (tc : Npfcall) : Brief m (npAuth tc) := by
  have created (aqid : Npqid) (heap : Malloc) :
      replyBytes (npCreateRauth aqid heap) ≤ m.toNat :=
    (rauth_bytes aqid heap).trans (by omega)
  have started (afid : FidPtr) : Brief m (npStartAuth tc afid) := by
    simp [Brief, npStartAuth, npReqUser, npReqAname, call, Option.forall, created]
  simp [Brief, npAuth, Option.forall]
  intro afid
  refine (started afid).mono fun rc short => ?_
  cases rc <;> simp_all

theorem brief_npReadAuth (tc : Npfcall) (fid : FidPtr) : Brief m (npReadAuth tc fid) := by
  have counted {n : Int} (short : n.toNat + 11 ≤ m.toNat) (small : n.toNat + 11 < 2 ^ 31)
      (fc : Npfcall) : (npSetCount fc (UInt32.ofNat n.toNat)).size.toNat ≤ m.toNat := by
    have value : (UInt32.ofNat n.toNat).toNat = n.toNat := toNat_ofNat32 (by omega)
    rw [npSetCount_bytes (by omega), value]
    omega
  simp [Brief, npReadAuth, call]
  intro srv _ heap
  cases npAllocRread tc.count heap with
  | none => simp
  | some rc =>
      simp
      exact fun n text short small _ => counted short small _

theorem brief_npRead (tc : Npfcall) : Brief m (npRead tc) := by
  have auth (fid : FidPtr) := @brief_npReadAuth m tc fid
  simp [Brief] at auth
  simp [Brief, npRead, withFid, call, Option.forall, auth]

theorem brief_npFlush (room : 24 ≤ m.toNat) (tc : Npfcall) : Brief m (npFlush tc) := by
  have created (heap : Malloc) : replyBytes (npCreateRflush heap) ≤ m.toNat :=
    (npCreate_bytes (by simp) (by decide) : _ ≤ 7).trans (by omega)
  simp [Brief, npFlush, created]

theorem brief_npWrite (room : 24 ≤ m.toNat) (tc : Npfcall) : Brief m (npWrite tc) := by
  have created (n : UInt32) (heap : Malloc) : replyBytes (npCreateRwrite n heap) ≤ m.toNat :=
    (npCreate_bytes (by simp) (by decide) : _ ≤ 11).trans (by omega)
  simp [Brief, npWrite, withFid, call, Option.forall, created]

theorem brief_npClunk (room : 24 ≤ m.toNat) (tc : Npfcall) : Brief m (npClunk tc) := by
  have created (heap : Malloc) : replyBytes (npCreateRclunk heap) ≤ m.toNat :=
    (npCreate_bytes (by simp) (by decide) : _ ≤ 7).trans (by omega)
  simp [Brief, npClunk, npClunked, withFid, call, Option.forall, created]
  exact fun _ _ _ _ _ _ _ short _ => short

theorem exec_conn (env : Env Aux World) {op : Op} (unreset : op.Unreset) (s : Session Aux World) :
    (exec env op s).2.conn = s.conn := by
  rcases (exec_settings env op s).2 with same | ⟨msize, dotu, dotl, rfl⟩
  · exact same
  · exact unreset.elim

theorem conn_of_unreset {α : Type} {program : Serve α}
    (unreset : program.Always (fun _ _ => True) Op.Unreset fun _ => True) (env : Env Aux World)
    (s : Session Aux World) : (program.run (exec env) s).2.conn = s.conn :=
  (@Always.run _ _ _ _ _ _ _ _ _ (fun t => t.conn = s.conn) _ unreset (fun _ _ _ _ => trivial)
    (fun _ t same unreset => (exec_conn env unreset t).trans same) rfl).2.1

theorem unreset_npWalkNames (fid : FidPtr) (wnames : List (List UInt8)) :
    (npWalkNames fid wnames).Always (fun _ _ => True) Op.Unreset fun _ => True := by
  induction wnames with
  | nil => trivial
  | cons wname wnames ih =>
      simp [npWalkNames, call, Option.forall]
      exact fun _ _ => ih

theorem unreset_npWalk (tc : Npfcall) :
    (npWalk tc).Always (fun _ _ => True) Op.Unreset fun _ => True := by
  have walked (newfid : FidPtr) :
      (npWalkFrom tc newfid).Always (fun _ _ => True) Op.Unreset fun _ => True := by
    simp [npWalkFrom]
    exact unreset_npWalkNames newfid _
  simp [npWalk, call, Option.forall, walked]

theorem npFcalls_brief (room : 24 ≤ m.toNat) {n : Nat} {f : Npfcall → Serve (Option Npfcall)}
    (listed : npFcalls n = some f) : n = 100 ∨ n = 110 ∨ ∀ tc, Brief m (f tc) := by
  unfold npFcalls at listed
  split at listed <;> cases listed <;> first
    | exact .inl rfl
    | exact .inr (.inl rfl)
    | with_reducible exact .inr (.inr (brief_npAuth room))
    | with_reducible exact .inr (.inr (brief_npFlush room))
    | with_reducible exact .inr (.inr (brief_npWrite room))
    | with_reducible exact .inr (.inr (brief_npClunk room))
    | refine .inr (.inr fun tc => ?_)
      simp [Brief, npOpen, npCreateFile, npLopen, npLcreate, npXattrwalk, npXattrcreate, npAttach,
        npAttachUser, npReqUser, npReqAname, npRemove, npStat, npWstat, npStatfs, npSymlink,
        npMknod, npRename, npReadlink, npGetattr, npSetattr, npReaddir, npFsync, npFlock, npGetlock,
        npLink, npMkdir, npRenameat, npUnlinkat, inDirectory, withFid, call, Option.forall]
      done
    | exact .inr (.inr brief_npRead)

end Brief

/-! ## The length of an `Rwalk` -/

section Walk

variable {env : Env Aux World}

/-- The reply of the program counts no more names than the file server has walked. -/
def WalkedBytes (env : Env Aux World) (program : Serve (Option Npfcall)) : Prop :=
  ∀ s, replyBytes (program.run (exec env) s).1 ≤
    9 + 13 * (seen (walkedQid env) env program s).length

namespace WalkedBytes

theorem bind {α : Type} {first : Serve α} {rest : α → Serve (Option Npfcall)}
    (bytes : ∀ result, WalkedBytes env (rest result)) : WalkedBytes env (first >>= rest) := by
  intro s
  rw [run_bind, seen_bind, List.length_append]
  exact (bytes _ _).trans (by omega)

theorem none (env : Env Aux World) : WalkedBytes env (.done none) := fun _ => Nat.zero_le _

theorem fail (env : Env Aux World) (ename : CStr) (ecode : UInt32) :
    WalkedBytes env (fail ename ecode) := bind fun _ => none env

theorem ite {condition : Prop} [Decidable condition] {first second : Serve (Option Npfcall)}
    (pos : condition → WalkedBytes env first) (neg : ¬ condition → WalkedBytes env second) :
    WalkedBytes env (if condition then first else second) := by
  split_ifs with holds
  · exact pos holds
  · exact neg holds

end WalkedBytes

theorem length_npWalkNames (fid : FidPtr) (wnames : List (List UInt8)) (s : Session Aux World) :
    ((npWalkNames fid wnames).run (exec env) s).1.length ≤
      (seen (walkedQid env) env (npWalkNames fid wnames) s).length := by
  induction wnames generalizing s with
  | nil => exact Nat.zero_le _
  | cons wname wnames ih =>
      rw [npWalkNames_cons, run_step, seen, events_step]
      simp only [List.filterMap_cons, walkedQid, exec, Callback.target]
      cases (env.answer (.walk fid wname) s.fids.get s.world).reply with
      | none => simp
      | some wqid =>
          simp only [run_step, events_step, List.filterMap_cons, walkedQid]
          split_ifs
          · simp
          · simp only [run_bind, run_done, List.length_cons, events_bind, events_done,
              List.append_nil]
            exact Nat.succ_le_succ (ih _)

theorem walkedBytes_npWalkFrom (tc : Npfcall) (newfid : FidPtr) :
    WalkedBytes env (npWalkFrom tc newfid) := by
  refine .bind fun _ s => ?_
  have length := @length_npWalkNames _ _ env newfid
    ((tc.wnames.toList.take tc.nwname.toNat).map tc.text) s
  rw [run_bind, seen_bind, List.length_append]
  generalize (npWalkNames newfid _).run (exec env) s = walked at length ⊢
  obtain ⟨wqids, s'⟩ := walked
  have created := @rwalk_bytes wqids
  simp only at length ⊢
  rw [run_ite]
  split_ifs
  · simp [run_bind]
  all_goals
    simp only [run_bind, run_npWerrorNone, run_create, pure_eq, run_done]
    exact (created _).trans (by omega)

theorem walkedBytes_npWalk (env : Env Aux World) (tc : Npfcall) :
    WalkedBytes env (npWalk tc) := by
  refine .bind fun fid => ?_
  cases fid with
  | none => exact .fail env _ _
  | some fid =>
      refine .bind fun _ => .bind fun _ => .bind fun omode => ?_
      refine .ite (fun _ => .fail env _ _) fun _ => .ite (fun _ => .fail env _ _) fun _ =>
        .ite (fun _ => ?_)
        fun _ => walkedBytes_npWalkFrom tc fid
      refine .bind fun newfid => ?_
      cases newfid with
      | some newfid => exact .bind fun _ => .bind fun _ => .none env
      | none =>
          refine .bind fun newfid => ?_
          cases newfid with
          | none => exact .fail env _ _
          | some newfid =>
              refine .bind fun cloned => .ite (fun _ => ?_) fun _ => .bind fun _ => .none env
              exact .bind fun _ => .bind fun _ => .bind fun _ => .bind fun _ => .bind fun _ =>
                walkedBytes_npWalkFrom tc newfid

end Walk

/-! ## The length of the reply to a request -/

section Reply

variable {npErrnoToLinux : UInt32 → UInt32} {env : Env Aux World} {s : Session Aux World}
  {tc : Npfcall} {m : UInt32}

/-- The error of the thread can be answered. -/
def Session.ErrorFits (s : Session Aux World) (conn : Npconn) (m : UInt32) : Prop :=
  ∀ e, s.error = some e → e.replyBytes conn ≤ m.toNat

theorem exec_error {conn : Npconn} {event : Op × Session Aux World}
    (short : ShortEvent env conn m event) (fits : event.2.ErrorFits conn m) :
    (exec env event.1 event.2).2.ErrorFits conn m := by
  obtain ⟨op, s⟩ := event
  have loaded {β : Type} (fid : FidPtr) (field : Npfid Aux → β) (junk : β) :
      (s.load fid field junk).2.error = s.error := by
    unfold Session.load
    split <;> rfl
  cases op with
  | fidCreate fid =>
      simp only [exec]
      split <;> exact fits
  | fidUnlink fid =>
      simp only [exec]
      split
      · split <;> exact fits
      · exact fits
  | userIncref user => cases user <;> exact fits
  | omode fid | type fid | diroffset fid | user fid =>
      intro e error
      exact fits e ((loaded _ _ _).symm.trans error)
  | werror error => exact short
  | call callback =>
      have settled : (exec env (.call callback) s).2.error =
          (env.answer callback s.fids.get s.world).error.getD s.error := by
        simp only [exec, Session.afterCall]
        split <;> rfl
      intro e error
      rw [settled] at error
      cases given : (env.answer callback s.fids.get s.world).error with
      | none =>
          rw [given] at error
          exact fits e error
      | some error' =>
          rw [given] at error
          exact short.2 e (given.trans (congrArg some error))
  | _ => exact fits

theorem run_error {α : Type} {program : Serve α} {conn : Npconn}
    (short : ∀ event ∈ program.events (exec env) s, ShortEvent env conn m event)
    (fits : s.ErrorFits conn m) : (program.run (exec env) s).2.ErrorFits conn m := by
  induction program generalizing s with
  | done result => exact fits
  | step op next ih =>
      have first := short (op, s) (by simp)
      refine ih _ (fun event member => short event ?_) (exec_error first fits)
      exact List.mem_cons_of_mem _ member

theorem Op.short_of_event {conn : Npconn} {event : Op × Session Aux World}
    (short : ShortEvent env conn m event) : event.1.Short m (exec env event.1 event.2).1 := by
  obtain ⟨op, s⟩ := event
  cases op with
  | call callback => exact short.1
  | _ => trivial

end Reply

/-! ## The negotiation -/

/-- The message size that `np_default_version` offers. -/
def Session.offer (s : Session Aux World) (msize : UInt32) : UInt32 :=
  let msize := if msize > s.srv.msize then s.srv.msize else msize
  if msize > s.conn.msize then s.conn.msize else msize

theorem offer_le (s : Session Aux World) (msize : UInt32) :
    s.offer msize ≤ msize ∧ s.offer msize ≤ s.srv.msize ∧ s.offer msize ≤ s.conn.msize := by
  simp only [Session.offer, gt_iff_lt, UInt32.lt_iff_toNat_lt, UInt32.le_iff_toNat_le]
  split_ifs <;> omega

/-- What `np_version` returns: an error, or an `Rversion` with the size that it offers. -/
theorem run_npVersion (env : Env Aux World) (s : Session Aux World) (tc : Npfcall) :
    (∃ e, (npVersion tc).run (exec env) s = (none, { s with error := some e })) ∨
      ∃ ver dotu dotl heap, chosenVersion s.srv (tc.text tc.version) = some (ver, dotu, dotl) ∧
        24 ≤ (s.offer tc.msize).toNat ∧
          ((npVersion tc).run (exec env) s).1 = npCreateRversion (s.offer tc.msize) ver heap ∧
          ((npVersion tc).run (exec env) s).2.error = s.error := by
  by_cases tiny : tc.msize < IOHDRSZ + 1
  · exact .inl ⟨.of (cstr "msize too small") EIO, by simp only [npVersion, if_pos tiny, run_fail]⟩
  simp only [npVersion, if_neg tiny, npDefaultVersion, run_bind, run_srv, run_conn]
  change (∃ e, Program.run (exec env) (if s.offer tc.msize < IOHDRSZ then _ else _) s = _) ∨
    ∃ ver dotu dotl heap, _ ∧ _ ∧
      (Program.run (exec env) (if s.offer tc.msize < IOHDRSZ then _ else _) s).1 = _ ∧
      (Program.run (exec env) (if s.offer tc.msize < IOHDRSZ then _ else _) s).2.error = _
  by_cases small : s.offer tc.msize < IOHDRSZ
  · exact .inl ⟨_, by rw [if_pos small, run_fail]⟩
  simp only [if_neg small]
  cases chosen : chosenVersion s.srv (tc.text tc.version) with
  | none => exact .inl ⟨_, run_fail ..⟩
  | some version =>
      obtain ⟨ver, dotu, dotl⟩ := version
      refine .inr ⟨ver, dotu, dotl, _, rfl, ?_, rfl, rfl⟩
      exact UInt32.le_iff_toNat_le.mp (UInt32.not_lt.mp small)

/-- The `Rversion` settles the size that was offered. -/
theorem settled_rversion {srv : Npsrv} {version : List UInt8} {ver : CStr} {dotu dotl : Bool}
    {msize : UInt32} {heap : Malloc} {rc : Npfcall}
    (chosen : chosenVersion srv version = some (ver, dotu, dotl))
    (created : npCreateRversion msize ver heap = some rc) : rc.msize = msize := by
  have length : ver.strlen ≤ 8 := by
    unfold chosenVersion at chosen
    split_ifs at chosen <;> cases chosen <;> decide
  have size : (UInt32.ofNat (4 + 2 + ver.strlen)).toNat = 4 + 2 + ver.strlen :=
    toNat_ofNat32 (by omega)
  exact @npCreate_first _ _ Npfcall.msize _ _ _ _ _ _ _ _ _ (fun _ => rfl)
    (by rw [size, LittleEndian.bytes32_length]; omega) (by omega) (by simp)
    (fun _ _ => rfl) created

section Reply

variable {npErrnoToLinux : UInt32 → UInt32} {env : Env Aux World} {s : Session Aux World}
  {tc : Npfcall} {m : UInt32}

/-- What a handler returns is not longer than the size that the request keeps to, and it either
leaves the settings of the connection alone or sets no error. -/
theorem brief_npHandle (room : 24 ≤ m.toNat) {conn : Npconn} (clear : s.error = none)
    (short : ∀ event ∈ (npHandle tc).events (exec env) s, ShortEvent env conn m event)
    (walked : 9 + 13 * (seen (walkedQid env) env (npHandle tc) s).length ≤ m.toNat) :
    replyBytes ((npHandle tc).run (exec env) s).1 ≤ m.toNat ∧
      (((npHandle tc).run (exec env) s).2.conn = s.conn ∨
        ((npHandle tc).run (exec env) s).2.error = none) := by
  unfold npHandle at short walked ⊢
  cases handled : npHandler tc with
  | none => exact ⟨Nat.zero_le _, .inl rfl⟩
  | some f =>
      simp only [handled] at short walked ⊢
      unfold npHandler at handled
      split_ifs at handled
      rcases npFcalls_brief room handled with version | walk | brief
      · rw [version] at handled
        cases handled
        rcases run_npVersion env s tc with ⟨e, failed⟩ |
          ⟨ver, dotu, dotl, heap, chosen, -, rc, error⟩
        · exact ⟨by rw [failed]; exact Nat.zero_le _, .inl (by rw [failed])⟩
        · rw [rc, error]
          exact ⟨(rversion_bytes chosen _ heap).trans room, .inr clear⟩
      · rw [walk] at handled
        cases handled
        exact ⟨(walkedBytes_npWalk env tc s).trans walked,
          .inl (conn_of_unreset (unreset_npWalk tc) env s)⟩
      · obtain ⟨bytes, same, -⟩ := @Always.along _ _ _ _ _ _ _ _ _ (fun t => t.conn = s.conn) _
          (brief tc) (fun event member same unreset =>
            ⟨Op.short_of_event (short event member), (exec_conn env unreset _).trans same⟩) rfl
        exact ⟨bytes, .inl same⟩

theorem errorReply_bytes (rc : Option Npfcall) (fits : s.ErrorFits s.conn m)
    (short : replyBytes rc ≤ m.toNat) :
    replyBytes ((errorReply npErrnoToLinux rc).run (exec env) s).1 ≤ m.toNat := by
  cases failed : s.error with
  | none => rwa [run_errorReply_none failed]
  | some e =>
      have fit := fits e failed
      unfold Nperror.replyBytes at fit
      by_cases dotl : s.conn.dotl
      · rw [if_pos dotl] at fit
        simpa [errorReply, run_bind, failed, dotl] using
          (rlerror_bytes npErrnoToLinux e.ecode _).trans fit
      · rw [if_neg dotl] at fit
        simpa [errorReply, run_bind, failed, dotl] using (rerror_bytes e s.conn _).trans fit

theorem sendReply_bytes (rc : Option Npfcall) :
    replyBytes ((sendReply tc rc).run (exec env) s).1 = replyBytes rc := by
  cases rc with
  | none => rfl
  | some rc =>
      simp only [sendReply, run_bind, npRespond_fst, pure_eq, run_done]
      rfl

/-- The reply is the error of the thread, or what the handler has returned. -/
theorem finish_bytes (rc : Option Npfcall) (fits : s.ErrorFits s.conn m)
    (short : replyBytes rc ≤ m.toNat) :
    replyBytes ((finish npErrnoToLinux tc none rc).run (exec env) s).1 ≤ m.toNat := by
  rw [finish, run_bind, Option.or_none, sendReply_bytes]
  exact errorReply_bytes rc fits short

theorem events_serve : (serve npErrnoToLinux tc none).events (exec env) s =
    (Op.werror none, s) :: ((npHandle tc).events (exec env) { s with error := none } ++
      (finish npErrnoToLinux tc none
        ((npHandle tc).run (exec env) { s with error := none }).1).events (exec env)
          ((npHandle tc).run (exec env) { s with error := none }).2) := by
  rw [serve_eq]
  change (npWerrorNone >>= fun _ => npHandle tc >>= finish npErrnoToLinux tc none).events
    (exec env) s = _
  rw [events_bind, events_bind]
  rfl

/-- The reply to a request that keeps to a size is not longer than it. -/
theorem reply_short (room : 24 ≤ m.toNat) (short : ShortRequest npErrnoToLinux env s tc m) :
    replyBytes ((serve npErrnoToLinux tc none).run (exec env) s).1 ≤ m.toNat := by
  obtain ⟨-, events, walked⟩ := short
  rw [events_serve] at events
  rw [seen, events_serve, List.filterMap_cons_none rfl, List.filterMap_append,
    List.length_append] at walked
  have handling : ∀ event ∈ (npHandle tc).events (exec env) { s with error := none },
      ShortEvent env s.conn m event := fun event member =>
    events event (List.mem_cons_of_mem _ (List.mem_append_left _ member))
  have clean : Session.ErrorFits { s with error := none } s.conn m := by
    intro e error
    cases error
  have fits := run_error handling clean
  obtain ⟨bytes, same | clear⟩ :=
    brief_npHandle room rfl handling (by simp only [seen]; omega)
  · rw [run_serve]
    refine finish_bytes _ ?_ bytes
    rwa [same]
  · rw [run_serve]
    refine finish_bytes _ (fun e error => ?_) bytes
    rw [clear] at error
    cases error

end Reply

/-! ## Requests that are refused -/

section Refused

variable {npErrnoToLinux : UInt32 → UInt32} {env : Env Aux World} {s : Session Aux World}
  {tc : Npfcall} {request : IoRequest}

/-- The program sets an error, and does not ask the file server to read or write. -/
structure Refused (env : Env Aux World) (s : Session Aux World)
    (program : Serve (Option Npfcall)) : Prop where
  error : ∃ e, (program.run (exec env) s).2.error = some e
  unasked : ∀ event ∈ program.events (exec env) s, event.1.transfers = false

theorem refused_bind {α : Type} (first : Serve α) (rest : α → Serve (Option Npfcall)) :
    Refused env s (first >>= rest) ↔
      (∀ event ∈ first.events (exec env) s, event.1.transfers = false) ∧
        Refused env (first.run (exec env) s).2 (rest (first.run (exec env) s).1) := by
  constructor
  · rintro ⟨error, unasked⟩
    rw [run_bind] at error
    rw [events_bind] at unasked
    exact ⟨fun event member => unasked event (List.mem_append_left _ member), error,
      fun event member => unasked event (List.mem_append_right _ member)⟩
  · rintro ⟨first, error, unasked⟩
    refine ⟨by rwa [run_bind], fun event member => ?_⟩
    rw [events_bind] at member
    rcases List.mem_append.mp member with member | member
    · exact first event member
    · exact unasked event member

@[simp] theorem refused_fail (ename : CStr) (ecode : UInt32) :
    Refused env s (fail ename ecode) :=
  ⟨⟨_, rfl⟩, fun event member => by
    obtain rfl := List.mem_singleton.mp member
    rfl⟩

/-- The state `t` has the settings of `s`, and a handler reads this of the fid. -/
structure Session.Shows (s : Session Aux World) (ptr : FidPtr) (f : Npfid Aux)
    (t : Session Aux World) : Prop where
  conn : t.conn = s.conn
  srv : t.srv = s.srv
  type : (t.load ptr (·.type) (0 : UInt16)).1 = f.type
  omode : (t.load ptr (·.omode) (0 : UInt16)).1 = f.omode
  diroffset : (t.load ptr (·.diroffset) (0 : UInt32)).1 = f.diroffset

section Shows

variable {t : Session Aux World} {ptr : FidPtr} {f : Npfid Aux}

theorem shows_found (s : Session Aux World) (ptr : FidPtr) :
    s.Shows ptr (s.fidAt ptr) { s.modify ptr (.addRef 1) with reqFid := some ptr } := by
  constructor <;> cases live : s.fids.get ptr <;>
    simp [Session.load, Session.modify, Session.fidAt, live, Npfid.addRef, Npfid.new]

theorem Session.Shows.load {β : Type} (shows : s.Shows ptr f t) (field : Npfid Aux → β)
    (junk : β) : s.Shows ptr f (t.load ptr field junk).2 := by
  obtain ⟨conn, srv, type, omode, diroffset⟩ := shows
  cases live : t.fids.get ptr <;> constructor <;> simp_all [Session.load]

/-- An operation that reads is passed. -/
theorem refused_reading {α : Type} {first : Serve α} {rest : α → Serve (Option Npfcall)} {value : α}
    (quiet : ∀ event ∈ first.events (exec env) t, event.1.transfers = false)
    (read : (first.run (exec env) t).1 = value)
    (kept : s.Shows ptr f (first.run (exec env) t).2)
    (onward : ∀ t, s.Shows ptr f t → Refused env t (rest value)) :
    Refused env t (first >>= rest) :=
  (refused_bind first rest).mpr ⟨quiet, read ▸ onward _ kept⟩

theorem refused_conn (shows : s.Shows ptr f t) {rest : Npconn → Serve (Option Npfcall)}
    (onward : ∀ t, s.Shows ptr f t → Refused env t (rest s.conn)) :
    Refused env t (Serve.conn >>= rest) :=
  refused_reading (by simp [Op.transfers]) shows.conn shows onward

theorem refused_srv (shows : s.Shows ptr f t) {rest : Npsrv → Serve (Option Npfcall)}
    (onward : ∀ t, s.Shows ptr f t → Refused env t (rest s.srv)) :
    Refused env t (Serve.srv >>= rest) :=
  refused_reading (by simp [Serve.srv, Op.transfers]) shows.srv shows onward

theorem refused_type (shows : s.Shows ptr f t) {rest : UInt16 → Serve (Option Npfcall)}
    (onward : ∀ t, s.Shows ptr f t → Refused env t (rest f.type)) :
    Refused env t (Serve.type ptr >>= rest) :=
  refused_reading (by simp [Op.transfers]) shows.type (shows.load _ _) onward

theorem refused_omode (shows : s.Shows ptr f t) {rest : UInt16 → Serve (Option Npfcall)}
    (onward : ∀ t, s.Shows ptr f t → Refused env t (rest f.omode)) :
    Refused env t (Serve.omode ptr >>= rest) :=
  refused_reading (by simp [Op.transfers]) shows.omode (shows.load _ _) onward

theorem refused_diroffset (shows : s.Shows ptr f t) {rest : UInt32 → Serve (Option Npfcall)}
    (onward : ∀ t, s.Shows ptr f t → Refused env t (rest f.diroffset)) :
    Refused env t (Serve.diroffset ptr >>= rest) :=
  refused_reading (by simp [Op.transfers]) shows.diroffset (shows.load _ _) onward

end Shows

/-- A handler looks at its fid. -/
theorem refused_withFid {fid : UInt32} {rest : FidPtr → Serve (Option Npfcall)}
    (onward : ∀ ptr, s.pool fid = some ptr → ∀ t, s.Shows ptr (s.fidAt ptr) t →
      Refused env t (rest ptr)) : Refused env s (withFid fid rest) := by
  cases named : s.pool fid with
  | none => simp [withFid, refused_bind, Op.transfers, named]
  | some ptr =>
      have found := onward ptr named _ (shows_found s ptr)
      simpa [withFid, refused_bind, Op.transfers, named] using found

theorem refused_handler (turned : ¬ request.Admits s tc) :
    Refused env s (request.handler tc) := by
  cases request with
  | read =>
    refine refused_withFid fun ptr named t shows => refused_conn shows fun t shows => ?_
    split_ifs with large
    · exact refused_fail ..
    refine refused_type shows fun t shows => ?_
    have small : tc.count + IOHDRSZ ≤ s.conn.msize := UInt32.not_lt.mp large
    split_ifs with auth xattr
    · refine refused_srv shows fun t shows => ?_
      split_ifs with none
      · exact refused_fail ..
      · refine absurd ⟨ptr, named, small, ?_⟩ turned
        simpa [auth] using none
    · exact absurd ⟨ptr, named, small, by simp [auth, xattr]⟩ turned
    · refine refused_omode shows fun t shows => ?_
      split_ifs with closed
      · exact refused_fail ..
      refine refused_diroffset shows fun t shows => ?_
      split_ifs with astray
      · exact refused_fail ..
      · exact absurd ⟨ptr, named, small, by simp [auth, xattr, closed, astray]⟩ turned
  | write =>
    refine refused_withFid fun ptr named t shows => refused_type shows fun t shows => ?_
    split_ifs with auth xattr
    · refine refused_srv shows fun t shows => ?_
      split_ifs with none
      · exact refused_fail ..
      · refine absurd ⟨ptr, named, ?_⟩ turned
        simpa [auth] using none
    · exact absurd ⟨ptr, named, by simp [auth, xattr]⟩ turned
    · refine refused_omode shows fun t shows => ?_
      split_ifs with closed
      · exact refused_fail ..
      refine refused_conn shows fun t shows => ?_
      split_ifs with large
      · exact refused_fail ..
      · have small : tc.count + IOHDRSZ ≤ s.conn.msize := UInt32.not_lt.mp large
        exact absurd ⟨ptr, named, by simp [auth, xattr, closed, small]⟩ turned
  | readdir =>
    refine refused_withFid fun ptr named t shows => refused_conn shows fun t shows => ?_
    split_ifs with large
    · exact refused_fail ..
    refine refused_omode shows fun t shows => refused_type shows fun t shows => ?_
    split_ifs with closed
    · exact refused_fail ..
    · exact absurd ⟨ptr, named, UInt32.not_lt.mp large, closed⟩ turned

theorem npHandle_request (typed : tc.type = request.type.code) :
    npHandle tc = request.handler tc := by
  have named : ¬ request.type.code < 6 := by cases request <;> decide
  rw [npHandle, npHandler, typed, if_neg named]
  cases request <;> rfl

/-- An operation that does not read or write. -/
def Op.Unasked (op : Op) : Prop := op.transfers = false

theorem npFidDecref_unasked (fid : Option FidPtr) :
    (npFidDecref fid).Always (fun _ _ => True) Op.Unasked fun _ => True := by
  refine always_npFidDecref (fun _ _ op allowed => ?_) trivial
  cases op with
  | call callback => rcases allowed with rfl | rfl <;> rfl
  | _ => rfl

theorem sendReply_unasked (tc : Npfcall) (rc : Option Npfcall) :
    (sendReply tc rc).Always (fun _ _ => True) Op.Unasked fun _ => True := by
  cases rc with
  | none => trivial
  | some rc =>
      simp [sendReply, npRespond, Op.Unasked, Op.transfers]
      intro fid
      have dropped := npFidDecref_unasked fid
      cases fid <;> split_ifs <;> simp [Op.Unasked, Op.transfers, dropped]

theorem finish_unasked (rc : Option Npfcall) : (finish npErrnoToLinux tc none rc).Always
    (fun _ _ => True) Op.Unasked fun _ => True := by
  simp [finish, errorReply, Option.forall, Op.Unasked, Op.transfers, sendReply_unasked]

/-- A request that the handler turns down is answered with an error. -/
theorem refused_serve (typed : tc.type = request.type.code) (turned : ¬ request.Admits s tc) :
    (∃ rc, ((serve npErrnoToLinux tc none).run (exec env) s).1 = some rc ∧ rc.Failed) ∧
      ((serve npErrnoToLinux tc none).events (exec env) s).any (·.1.transfers) = false := by
  obtain ⟨error, unasked⟩ := @refused_handler _ _ env { s with error := none } tc request turned
  rw [← npHandle_request typed] at error unasked
  constructor
  · obtain ⟨reply, world, failed, run⟩ :=
      @finish_of_fails _ _ npErrnoToLinux env _ tc none
        ((npHandle tc).run (exec env) { s with error := none }).1 (.inl error)
    exact ⟨reply, by rw [run_serve, run], failed⟩
  · rw [events_serve, List.any_eq_false]
    intro event member
    rcases List.mem_cons.mp member with rfl | member
    · exact Bool.false_ne_true
    rw [Bool.not_eq_true]
    rcases List.mem_append.mp member with member | member
    · exact unasked event member
    · exact (@Always.run _ _ _ _ _ _ _ _ _ (fun _ => True) _ (finish_unasked _)
        (fun _ _ _ _ => trivial) (fun _ _ _ _ => trivial) trivial).2.2 event member

end Refused

/-! ## Runs -/

section Runs

variable {npErrnoToLinux : UInt32 → UInt32} {env : Env Aux World} {s : Session Aux World}
  {tc rc : Npfcall} {m : UInt32}

theorem finish_clear {rc : Option Npfcall} (clear : s.error = none) :
    ((finish npErrnoToLinux tc none rc).run (exec env) s).1 = rc.map (npSetTag · tc.tag) := by
  rw [finish, run_bind, run_errorReply_none clear, Option.or_none]
  cases rc with
  | none => rfl
  | some rc =>
      simp only [sendReply, run_bind, npRespond_fst]
      rfl

/-- An `Rversion` settles the size that was offered. -/
theorem settled_serve (typed : tc.type = MsgType.tversion.code)
    (replied : ((serve npErrnoToLinux tc none).run (exec env) s).1 = some rc)
    (settled : rc.settled = some m) : m = s.offer tc.msize ∧ 24 ≤ m.toNat := by
  have version : npHandle tc = npVersion tc := by
    rw [npHandle, npHandler, typed]
    rfl
  have kind : rc.type = MsgType.rversion.code := by
    by_contra other
    simp [Npfcall.settled, other] at settled
  rw [run_serve, version] at replied
  rcases run_npVersion env { s with error := none } tc with
    ⟨e, failed⟩ | ⟨ver, dotu, dotl, heap, chosen, large, created, clear⟩
  · obtain ⟨reply, world, error, run⟩ := @finish_of_fails _ _ npErrnoToLinux env
      { s with error := some e } tc none none (.inl ⟨e, rfl⟩)
    rw [failed] at replied
    obtain rfl := Option.some.inj ((congrArg Prod.fst run).symm.trans replied)
    rcases error with type | type <;> rw [type] at kind <;> cases kind
  · rw [finish_clear clear, created] at replied
    obtain ⟨fc, given, rfl⟩ := Option.map_eq_some_iff.mp replied
    have offered : fc.msize = s.offer tc.msize := settled_rversion chosen given
    rw [Npfcall.settled, if_pos kind] at settled
    obtain rfl : fc.msize = m := Option.some.inj settled
    exact ⟨offered, offered ▸ large⟩

/-- What is known of every run. -/
structure Dialogue.Sound (d : Dialogue Aux World) : Prop where
  keeps : d.KeepsMsize
  large : ∀ m, d.msize = some m → 24 ≤ m.toNat

theorem settings_run {α : Type} (env : Env Aux World) (program : Serve α)
    (s : Session Aux World) :
    ((program.run (exec env) s).2.srv.msize, (program.run (exec env) s).2.conn.msize) =
      (s.srv.msize, s.conn.msize) :=
  run_preserves (exec env) (fun t : Session Aux World => (t.srv.msize, t.conn.msize))
    (fun op t => by rw [(exec_settings env op t).1, exec_msize env op t]) program s

/-- A request that fits keeps to the promise. -/
theorem kept_request {d : Dialogue Aux World} (large : ∀ m, d.msize = some m → 24 ≤ m.toNat)
    (fits : d.Fits npErrnoToLinux env (.request tc)) :
    Exchange.Kept d.session.srv.msize d.session.conn.msize ⟨d.msize, .request tc,
      ((serve npErrnoToLinux tc none).run (exec env) { d.session with reqFid := none }).1,
      ((serve npErrnoToLinux tc none).events (exec env)
        { d.session with reqFid := none }).any (·.1.transfers)⟩ := by
  constructor
  · rintro tc' rc m ⟨⟩ typed replied settled
    obtain ⟨rfl, -⟩ := settled_serve typed replied settled
    exact offer_le _ _
  · intro other m rc negotiated replied
    have short := reply_short (large m negotiated) (fits other m negotiated)
    rw [show ((serve npErrnoToLinux tc none).run (exec env) _).1 = some rc from replied] at short
    exact UInt32.le_iff_toNat_le.mpr short
  · rintro tc' m request ⟨⟩ negotiated typed more
    have other : tc.type ≠ MsgType.tversion.code := by
      rw [typed]
      cases request <;> decide
    exact refused_serve typed ((fits other m negotiated).turned request typed more)

/-- A reply that fits keeps to the promise. -/
theorem kept_respond {d : Dialogue Aux World} {fid : Option FidPtr}
    (fits : d.Fits npErrnoToLinux env (.respond fid tc rc)) :
    Exchange.Kept d.session.srv.msize d.session.conn.msize ⟨d.msize, .respond fid tc rc,
      some ((npRespond tc rc).run (exec env) { d.session with reqFid := fid }).1, false⟩ := by
  constructor
  · rintro tc' rc' m ⟨⟩
  · intro _ m rc' negotiated replied
    obtain rfl := Option.some.inj replied
    rw [npRespond_fst]
    exact fits m negotiated
  · rintro tc' m request ⟨⟩

/-- The next exchange is kept as well. -/
theorem sound_append {d d' : Dialogue Aux World} {exchange : Exchange} (sound : d.Sound)
    (settings : (d'.session.srv.msize, d'.session.conn.msize) =
      (d.session.srv.msize, d.session.conn.msize))
    (log : d'.log = d.log ++ [exchange])
    (kept : exchange.Kept d.session.srv.msize d.session.conn.msize)
    (large : ∀ m, d'.msize = some m → 24 ≤ m.toNat) : d'.Sound := by
  obtain ⟨srv, conn⟩ := Prod.mk.inj settings
  refine ⟨fun exchange' member => ?_, large⟩
  rw [srv, conn]
  rw [log] at member
  rcases List.mem_append.mp member with member | member
  · exact sound.keeps exchange' member
  · obtain rfl := List.mem_singleton.mp member
    exact kept

/-- A step that fits keeps what is known. -/
theorem sound_next {d d' : Dialogue Aux World} {arrival : Arrival} (sound : d.Sound)
    (fits : d.Fits npErrnoToLinux env arrival)
    (taken : d.next npErrnoToLinux env arrival = some d') : d'.Sound := by
  cases arrival with
  | request tc =>
    obtain rfl := Option.some.inj taken
    refine sound_append sound (settings_run env _ _) rfl (kept_request sound.large fits) ?_
    intro m negotiated
    change (if tc.type = MsgType.tversion.code then _ else d.msize) = some m at negotiated
    split_ifs at negotiated with typed
    · obtain ⟨rc, replied, settled⟩ := Option.bind_eq_some_iff.mp negotiated
      exact (settled_serve typed replied settled).2
    · exact sound.large m negotiated
  | respond fid tc rc =>
    obtain rfl := Option.some.inj taken
    exact sound_append sound (settings_run env (npRespond tc rc) _) rfl (kept_respond fits)
      sound.large

end Runs

/-- A file server that attaches, opens and reads whatever it is asked for. -/
def Env.serving : Env Unit Unit :=
  let served {α : Type} (reply : α) : Outcome Unit Unit α := ⟨reply, none, false, none, ()⟩
  { Env.silent with
    answer := fun callback _ _ => match callback with
      | .uid2user _ => served (some (0 : UserPtr))
      | .attach .. => { served (some { (default : Npfcall) with type := MsgType.rattach.code }) with
          takesRef := true }
      | .openFid .. => served (some { (default : Npfcall) with type := MsgType.ropen.code })
      | .read _ _ count => served (some { (default : Npfcall) with
          size := 11 + count, type := MsgType.rread.code, count })
      | callback => served callback.silence }

end Npfs
