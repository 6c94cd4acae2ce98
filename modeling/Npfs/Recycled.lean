import Npfs.FailedRequest
import Npfs.Packet

/-!
# Recycled messages

`np_conn_new_incall` hands out messages that hold the fields of an earlier request, and
`np_deserialize` assigns only the fields of the message type.  A handler that reads another field
serves a request with what an earlier one has left there.
-/

namespace Npfs

open Serve Program LittleEndian

/-- Whatever the file server answers and whatever fids there are, the two messages are served the
same way: with the same reply, the same fids, and the same calls of the file server, which `env` can
record in its world. -/
def ServedAlike (dotu : Bool) (m m' : Npfcall) : Prop :=
  ∀ {Aux World : Type} (npErrnoToLinux : UInt32 → UInt32) (env : Env Aux World)
    (s : Session Aux World), s.conn.dotu = dotu →
      (npProcessRequest npErrnoToLinux m).run (exec env) s =
        (npProcessRequest npErrnoToLinux m').run (exec env) s

/-- The message that `np_deserialize` makes of a packet in a recycled one. -/
def recycle (old : Npfcall) (data : List UInt8) (dotu : Bool) : Option Npfcall :=
  npDeserialize { old with pkt := data } data dotu

/-- A packet is served the same way whatever the recycled message held. -/
def LeaksNothing (data : List UInt8) (dotu : Bool) : Prop :=
  ∀ old old' m m', recycle old data dotu = some m → recycle old' data dotu = some m' →
    ServedAlike dotu m m'

/-- Only the fields that were assigned are read: always for most T-messages, and for the R-messages
whose handler reads nothing else than a fid, a mask or what it has in common with the
T-message. -/
def MsgType.Settled (dotu : Bool) (m : Npfcall) : MsgType → Prop
  /- `np_lcreate` and `np_mknod` look at the `mode` for directories. -/
  | .tlcreate | .tmknod => m.perm &&& Dmdir = 0
  /- `np_wstat` passes the numeric ids on when its tests pass. -/
  | .twstat =>
    dotu ∨ m.stat.type ≠ 0xFFFF ∨ m.stat.dev ≠ 0xFFFFFFFF ∨ m.stat.qid.version ≠ 0xFFFFFFFF ∨
      m.stat.qid.path ≠ 0xFFFFFFFFFFFFFFFF
  /- `np_setattr` passes on attributes that cannot be set. -/
  | .tsetattr => False
  | .rauth | .rflush | .rwalk | .ropen | .rcreate | .rread | .rwrite | .rwstat | .rlopen | .rlcreate
  | .rsymlink | .rmknod | .rrename | .rsetattr | .rxattrcreate | .rreaddir | .rlock | .rlink
  | .rmkdir | .rrenameat | .runlinkat => False
  | _ => True

/-! ## What the parser assigns -/

section Uniform

variable {σ α : Type} {shape : (σ → α) → Prop}

/-- Whatever record the parser is given, it does the same to the packet, and it changes the record
in a way of this shape. -/
def Uniform (shape : (σ → α) → Prop) (parser : σ → Get (Option α)) : Prop :=
  ∀ buf : Cbuf, (∃ buf', ∀ fc, (parser fc).run GetOp.exec buf = (none, buf')) ∨
    ∃ update buf', shape update ∧ ∀ fc, (parser fc).run GetOp.exec buf = (some (update fc), buf')

theorem uniform_step {op : GetOp} {rest : op.Reply → σ → Get (Option α)}
    (uniform : ∀ reply, Uniform shape (rest reply)) :
    Uniform shape fun fc => .step op fun reply => rest reply fc :=
  fun _ => uniform _ _

theorem uniform_done {update : σ → α} (shaped : shape update) :
    Uniform shape fun fc => (pure (some (update fc)) : Get (Option α)) :=
  fun buf => .inr ⟨update, buf, shaped, fun _ => rfl⟩

theorem uniform_reject : Uniform shape fun _ => (pure none : Get (Option α)) :=
  fun buf => .inl ⟨buf, fun _ => rfl⟩

theorem uniform_int8 {rest : UInt8 → σ → Get (Option α)}
    (uniform : ∀ value, Uniform shape (rest value)) :
    Uniform shape fun fc => getInt8 >>= fun value => rest value fc := uniform_step uniform

theorem uniform_int16 {rest : UInt16 → σ → Get (Option α)}
    (uniform : ∀ value, Uniform shape (rest value)) :
    Uniform shape fun fc => getInt16 >>= fun value => rest value fc := uniform_step uniform

theorem uniform_int32 {rest : UInt32 → σ → Get (Option α)}
    (uniform : ∀ value, Uniform shape (rest value)) :
    Uniform shape fun fc => getInt32 >>= fun value => rest value fc := uniform_step uniform

theorem uniform_int64 {rest : UInt64 → σ → Get (Option α)}
    (uniform : ∀ value, Uniform shape (rest value)) :
    Uniform shape fun fc => getInt64 >>= fun value => rest value fc := uniform_step uniform

theorem uniform_alloc {len : Int} {rest : Option Int → σ → Get (Option α)}
    (uniform : ∀ value, Uniform shape (rest value)) :
    Uniform shape fun fc => getAlloc len >>= fun value => rest value fc := uniform_step uniform

theorem uniform_str {rest : Npstr → σ → Get (Option α)}
    (uniform : ∀ value, Uniform shape (rest value)) :
    Uniform shape fun fc => bufGetStr >>= fun value => rest value fc :=
  uniform_int16 fun _ => uniform_alloc fun _ => uniform _

theorem uniform_qid {rest : Npqid → σ → Get (Option α)}
    (uniform : ∀ value, Uniform shape (rest value)) :
    Uniform shape fun fc => bufGetQid >>= fun value => rest value fc :=
  uniform_int8 fun _ => uniform_int32 fun _ => uniform_int64 fun _ => uniform _

theorem uniform_statfs {rest : Npstatfs → σ → Get (Option α)}
    (uniform : ∀ value, Uniform shape (rest value)) :
    Uniform shape fun fc => bufGetStatfs >>= fun value => rest value fc :=
  uniform_int32 fun _ => uniform_int32 fun _ => uniform_int64 fun _ => uniform_int64 fun _ =>
    uniform_int64 fun _ => uniform_int64 fun _ => uniform_int64 fun _ => uniform_int64 fun _ =>
      uniform_int32 fun _ => uniform _

/-- What `buf_get_stat` makes of a record: without `dotu` the numeric ids stay. -/
def statFilled (dotu : Bool) (read stat : Npstat) : Npstat :=
  if dotu then read else { read with nUid := stat.nUid, nGid := stat.nGid, nMuid := stat.nMuid }

theorem uniform_stat {dotu : Bool} {view : σ → Npstat} {rest : Npstat → σ → Get (Option α)}
    (uniform : ∀ read, Uniform shape fun fc => rest (statFilled dotu read (view fc)) fc) :
    Uniform shape fun fc => bufGetStat (view fc) dotu >>= fun value => rest value fc := by
  simp only [bufGetStat, bind_assoc]
  refine uniform_int16 fun size => uniform_int16 fun type => uniform_int32 fun dev =>
    uniform_qid fun qid => uniform_int32 fun mode => uniform_int32 fun atime =>
    uniform_int32 fun mtime => uniform_int64 fun length => uniform_str fun name =>
    uniform_str fun uid => uniform_str fun gid => uniform_str fun muid => ?_
  cases dotu with
  | false => exact uniform ⟨size, type, dev, qid, mode, atime, mtime, length, name, uid, gid, muid,
      npStrzero, 0, 0, 0⟩
  | true =>
      simp only [if_true, bind_assoc]
      exact uniform_str fun extension => uniform_int32 fun nUid => uniform_int32 fun nGid =>
        uniform_int32 fun nMuid => uniform ⟨size, type, dev, qid, mode, atime, mtime, length, name,
          uid, gid, muid, extension, nUid, nGid, nMuid⟩

/-- The first entries do not depend on what was in the array. -/
def FillsFirst {β : Type} (i n : Nat) (fill : Vector β MAXWELEM → Vector β MAXWELEM) : Prop :=
  ∀ entries entries', (∀ j < i, entries[j]? = entries'[j]?) →
    ∀ j < i + n, (fill entries)[j]? = (fill entries')[j]?

theorem uniform_wnames {n i : Nat} {view : σ → Vector Npstr MAXWELEM}
    {rest : Vector Npstr MAXWELEM → σ → Get (Option α)}
    (uniform : ∀ fill, FillsFirst i n fill → Uniform shape fun fc => rest (fill (view fc)) fc) :
    Uniform shape fun fc => getWnames n i (view fc) >>= fun value => rest value fc := by
  induction n generalizing i view with
  | zero => exact uniform id fun _ _ same => same
  | succ n ih =>
      simp only [getWnames, bind_assoc]
      refine uniform_str fun name => ?_
      apply @ih (i + 1) fun fc => (view fc).setIfInBounds i name
      intro fill first
      apply uniform fun entries => fill (entries.setIfInBounds i name)
      intro entries entries' same j inside
      refine first _ _ (fun j before => ?_) j (by omega)
      rcases Nat.lt_succ_iff_lt_or_eq.mp before with below | rfl
      · simp only [Vector.getElem?_setIfInBounds, if_neg below.ne', same j below]
      · simp only [Vector.getElem?_setIfInBounds, if_true]

theorem uniform_wqids {n i : Nat} {view : σ → Vector Npqid MAXWELEM}
    {rest : Vector Npqid MAXWELEM → σ → Get (Option α)}
    (uniform : ∀ fill : Vector Npqid MAXWELEM → Vector Npqid MAXWELEM,
      Uniform shape fun fc => rest (fill (view fc)) fc) :
    Uniform shape fun fc => getWqids n i (view fc) >>= fun value => rest value fc := by
  induction n generalizing i view with
  | zero => exact uniform id
  | succ n ih =>
      simp only [getWqids, bind_assoc]
      refine uniform_qid fun qid => ?_
      apply @ih (i + 1) fun fc => (view fc).setIfInBounds i qid
      exact fun fill => uniform fun entries => fill (entries.setIfInBounds i qid)

end Uniform

/-! ## Messages that are served alike -/

/-- The handler of a message type. -/
def MsgType.handle (type : MsgType) (m : Npfcall) : Serve (Option Npfcall) :=
  match npFcalls (type.code.toNat / 2 * 2) with
  | some f => f m
  | none => fail (cstr "unsupported message") ENOSYS

theorem npHandle_eq {type : MsgType} {m : Npfcall} (typed : m.type = type.code) :
    npHandle m = type.handle m := by
  have named : ¬ type.code < 6 := by cases type <;> decide
  have handler : npHandler m = npFcalls (type.code.toNat / 2 * 2) := by
    rw [npHandler, typed, if_neg named]
  cases found : npFcalls (type.code.toNat / 2 * 2) with
  | none => simp only [npHandle, MsgType.handle, handler, found]
  | some f => simp only [npHandle, MsgType.handle, handler, found]

theorem servedAlike_of_handle {dotu : Bool} {type : MsgType} {m m' : Npfcall}
    (typed : m.type = type.code) (typed' : m'.type = type.code)
    (same : type.handle m = type.handle m') : ServedAlike dotu m m' := by
  intro Aux World npErrnoToLinux env s _
  rw [npProcessRequest_eq, npProcessRequest_eq, npHandle_eq typed, npHandle_eq typed', same]

/-- The message at the point where its type is known. -/
def started (size : UInt32) (tag : UInt16) (data : List UInt8) (type : MsgType) (old : Npfcall) :
    Npfcall :=
  { old with
    size, tag, type := type.code, pkt := data, fid := NOFID, afid := NOFID, newfid := NOFID }

/-- Whether the messages that come out depend on what was in the recycled one. -/
def Settles (dotu : Bool) (type : MsgType) (update : Npfcall → Npfcall) : Prop :=
  (∀ old, (update old).type = type.code) ∧
    (type.Settled dotu (update default) ↔
      ∀ old old', ServedAlike dotu (update old) (update old'))

theorem settles_of_handle {dotu : Bool} {type : MsgType} {update : Npfcall → Npfcall}
    (settled : type.Settled dotu (update default)) (typed : ∀ old, (update old).type = type.code)
    (same : ∀ old old', type.handle (update old) = type.handle (update old')) :
    Settles dotu type update :=
  ⟨typed, iff_of_true settled fun old old' =>
    servedAlike_of_handle (typed old) (typed old') (same old old')⟩

/-! ## Messages that are not -/

/-- A file server that only records the last call, or the last tag to be flushed. -/
def Env.recording : Env Unit (Option (Callback ⊕ UInt16)) where
  answer callback _ _ := ⟨callback.silence, none, false, none, some (.inl callback)⟩
  malloc world := (⟨default, fun _ => 0⟩, world)
  flush oldtag _ := (false, some (.inr oldtag))
  reset _ world := world

/-- A connection with one fid. -/
def Session.holding (dotu : Bool) (fid : UInt32) (omode type : UInt16) :
    Session Unit (Option (Callback ⊕ UInt16)) where
  srv := { msize := 0xFFFFFFFF, dotu, dotl := false, auth := none, fiddestroy := false }
  conn := { msize := 0xFFFFFFFF, dotu, dotl := false }
  fids := Cells.empty.push
    { fid, refcount := 1, omode, type, diroffset := 0, user := some 0, aux := none }
  pool := fun n => if n = fid then some 0 else none
  users := fun _ => 0
  error := none
  reqFid := none
  world := none
  fault := false

/-- The last call that a handler makes. -/
def recorded (program : Serve (Option Npfcall)) (s : Session Unit (Option (Callback ⊕ UInt16))) :
    Option (Callback ⊕ UInt16) :=
  (program.run (exec Env.recording) s).2.world

theorem not_servedAlike {dotu : Bool} {type : MsgType} {m m' : Npfcall}
    {s : Session Unit (Option (Callback ⊕ UInt16))} (typed : m.type = type.code)
    (typed' : m'.type = type.code) (clear : s.error = none) (same : s.conn.dotu = dotu)
    (differ : recorded (type.handle m) s ≠ recorded (type.handle m') s) :
    ¬ ServedAlike dotu m m' := by
  intro alike
  apply differ
  have kept (rc : Option Npfcall) (s : Session Unit (Option (Callback ⊕ UInt16))) :
      ((errorReply id rc).run (exec Env.recording) s).2.world = s.world := by
    cases error : s.error with
    | none => rw [run_errorReply_none error]
    | some e =>
        by_cases dotl : s.conn.dotl <;> simp [errorReply, run_bind, error, dotl, Env.recording]
  have last (m : Npfcall) (typed : m.type = type.code) :
      ((npProcessRequest id m).run (exec Env.recording) s).2.world =
        recorded (type.handle m) s := by
    rw [npProcessRequest_eq, npHandle_eq typed, run_bind, run_npWerrorNone, run_bind, kept,
      recorded, ← clear]
  rw [← last m typed, ← last m' typed', alike id Env.recording s same]

section Recorded

variable {dotu : Bool} {k : UInt32} {omode type : UInt16} {m : Npfcall}

@[simp] theorem holding_pool : (Session.holding dotu k omode type).pool k = some 0 := by
  simp [Session.holding]

@[simp] theorem holding_get : (Session.holding dotu k omode type).fids.get 0 =
    some ⟨k, 1, omode, type, 0, some 0, none⟩ := rfl

@[simp] theorem holding_conn :
    (Session.holding dotu k omode type).conn = ⟨0xFFFFFFFF, dotu, false⟩ := rfl

@[simp] theorem holding_srv : (Session.holding dotu k omode type).srv =
    ⟨0xFFFFFFFF, dotu, false, none, false⟩ := rfl

@[simp] theorem recording_world (callback : Callback) (fids : FidPtr → Option (Npfid Unit))
    (world : Option (Callback ⊕ UInt16)) :
    (Env.recording.answer callback fids world).world = some (.inl callback) := rfl

@[simp] theorem recording_reply (callback : Callback) (fids : FidPtr → Option (Npfid Unit))
    (world : Option (Callback ⊕ UInt16)) :
    (Env.recording.answer callback fids world).reply = callback.silence := rfl

/-- The operations that neither call the file server nor ask for memory. -/
def Op.Idle : Op → Prop
  | .call _ | .malloc | .flush _ | .connReset .. => False
  | _ => True

theorem exec_idle {Aux World : Type} (env : Env Aux World) {op : Op} (idle : op.Idle)
    (s : Session Aux World) :
    (exec env op s).2.srv = s.srv ∧ (exec env op s).2.world = s.world := by
  have loaded {β : Type} (fid : FidPtr) (field : Npfid Aux → β) (junk : β) :
      (s.load fid field junk).2.srv = s.srv ∧ (s.load fid field junk).2.world = s.world := by
    unfold Session.load
    split <;> exact ⟨rfl, rfl⟩
  cases op with
  | fidCreate fid =>
      simp only [exec]
      split <;> exact ⟨rfl, rfl⟩
  | fidUnlink fid =>
      simp only [exec]
      split
      · split <;> exact ⟨rfl, rfl⟩
      · exact ⟨rfl, rfl⟩
  | userIncref user => cases user <;> exact ⟨rfl, rfl⟩
  | omode fid | type fid | diroffset fid | user fid => exact loaded _ _ _
  | call | malloc | flush | connReset => exact idle.elim
  | _ => exact ⟨rfl, rfl⟩

/-- The server is the one that is given. -/
def Op.Serves (srv : Npsrv) : (op : Op) → op.Reply → Prop
  | .srv, reply => reply = srv
  | _, _ => True

/-- Nobody is told of a fid that is given up when there is nobody to tell. -/
theorem npFidDecref_world {Aux World : Type} (env : Env Aux World) (fid : Option FidPtr)
    {s : Session Aux World} (auth : s.srv.auth = none) (quiet : s.srv.fiddestroy = false) :
    ((npFidDecref fid).run (exec env) s).2.world = s.world := by
  have always : (npFidDecref fid).Always (Op.Serves s.srv) Op.Idle fun _ => True := by
    cases fid with
    | none => trivial
    | some fid =>
        simp [npFidDecref, npFidDestroy, fidDecref, fidUnlink, fidFree, Op.Idle, Op.Serves, auth,
          quiet]
        intro user
        cases user <;> simp [Op.Idle]
  have replies (op : Op) (s' : Session Aux World) (kept : s'.srv = s.srv ∧ s'.world = s.world)
      (_ : op.Idle) : op.Serves s.srv (exec env op s').1 := by
    cases op <;> first | exact kept.1 | exact trivial
  have steps (op : Op) (s' : Session Aux World) (kept : s'.srv = s.srv ∧ s'.world = s.world)
      (idle : op.Idle) : (exec env op s').2.srv = s.srv ∧ (exec env op s').2.world = s.world := by
    obtain ⟨srv, world⟩ := exec_idle env idle s'
    exact ⟨srv.trans kept.1, world.trans kept.2⟩
  exact (always.run replies steps ⟨rfl, rfl⟩).2.1.2

theorem not_large (count : UInt32) : ¬ (0xFFFFFFFF : UInt32) < count := by
  have bound := count.toNat_lt
  simp only [UInt32.lt_iff_toNat_lt, UInt32.reduceToNat]
  omega

theorem recorded_npOpen (fid : m.fid = k) :
    recorded (npOpen m) (.holding dotu k Onotopen 0) =
      some (.inl (.openFid 0 m.mode)) := by
  simp [recorded, npOpen, withFid, run_bind, fid, Session.modify, Session.load,
    call, exec, Session.afterCall, Callback.target, Npfid.addRef]

theorem recorded_npCreateFile (fid : m.fid = k) (perm : m.perm = 0) :
    recorded (npCreateFile m) (.holding dotu k Onotopen Qtdir) =
      some (.inl (.create 0 (m.text m.name) 0 m.mode (m.text m.extension))) := by
  have directory : Qtdir ≠ 0 := by decide
  simp [recorded, npCreateFile, inDirectory, withFid, run_bind, fid, perm, directory,
    Callback.silence, Session.modify, Session.load, call, exec, Session.afterCall, Callback.target,
    Npfid.addRef]

theorem recorded_npRead (fid : m.fid = k) :
    recorded (npRead m) (.holding dotu k 2 0) =
      some (.inl (.read 0 m.offset m.count)) := by
  have readable : (2 : UInt16) ≠ Onotopen ∧ (2 : UInt16) &&& 3 ≠ Owrite.toUInt16 := by decide
  simp [recorded, npRead, withFid, run_bind, fid, not_large, readable, Session.modify, Session.load,
    call, exec, Session.afterCall, Callback.target, Npfid.addRef]

theorem recorded_npWrite (fid : m.fid = k) :
    recorded (npWrite m) (.holding dotu k 2 0) =
      some (.inl (.write 0 m.offset m.count m.payload)) := by
  have writable : (2 : UInt16) ≠ Onotopen ∧ (2 : UInt16) &&& 3 ≠ Oread.toUInt16 := by decide
  simp [recorded, npWrite, withFid, run_bind, fid, not_large, writable, Session.modify,
    Session.load, call, exec, Session.afterCall, Callback.target, Npfid.addRef]

theorem recorded_npLopen (fid : m.fid = k) :
    recorded (npLopen m) (.holding dotu k omode type) =
      some (.inl (.lopen 0 m.flags)) := by
  simp [recorded, npLopen, withFid, run_bind, fid, Session.modify,
    call, exec, Session.afterCall, Callback.target, Npfid.addRef]

theorem recorded_npLcreate (fid : m.fid = k)
    (passes : ¬ (¬ m.perm &&& Dmdir = 0 ∧ ¬ m.mode = Oread)) :
    recorded (npLcreate m) (.holding dotu k Onotopen Qtdir) =
      some (.inl (.lcreate 0 (m.text m.name) m.flags m.perm m.gid)) := by
  have directory : Qtdir ≠ 0 := by decide
  simp [recorded, npLcreate, inDirectory, withFid, run_bind, fid, passes, directory,
    Callback.silence, Session.modify, Session.load, call, exec, Session.afterCall, Callback.target,
    Npfid.addRef]

theorem recorded_npSymlink (fid : m.dfid = k) :
    recorded (npSymlink m) (.holding dotu k Onotopen Qtdir) =
      some (.inl (.symlink 0 (m.text m.name) (m.text m.symtgt) m.gid)) := by
  have directory : Qtdir ≠ 0 := by decide
  simp [recorded, npSymlink, inDirectory, withFid, run_bind, fid, directory, Session.modify,
    Session.load, call, exec, Session.afterCall, Callback.target, Npfid.addRef]

theorem recorded_npMknod (fid : m.fid = k)
    (passes : ¬ (¬ m.perm &&& Dmdir = 0 ∧ ¬ m.mode = Oread)) :
    recorded (npMknod m) (.holding dotu k Onotopen Qtdir) =
      some (.inl (.mknod 0 (m.text m.name) m.perm m.major m.minor m.gid)) := by
  have directory : Qtdir ≠ 0 := by decide
  simp [recorded, npMknod, inDirectory, withFid, run_bind, fid, passes, directory, Session.modify,
    Session.load, call, exec, Session.afterCall, Callback.target, Npfid.addRef]

theorem recorded_npRename (fid : m.fid = k) (dfid : m.dfid = k) :
    recorded (npRename m) (.holding dotu k omode type) =
      some (.inl (.rename 0 0 (m.text m.name))) := by
  simp [recorded, npRename, npFidDecref_world, withFid, run_bind, fid, dfid, Session.modify,
    call, exec, Session.afterCall, Callback.target, Npfid.addRef]

theorem recorded_npSetattr (fid : m.fid = k) :
    recorded (npSetattr m) (.holding dotu k omode type) =
      some (.inl (.setattr 0 m.attrs)) := by
  simp [recorded, npSetattr, withFid, run_bind, fid, Session.modify,
    call, exec, Session.afterCall, Callback.target, Npfid.addRef]

theorem recorded_npXattrcreate (fid : m.fid = k) :
    recorded (npXattrcreate m) (.holding dotu k omode 0) =
      some (.inl (.xattrcreate 0 (m.text m.name) m.asize m.flags)) := by
  simp [recorded, npXattrcreate, withFid, run_bind, fid, Callback.silence, Session.modify,
    Session.load, call, exec, Session.afterCall, Callback.target, Npfid.addRef]

theorem recorded_npReaddir (fid : m.fid = k) :
    recorded (npReaddir m) (.holding dotu k 2 Qtdir) =
      some (.inl (.readdir 0 m.offset m.count)) := by
  have readable : (2 : UInt16) ≠ Onotopen ∧ (2 : UInt16) &&& 3 ≠ Owrite.toUInt16 := by decide
  have directory : Qtdir ≠ 0 := by decide
  simp [recorded, npReaddir, withFid, run_bind, fid, not_large, readable, directory, Session.modify,
    Session.load, call, exec, Session.afterCall, Callback.target, Npfid.addRef]

theorem recorded_npFlock (fid : m.fid = k) :
    recorded (npFlock m) (.holding dotu k omode type) =
      some (.inl (.flock 0 m.locktype m.flags m.offset m.locklength m.procid
        (m.text m.clientid))) := by
  simp [recorded, npFlock, withFid, run_bind, fid, Session.modify,
    call, exec, Session.afterCall, Callback.target, Npfid.addRef]

theorem recorded_npLink (fid : m.fid = k) (dfid : m.dfid = k) :
    recorded (npLink m) (.holding dotu k Onotopen Qtdir) =
      some (.inl (.link 0 0 (m.text m.name))) := by
  have directory : Qtdir ≠ 0 := by decide
  simp [recorded, npLink, npFidDecref_world, inDirectory, run_bind, fid, dfid, directory,
    Session.modify, Session.load, call, exec, Session.afterCall, Callback.target, Npfid.addRef]

theorem recorded_npMkdir (fid : m.fid = k) :
    recorded (npMkdir m) (.holding dotu k Onotopen Qtdir) =
      some (.inl (.mkdir 0 (m.text m.name) m.perm m.gid)) := by
  have directory : Qtdir ≠ 0 := by decide
  simp [recorded, npMkdir, inDirectory, withFid, run_bind, fid, directory, Session.modify,
    Session.load, call, exec, Session.afterCall, Callback.target, Npfid.addRef]

theorem recorded_npRenameat (fid : m.fid = k) (newfid : m.newfid = k) :
    recorded (npRenameat m) (.holding dotu k Onotopen Qtdir) =
      some (.inl (.renameat 0 (m.text m.oname) 0 (m.text m.name))) := by
  have directory : Qtdir ≠ 0 := by decide
  simp [recorded, npRenameat, npFidDecref_world, inDirectory, withFid, run_bind, fid, newfid,
    directory, Session.modify, Session.load, call, exec, Session.afterCall, Callback.target,
    Npfid.addRef]

theorem recorded_npUnlinkat (fid : m.fid = k) :
    recorded (npUnlinkat m) (.holding dotu k Onotopen Qtdir) =
      some (.inl (.unlinkat 0 (m.text m.name))) := by
  have directory : Qtdir ≠ 0 := by decide
  simp [recorded, npUnlinkat, inDirectory, run_bind, fid, directory, Session.modify, Session.load,
    call, exec, Session.afterCall, Callback.target, Npfid.addRef]

theorem recorded_npLcreate_none (fid : m.fid = k)
    (refused : ¬ m.perm &&& Dmdir = 0 ∧ ¬ m.mode = Oread) :
    recorded (npLcreate m) (.holding dotu k Onotopen Qtdir) = none := by
  have directory : Qtdir ≠ 0 := by decide
  simp [recorded, npLcreate, inDirectory, withFid, run_bind, fid, refused, directory,
    Session.modify, Session.load, Npfid.addRef]
  rfl

theorem recorded_npMknod_none (fid : m.fid = k)
    (refused : ¬ m.perm &&& Dmdir = 0 ∧ ¬ m.mode = Oread) :
    recorded (npMknod m) (.holding dotu k Onotopen Qtdir) = none := by
  have directory : Qtdir ≠ 0 := by decide
  simp [recorded, npMknod, inDirectory, withFid, run_bind, fid, refused, directory,
    Session.modify, Session.load, Npfid.addRef]
  rfl

theorem recorded_npWstat (fid : m.fid = k) (kept : m.stat.type = 0xFFFF ∧
    m.stat.dev = 0xFFFFFFFF ∧ m.stat.qid.version = 0xFFFFFFFF ∧
      m.stat.qid.path = 0xFFFFFFFFFFFFFFFF)
    (kind : type &&& Qtdir = 0 ↔ m.stat.mode &&& Dmdir = 0) :
    recorded (npWstat m) (.holding dotu k omode type) = some (.inl (.wstat 0 m.stat m.pkt)) := by
  obtain ⟨stat, dev, version, path⟩ := kept
  simp [recorded, npWstat, withFid, run_bind, fid, stat, dev, version, path, kind, Session.modify,
    Session.load, call, exec, Session.afterCall, Callback.target, Npfid.addRef]

theorem recorded_npAuth (other : m.afid ≠ k) (unnamed : m.uname.len = 0) :
    recorded (npAuth m) (.holding dotu k omode type) = some (.inl (.uid2user m.nUname)) := by
  have absent : (Session.holding dotu k omode type).pool m.afid = none := by
    simp [Session.holding, other]
  simp [recorded, npAuth, npStartAuth, npReqUser, run_bind, absent, run_npFidCreate absent, unnamed,
    npFidDecref_world, Session.modify, call, exec, Session.afterCall, Callback.target,
    Callback.silence]

theorem recorded_npFlush :
    recorded (npFlush m) (.holding dotu k omode type) = some (.inr m.oldtag) := rfl

theorem recorded_npWalk_none (fid : m.fid = k) (newfid : m.newfid = k) (nwname : m.nwname = 0) :
    recorded (npWalk m) (.holding dotu k Onotopen type) = none := by
  simp [recorded, npWalk, npWalkFrom, npWalkNames, run_bind, fid, newfid, nwname,
    npFidDecref_world, Session.modify, Session.load, Npfid.addRef]
  rfl

theorem recorded_npWalk_one (fid : m.fid = k) (newfid : m.newfid = k) (nwname : m.nwname = 1) :
    recorded (npWalk m) (.holding dotu k Onotopen type) =
      some (.inl (.walk 0 (m.text m.wnames[0]))) := by
  have first : List.take 1 (m.wnames.toList.map m.text) = [m.text m.wnames[0]] := by
    rw [List.take_one, List.head?_map, List.head?_eq_getElem?]
    simp
  simp [recorded, npWalk, npWalkFrom, npWalkNames, run_bind, fid, newfid, nwname, first,
    npFidDecref_world, Session.modify, Session.load, call, exec, Session.afterCall,
    Callback.target, Npfid.addRef, Callback.silence]

end Recorded

/-! ## The message types -/

section Types

variable {dotu : Bool} {type : MsgType} {update : Npfcall → Npfcall}

theorem servedAlike_of_run {m m' : Npfcall} (typed : m.type = type.code)
    (typed' : m'.type = type.code)
    (same : ∀ {Aux World : Type} (env : Env Aux World) (s : Session Aux World),
      (type.handle m).run (exec env) s = (type.handle m').run (exec env) s) :
    ServedAlike dotu m m' := by
  intro Aux World npErrnoToLinux env s _
  rw [npProcessRequest_eq, npProcessRequest_eq, npHandle_eq typed, npHandle_eq typed']
  simp only [run_bind, run_npWerrorNone, same]

theorem uniform_settled (settled : type.Settled dotu (update default))
    (typed : ∀ old, (update old).type = type.code)
    (same : ∀ old old', type.handle (update old) = type.handle (update old')) :
    Uniform (Settles dotu type) fun old => (pure (some (update old)) : Get (Option Npfcall)) :=
  uniform_done (settles_of_handle settled typed same)

/-- Two recycled messages from which different calls are made. -/
theorem uniform_unsettled (not : ¬ type.Settled dotu (update default))
    (typed : ∀ old, (update old).type = type.code) (old old' : Npfcall) {k : UInt32}
    {omode kind : UInt16} {last last' : Option (Callback ⊕ UInt16)}
    (first : recorded (type.handle (update old)) (.holding dotu k omode kind) = last)
    (second : recorded (type.handle (update old')) (.holding dotu k omode kind) = last')
    (differ : last ≠ last') :
    Uniform (Settles dotu type) fun old => (pure (some (update old)) : Get (Option Npfcall)) :=
  uniform_done ⟨typed, iff_of_false not fun all => not_servedAlike (typed old) (typed old') rfl rfl
    (by rwa [first, second]) (all old old')⟩

theorem npWalk_congr {m m' : Npfcall} (fid : m.fid = m'.fid) (newfid : m.newfid = m'.newfid)
    (nwname : m.nwname = m'.nwname)
    (names : (m.wnames.toList.take m.nwname.toNat).map m.text =
      (m'.wnames.toList.take m'.nwname.toNat).map m'.text) : npWalk m = npWalk m' := by
  have walk (target : FidPtr) : npWalkFrom m target = npWalkFrom m' target := by
    simp only [npWalkFrom, fid, newfid, nwname, ← names]
  simp only [npWalk, fid, newfid, nwname, walk]

/-- An R-message has no fid, so an `Rattach` attaches to `NOFID`, which it finds again as its
`afid`. -/
theorem run_npAttach_congr {Aux World : Type} {env : Env Aux World} {s : Session Aux World}
    {m m' : Npfcall} (fid : m.fid = NOFID) (fid' : m'.fid = NOFID) (afid : m.afid = NOFID)
    (afid' : m'.afid = NOFID) : (npAttach m).run (exec env) s = (npAttach m').run (exec env) s := by
  cases found : s.pool NOFID with
  | some other => simp [npAttach, run_bind, fid, fid', found]
  | none =>
      simp [npAttach, run_bind, fid, fid', afid, afid', found, run_npFidCreate found,
        Session.modify, Session.load, Npfid.new, Npfid.addRef]

theorem run_npXattrwalk_congr {Aux World : Type} {env : Env Aux World} {s : Session Aux World}
    {m m' : Npfcall} (fid : m.fid = NOFID) (fid' : m'.fid = NOFID) (newfid : m.newfid = NOFID)
    (newfid' : m'.newfid = NOFID) :
    (npXattrwalk m).run (exec env) s = (npXattrwalk m').run (exec env) s := by
  cases found : s.pool NOFID with
  | none => simp [npXattrwalk, withFid, run_bind, fid, fid', found]
  | some other =>
      simp [npXattrwalk, withFid, run_bind, fid, fid', newfid, newfid', found, Session.modify]

theorem uniform_getBody (size : UInt32) (tag : UInt16) (data : List UInt8) (dotu : Bool)
    (type : MsgType) (bytes : data ≠ []) :
    Uniform (Settles dotu type) fun old => getBody dotu (started size tag data type old) type := by
  cases type
  case tversion | rversion =>
    exact uniform_int32 fun _ => uniform_str fun _ =>
      uniform_settled trivial (fun _ => rfl) fun _ _ => rfl
  case tauth =>
    refine uniform_int32 fun _ => uniform_str fun _ => uniform_str fun _ => ?_
    cases dotu
    · exact uniform_settled trivial (fun _ => rfl) fun _ _ => rfl
    · exact uniform_int32 fun _ => uniform_settled trivial (fun _ => rfl) fun _ _ => rfl
  case tattach =>
    refine uniform_int32 fun _ => uniform_int32 fun _ => uniform_str fun _ => uniform_str fun _ =>
      ?_
    cases dotu
    · exact uniform_settled trivial (fun _ => rfl) fun _ _ => rfl
    · exact uniform_int32 fun _ => uniform_settled trivial (fun _ => rfl) fun _ _ => rfl
  case rerror =>
    refine uniform_str fun _ => ?_
    cases dotu
    · exact uniform_settled trivial (fun _ => rfl) fun _ _ => rfl
    · exact uniform_int32 fun _ => uniform_settled trivial (fun _ => rfl) fun _ _ => rfl
  case tcreate =>
    refine uniform_int32 fun _ => uniform_str fun _ => uniform_int32 fun _ => uniform_int8 fun _ =>
      ?_
    cases dotu
    · exact uniform_settled trivial (fun _ => rfl) fun _ _ => rfl
    · exact uniform_str fun _ => uniform_settled trivial (fun _ => rfl) fun _ _ => rfl
  case tflush => exact uniform_int16 fun _ => uniform_settled trivial (fun _ => rfl) fun _ _ => rfl
  case twalk =>
    refine uniform_int32 fun fid => uniform_int32 fun newfid => uniform_int16 fun nwname => ?_
    split
    · exact uniform_reject
    · refine uniform_wnames fun fill first => ?_
      refine uniform_settled trivial (fun _ => rfl) fun old old' => ?_
      refine npWalk_congr rfl rfl rfl (congrArg (List.map _) (List.ext_getElem? fun j => ?_))
      simp only [started, List.getElem?_take, Vector.getElem?_toList]
      by_cases inside : j < nwname.toNat
      · rw [if_pos inside, if_pos inside]
        exact first _ _ (fun j below => absurd below (Nat.not_lt_zero j)) j (by omega)
      · rw [if_neg inside, if_neg inside]
  case rwalk =>
    refine uniform_int16 fun nwqid => ?_
    split
    · exact uniform_reject
    · exact uniform_wqids fun fill => uniform_unsettled not_false (fun _ => rfl)
        { (default : Npfcall) with nwname := 0 }
        { (default : Npfcall) with nwname := 1 }
        (recorded_npWalk_none rfl rfl rfl : recorded _ (.holding dotu NOFID Onotopen 0) = _)
        (recorded_npWalk_one rfl rfl rfl) (by simp)
  case topen =>
    exact uniform_int32 fun _ => uniform_int8 fun _ => uniform_settled trivial (fun _ => rfl)
      fun _ _ => rfl
  case rauth =>
    exact uniform_qid fun _ => uniform_unsettled not_false (fun _ => rfl)
      { (default : Npfcall) with uname := npStrzero, nUname := 0 }
      { (default : Npfcall) with uname := npStrzero, nUname := 1 }
      (recorded_npAuth (by decide : NOFID ≠ 0) rfl : recorded _ (.holding dotu 0 0 0) = _)
      (recorded_npAuth (by decide : NOFID ≠ 0) rfl) (by simp [started])
  case rattach =>
    refine uniform_qid fun _ => uniform_done ⟨fun _ => rfl, iff_of_true trivial fun old old' => ?_⟩
    refine @servedAlike_of_run dotu .rattach _ _ rfl rfl fun env s => ?_
    exact run_npAttach_congr rfl rfl rfl rfl
  case rsymlink =>
    exact uniform_qid fun _ => uniform_unsettled not_false (fun _ => rfl)
      { (default : Npfcall) with dfid := 0, gid := 0 }
      { (default : Npfcall) with dfid := 0, gid := 1 }
      (recorded_npSymlink rfl)
      (recorded_npSymlink rfl) (by simp [started])
  case rmknod =>
    exact uniform_qid fun _ => uniform_unsettled not_false (fun _ => rfl)
      { (default : Npfcall) with perm := 0, major := 0 }
      { (default : Npfcall) with perm := 0, major := 1 }
      (recorded_npMknod rfl (by simp [started]))
      (recorded_npMknod rfl (by simp [started])) (by simp [started])
  case rmkdir =>
    exact uniform_qid fun _ => uniform_unsettled not_false (fun _ => rfl)
      { (default : Npfcall) with perm := 0 }
      { (default : Npfcall) with perm := 1 }
      (recorded_npMkdir rfl)
      (recorded_npMkdir rfl) (by simp [started])
  case ropen =>
    exact uniform_qid fun _ => uniform_int32 fun _ => uniform_unsettled not_false (fun _ => rfl)
      { (default : Npfcall) with mode := 0 }
      { (default : Npfcall) with mode := 1 }
      (recorded_npOpen rfl)
      (recorded_npOpen rfl) (by simp [started])
  case rcreate =>
    exact uniform_qid fun _ => uniform_int32 fun _ => uniform_unsettled not_false (fun _ => rfl)
      { (default : Npfcall) with perm := 0, mode := 0 }
      { (default : Npfcall) with perm := 0, mode := 1 }
      (recorded_npCreateFile rfl rfl)
      (recorded_npCreateFile rfl rfl) (by simp [started])
  case rlopen =>
    exact uniform_qid fun _ => uniform_int32 fun _ => uniform_unsettled not_false (fun _ => rfl)
      { (default : Npfcall) with flags := 0 }
      { (default : Npfcall) with flags := 1 }
      (recorded_npLopen rfl : recorded _ (.holding dotu NOFID 0 0) = _)
      (recorded_npLopen rfl) (by simp [started])
  case rlcreate =>
    exact uniform_qid fun _ => uniform_int32 fun _ => uniform_unsettled not_false (fun _ => rfl)
      { (default : Npfcall) with perm := 0, flags := 0 }
      { (default : Npfcall) with perm := 0, flags := 1 }
      (recorded_npLcreate rfl (by simp [started]))
      (recorded_npLcreate rfl (by simp [started])) (by simp [started])
  case tread | treaddir =>
    exact uniform_int32 fun _ => uniform_int64 fun _ => uniform_int32 fun _ =>
      uniform_settled trivial (fun _ => rfl) fun _ _ => rfl
  case rread =>
    exact uniform_int32 fun _ => uniform_alloc fun _ => uniform_unsettled not_false (fun _ => rfl)
      { (default : Npfcall) with offset := 0 }
      { (default : Npfcall) with offset := 1 }
      (recorded_npRead rfl)
      (recorded_npRead rfl) (by simp [started])
  case rreaddir =>
    exact uniform_int32 fun _ => uniform_alloc fun _ => uniform_unsettled not_false (fun _ => rfl)
      { (default : Npfcall) with offset := 0 }
      { (default : Npfcall) with offset := 1 }
      (recorded_npReaddir rfl)
      (recorded_npReaddir rfl) (by simp [started])
  case twrite =>
    exact uniform_int32 fun _ => uniform_int64 fun _ => uniform_int32 fun _ =>
      uniform_alloc fun _ => uniform_settled trivial (fun _ => rfl) fun _ _ => rfl
  case rwrite =>
    exact uniform_int32 fun _ => uniform_unsettled not_false (fun _ => rfl)
      { (default : Npfcall) with offset := 0 }
      { (default : Npfcall) with offset := 1 }
      (recorded_npWrite rfl)
      (recorded_npWrite rfl) (by simp [started])
  case tclunk | tremove | tstat | tstatfs | treadlink | tfsync | rlerror =>
    exact uniform_int32 fun _ => uniform_settled trivial (fun _ => rfl) fun _ _ => rfl
  case rclunk | rremove | rfsync => exact uniform_settled trivial (fun _ => rfl) fun _ _ => rfl
  case rflush =>
    exact uniform_unsettled not_false (fun _ => rfl)
      { (default : Npfcall) with oldtag := 0 }
      { (default : Npfcall) with oldtag := 1 }
      (recorded_npFlush : recorded _ (.holding dotu 0 0 0) = _) recorded_npFlush (by simp [started])
  case rwstat =>
    let stat (nUid : UInt32) : Npstat := { (default : Npstat) with
      type := 0xFFFF, dev := 0xFFFFFFFF, qid := ⟨0, 0xFFFFFFFF, 0xFFFFFFFFFFFFFFFF⟩, nUid }
    have file (nUid : UInt32) : (0 : UInt16) &&& Qtdir = 0 ↔ (stat nUid).mode &&& Dmdir = 0 :=
      iff_of_true (by decide) (by simp only [stat]; decide)
    exact uniform_unsettled not_false (fun _ => rfl)
      { (default : Npfcall) with stat := stat 0 } { (default : Npfcall) with stat := stat 1 }
      (recorded_npWstat rfl ⟨rfl, rfl, rfl, rfl⟩ (file 0) :
        recorded _ (.holding dotu NOFID 0 0) = _)
      (recorded_npWstat rfl ⟨rfl, rfl, rfl, rfl⟩ (file 1)) (by simp [started, stat])
  case rrename =>
    exact uniform_unsettled not_false (fun _ => rfl)
      { (default : Npfcall) with dfid := NOFID, name := ⟨0, none⟩ }
      { (default : Npfcall) with dfid := NOFID, name := ⟨1, some 0⟩ }
      (recorded_npRename rfl rfl : recorded _ (.holding dotu NOFID 0 0) = _)
      (recorded_npRename rfl rfl) (by simp [started, Npfcall.text, bytes])
  case rsetattr =>
    exact uniform_unsettled not_false (fun _ => rfl)
      { (default : Npfcall) with attrs := { (default : Npattrs) with gen := 0 } }
      { (default : Npfcall) with attrs := { (default : Npattrs) with gen := 1 } }
      (recorded_npSetattr rfl : recorded _ (.holding dotu NOFID 0 0) = _)
      (recorded_npSetattr rfl) (by simp [started])
  case rxattrcreate =>
    exact uniform_unsettled not_false (fun _ => rfl)
      { (default : Npfcall) with flags := 0 }
      { (default : Npfcall) with flags := 1 }
      (recorded_npXattrcreate rfl : recorded _ (.holding dotu NOFID 0 0) = _)
      (recorded_npXattrcreate rfl) (by simp [started])
  case rlink =>
    exact uniform_unsettled not_false (fun _ => rfl)
      { (default : Npfcall) with dfid := NOFID, name := ⟨0, none⟩ }
      { (default : Npfcall) with dfid := NOFID, name := ⟨1, some 0⟩ }
      (recorded_npLink rfl rfl)
      (recorded_npLink rfl rfl) (by simp [started, Npfcall.text, bytes])
  case rrenameat =>
    exact uniform_unsettled not_false (fun _ => rfl)
      { (default : Npfcall) with oname := ⟨0, none⟩ }
      { (default : Npfcall) with oname := ⟨1, some 0⟩ }
      (recorded_npRenameat rfl rfl)
      (recorded_npRenameat rfl rfl) (by simp [started, Npfcall.text, bytes])
  case runlinkat =>
    exact uniform_unsettled not_false (fun _ => rfl)
      { (default : Npfcall) with name := ⟨0, none⟩ }
      { (default : Npfcall) with name := ⟨1, some 0⟩ }
      (recorded_npUnlinkat rfl)
      (recorded_npUnlinkat rfl) (by simp [started, Npfcall.text, bytes])
  case rstat =>
    exact uniform_int16 fun _ => uniform_stat fun _ => uniform_settled trivial (fun _ => rfl)
      fun _ _ => rfl
  case twstat =>
    refine uniform_int32 fun fid => uniform_int16 fun _ => uniform_stat fun read => ?_
    cases dotu with
    | true => exact uniform_settled (.inl rfl) (fun _ => rfl) fun _ _ => rfl
    | false =>
        by_cases kept : read.type = 0xFFFF ∧ read.dev = 0xFFFFFFFF ∧ read.qid.version = 0xFFFFFFFF ∧
            read.qid.path = 0xFFFFFFFFFFFFFFFF
        · have kind : (if read.mode &&& Dmdir = 0 then 0 else Qtdir : UInt16) &&& Qtdir = 0 ↔
              read.mode &&& Dmdir = 0 := by
            have directory : Qtdir ≠ 0 := by decide
            split_ifs <;> simp [*]
          refine uniform_unsettled ?_ (fun _ => rfl)
            { (default : Npfcall) with stat := { (default : Npstat) with nUid := 0 } }
            { (default : Npfcall) with stat := { (default : Npstat) with nUid := 1 } }
            (recorded_npWstat rfl kept kind : recorded _ (.holding false fid 0 _) = _)
            (recorded_npWstat rfl kept kind) (by simp [started, statFilled])
          simp [MsgType.Settled, statFilled, kept]
        · have refused : read.type ≠ 0xFFFF ∨ read.dev ≠ 0xFFFFFFFF ∨
              read.qid.version ≠ 0xFFFFFFFF ∨ read.qid.path ≠ 0xFFFFFFFFFFFFFFFF := by tauto
          refine uniform_settled (.inr refused) (fun _ => rfl) fun old old' => ?_
          show npWstat _ = npWstat _
          simp only [npWstat, started, statFilled, Bool.false_eq_true, if_false, if_pos refused]
  case rstatfs =>
    exact uniform_statfs fun _ => uniform_settled trivial (fun _ => rfl) fun _ _ => rfl
  case tlopen =>
    exact uniform_int32 fun _ => uniform_int32 fun _ => uniform_settled trivial (fun _ => rfl)
      fun _ _ => rfl
  case tlcreate =>
    refine uniform_int32 fun _ => uniform_str fun _ => uniform_int32 fun _ =>
      uniform_int32 fun perm => uniform_int32 fun _ => ?_
    by_cases file : perm &&& Dmdir = 0
    · refine uniform_settled file (fun _ => rfl) fun old old' => ?_
      show npLcreate _ = npLcreate _
      simp only [npLcreate, file, ne_eq, not_true_eq_false, false_and, if_false]
      rfl
    · exact uniform_unsettled file (fun _ => rfl)
        { (default : Npfcall) with mode := Oread } { (default : Npfcall) with mode := Owrite }
        (recorded_npLcreate rfl (fun refused => refused.2 rfl)) (recorded_npLcreate_none rfl
          ⟨file, show ¬ Owrite = Oread by decide⟩) (by simp)
  case tsymlink =>
    exact uniform_int32 fun _ => uniform_str fun _ => uniform_str fun _ => uniform_int32 fun _ =>
      uniform_settled trivial (fun _ => rfl) fun _ _ => rfl
  case tmknod =>
    refine uniform_int32 fun _ => uniform_str fun _ => uniform_int32 fun perm =>
      uniform_int32 fun _ => uniform_int32 fun _ => uniform_int32 fun _ => ?_
    by_cases file : perm &&& Dmdir = 0
    · refine uniform_settled file (fun _ => rfl) fun old old' => ?_
      show npMknod _ = npMknod _
      simp only [npMknod, file, ne_eq, not_true_eq_false, false_and, if_false]
      rfl
    · exact uniform_unsettled file (fun _ => rfl)
        { (default : Npfcall) with mode := Oread } { (default : Npfcall) with mode := Owrite }
        (recorded_npMknod rfl (fun refused => refused.2 rfl)) (recorded_npMknod_none rfl
          ⟨file, show ¬ Owrite = Oread by decide⟩) (by simp)
  case trename | txattrwalk | tlink =>
    exact uniform_int32 fun _ => uniform_int32 fun _ => uniform_str fun _ => uniform_settled trivial
      (fun _ => rfl) fun _ _ => rfl
  case rreadlink => exact uniform_str fun _ => uniform_settled trivial (fun _ => rfl) fun _ _ => rfl
  case tgetattr =>
    exact uniform_int32 fun _ => uniform_int64 fun _ => uniform_settled trivial (fun _ => rfl)
      fun _ _ => rfl
  case rgetattr =>
    exact uniform_int64 fun _ => uniform_qid fun _ => uniform_int32 fun _ => uniform_int32 fun _ =>
      uniform_int32 fun _ => uniform_int64 fun _ => uniform_int64 fun _ => uniform_int64 fun _ =>
      uniform_int64 fun _ => uniform_int64 fun _ => uniform_int64 fun _ => uniform_int64 fun _ =>
      uniform_int64 fun _ => uniform_int64 fun _ => uniform_int64 fun _ => uniform_int64 fun _ =>
      uniform_int64 fun _ => uniform_int64 fun _ => uniform_int64 fun _ => uniform_int64 fun _ =>
      uniform_settled trivial (fun _ => rfl) fun _ _ => rfl
  case tsetattr =>
    exact uniform_int32 fun fid => uniform_int32 fun _ => uniform_int32 fun _ =>
      uniform_int32 fun _ => uniform_int32 fun _ => uniform_int64 fun _ => uniform_int64 fun _ =>
      uniform_int64 fun _ => uniform_int64 fun _ => uniform_int64 fun _ => uniform_unsettled
      not_false (fun _ => rfl)
      { (default : Npfcall) with attrs := { (default : Npattrs) with gen := 0 } }
      { (default : Npfcall) with attrs := { (default : Npattrs) with gen := 1 } }
      (recorded_npSetattr rfl : recorded _ (.holding dotu fid 0 0) = _) (recorded_npSetattr rfl)
      (by simp [started])
  case rxattrwalk =>
    refine uniform_int64 fun _ => uniform_done
      ⟨fun _ => rfl, iff_of_true trivial fun old old' => ?_⟩
    refine @servedAlike_of_run dotu .rxattrwalk _ _ rfl rfl fun env s => ?_
    exact run_npXattrwalk_congr rfl rfl rfl rfl
  case txattrcreate =>
    exact uniform_int32 fun _ => uniform_str fun _ => uniform_int64 fun _ => uniform_int32 fun _ =>
      uniform_settled trivial (fun _ => rfl) fun _ _ => rfl
  case tlock =>
    exact uniform_int32 fun _ => uniform_int8 fun _ => uniform_int32 fun _ => uniform_int64 fun _ =>
      uniform_int64 fun _ => uniform_int32 fun _ => uniform_str fun _ => uniform_settled trivial
      (fun _ => rfl) fun _ _ => rfl
  case rlock =>
    exact uniform_int8 fun _ => uniform_unsettled not_false (fun _ => rfl)
      { (default : Npfcall) with flags := 0 }
      { (default : Npfcall) with flags := 1 }
      (recorded_npFlock rfl : recorded _ (.holding dotu NOFID 0 0) = _)
      (recorded_npFlock rfl) (by simp [started])
  case tgetlock | rgetlock =>
    exact uniform_int32 fun _ => uniform_int8 fun _ => uniform_int64 fun _ => uniform_int64 fun _ =>
      uniform_int32 fun _ => uniform_str fun _ => uniform_settled trivial (fun _ => rfl) fun _ _ =>
      rfl
  case tmkdir =>
    exact uniform_int32 fun _ => uniform_str fun _ => uniform_int32 fun _ => uniform_int32 fun _ =>
      uniform_settled trivial (fun _ => rfl) fun _ _ => rfl
  case trenameat =>
    exact uniform_int32 fun _ => uniform_str fun _ => uniform_int32 fun _ => uniform_str fun _ =>
      uniform_settled trivial (fun _ => rfl) fun _ _ => rfl
  case tunlinkat =>
    exact uniform_int32 fun _ => uniform_str fun _ => uniform_int32 fun _ => uniform_settled trivial
      (fun _ => rfl) fun _ _ => rfl
  case tlerror | terror => exact uniform_reject

end Types

/-! ## Packets -/

theorem Uniform.mono {σ α : Type} {shape shape' : (σ → α) → Prop} {parser : σ → Get (Option α)}
    (uniform : Uniform shape parser) (weaker : ∀ update, shape update → shape' update) :
    Uniform shape' parser := by
  intro buf
  rcases uniform buf with refused | ⟨update, buf', shaped, accepted⟩
  · exact .inl refused
  · exact .inr ⟨update, buf', weaker update shaped, accepted⟩

theorem uniform_getFcall (data : List UInt8) (dotu : Bool) (bytes : data ≠ []) :
    Uniform (fun update => ∃ type, Settles dotu type update) fun old =>
      getFcall dotu { { old with pkt := data } with size := announcedSize data } := by
  refine uniform_int8 fun code => uniform_int16 fun tag => ?_
  cases named : MsgType.ofCode? code with
  | none => exact uniform_reject
  | some type =>
      obtain rfl := MsgType.code_of_ofCode? named
      exact (uniform_getBody (announcedSize data) tag data dotu type bytes).mono
        fun update settles => ⟨type, settles⟩

/-- An empty packet is refused, since it announces no bytes. -/
theorem recycle_nil (old : Npfcall) (dotu : Bool) : recycle old [] dotu = none := by
  have explained := explains_packet { old with pkt := [] } [] dotu
  have outside : (announcedSize []).toNat < 5 := by decide
  rw [Layout.packetStop, if_pos (.inl outside)] at explained
  rw [recycle, npDeserialize_eq]
  exact overflowTest_eq_none.mpr explained

/-- Whether a packet is accepted does not depend on the recycled message. -/
theorem recycle_cases (data : List UInt8) (dotu : Bool) :
    (∀ old, recycle old data dotu = none) ∨
      ∃ type update, Settles dotu type update ∧
        ∀ old, recycle old data dotu = some (update old) := by
  by_cases bytes : data = []
  · exact .inl fun old => bytes ▸ recycle_nil old dotu
  · rcases uniform_getFcall data dotu bytes (packetBody data) with
      ⟨buf, refused⟩ | ⟨update, buf, ⟨type, settles⟩, accepted⟩
    · exact .inl fun old => by rw [recycle, npDeserialize, refused, overflowTest]
    · by_cases overflow : buf.bufCheckOverflow
      · refine .inl fun old => ?_
        rw [recycle, npDeserialize, accepted, overflowTest, if_pos overflow]
      · refine .inr ⟨type, update, settles, fun old => ?_⟩
        rw [recycle, npDeserialize, accepted, overflowTest, if_neg overflow]

theorem leaksNothing_of_recycle {data : List UInt8} {dotu : Bool} {m : Npfcall} {type : MsgType}
    (accepted : recycle default data dotu = some m)
    (named : MsgType.ofCode? m.type = some type) :
    LeaksNothing data dotu ↔ type.Settled dotu m := by
  rcases recycle_cases data dotu with refused | ⟨type', update, ⟨typed, settled⟩, always⟩
  · simp [refused] at accepted
  · obtain rfl := Option.some.inj ((always default).symm.trans accepted)
    rw [typed, MsgType.ofCode?_code, Option.some.injEq] at named
    subst named
    rw [settled]
    constructor
    · exact fun alike old old' => alike old old' _ _ (always old) (always old')
    · rintro alike old old' m m' first second
      obtain rfl := Option.some.inj ((always old).symm.trans first)
      obtain rfl := Option.some.inj ((always old').symm.trans second)
      exact alike old old'

/-- A packet leaks nothing exactly when its message is of a type, and has the fields, for which the
handler reads nothing else. -/
theorem leaksNothing_iff (data : List UInt8) (dotu : Bool) :
    LeaksNothing data dotu ↔ ∀ m type, recycle default data dotu = some m →
      MsgType.ofCode? m.type = some type → type.Settled dotu m := by
  constructor
  · intro leaks m type accepted named
    exact (leaksNothing_of_recycle accepted named).mp leaks
  · intro settled
    rcases recycle_cases data dotu with refused | ⟨type, update, ⟨typed, -⟩, accepted⟩
    · intro old old' m m' first
      rw [refused] at first
      cases first
    · have named : MsgType.ofCode? (update default).type = some type := by
        rw [typed, MsgType.ofCode?_code]
      exact (leaksNothing_of_recycle (accepted default) named).mpr
        (settled _ _ (accepted default) named)

/-- Whether a `Tlcreate` with the bit for directories is refused depends on the `mode` of an earlier
message. -/
theorem not_leaksNothing_all : ¬ ∀ data dotu, LeaksNothing data dotu := by
  intro all
  have leaks := all
    [25, 0, 0, 0, 14, 1, 0, 0, 0, 0, 0, 0, 0, 0, 0, 0, 0, 0, 0, 0, 0x80, 0, 0, 0, 0] true
  have settled := (@leaksNothing_of_recycle _ _ _ .tlcreate rfl rfl).mp leaks
  have file : (0x80000000 : UInt32) &&& Dmdir = 0 := settled
  exact absurd file (by decide)

end Npfs
