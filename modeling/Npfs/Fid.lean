import Npfs.CreateDotl

/-!
# Fids and the operations of a request

What serving a request does to the connection and its fids, one operation at a time, and the
programs of `libnpfs/fidpool.c` that consist of these operations. The callbacks of `Npsrv`, `Npauth`
and `Npuserpool` are operations too; the string arguments that they are given are the bytes of the
packet.
-/

namespace Npfs

/-! ## Errors -/

/-- The string literal `text`. -/
def cstr (text : String) : CStr :=
  ⟨(text.toList.map fun c => c.toNat.toUInt8).filter (· ≠ 0), by simp⟩

/-- The error of a thread.  `np_vwerror` has a buffer of 1024 bytes for `ename`. -/
structure Nperror where
  ename : CStr
  ecode : UInt32
  short : ename.strlen < 1024
  deriving DecidableEq

/-- The error that `np_vwerror` stores. -/
def Nperror.of (ename : CStr) (ecode : UInt32) : Nperror where
  ename := ⟨ename.bytes.take 1023, fun member => ename.noNul (List.mem_of_mem_take member)⟩
  ecode := ecode
  short := by simp [CStr.strlen]

/-- `EPERM`. -/
def EPERM : UInt32 := 1

/-- `EIO`. -/
def EIO : UInt32 := 5

/-- `ENOMEM`. -/
def ENOMEM : UInt32 := 12

/-- `ENOTDIR`. -/
def ENOTDIR : UInt32 := 20

/-- `ENOSYS`. -/
def ENOSYS : UInt32 := 38

/-- `Eunknownfid`. -/
def Eunknownfid : CStr := cstr "unknown fid"

/-- `Ennomem`. -/
def Ennomem : CStr := cstr "no memory"

/-- `Enoauth`. -/
def Enoauth : CStr := cstr "no authentication required"

/-- `Einuse`. -/
def Einuse : CStr := cstr "fid already exists"

/-- `Ebadusefid`. -/
def Ebadusefid : CStr := cstr "bad use of fid"

/-- `Enotdir`. -/
def Enotdir : CStr := cstr "not a directory"

/-- `Etoomanywnames`. -/
def Etoomanywnames : CStr := cstr "too many wnames"

/-- `Eperm`. -/
def Eperm : CStr := cstr "permission denied"

/-- `Etoolarge`. -/
def Etoolarge : CStr := cstr "i/o count too large"

/-- `Ebadoffset`. -/
def Ebadoffset : CStr := cstr "bad offset in directory read"

/-- `Edirchange`. -/
def Edirchange : CStr := cstr "cannot convert between files and directories"

/-- `Eunknownuser`. -/
def Eunknownuser : CStr := cstr "unknown user"

/-! ## Constants -/

/-- `Onotopen`. -/
def Onotopen : UInt16 := 0xFFFF

/-- `Oread`. -/
def Oread : UInt8 := 0x00

/-- `Owrite`. -/
def Owrite : UInt8 := 0x01

/-- `Ordwr`. -/
def Ordwr : UInt8 := 0x02

/-- `Oexcl`. -/
def Oexcl : UInt8 := 0x04

/-- `Otrunc`. -/
def Otrunc : UInt8 := 0x10

/-- `Orclose`. -/
def Orclose : UInt8 := 0x40

/-- `Oappend`. -/
def Oappend : UInt8 := 0x80

/-- `Qtdir`. -/
def Qtdir : UInt16 := 0x80

/-- `Qtauth`. -/
def Qtauth : UInt16 := 0x08

/-- `Ftxattr`. -/
def Ftxattr : UInt16 := 0x100

/-- `Dmdir`. -/
def Dmdir : UInt32 := 0x80000000

/-- `Dmnamedpipe|Dmsymlink|Dmlink|Dmdevice|Dmsocket`. -/
def Dmspecial : UInt32 := 0x00200000 ||| 0x02000000 ||| 0x01000000 ||| 0x00800000 ||| 0x00100000

/-! ## Fids -/

/-- A pointer to an `Npfid`. -/
abbrev FidPtr := Nat

/-- A pointer to an `Npuser`. -/
abbrev UserPtr := Nat

/-- An `Npfid`.  What `aux` points to belongs to the file server. -/
structure Npfid (Aux : Type) where
  fid : UInt32
  refcount : Int
  omode : UInt16
  type : UInt16
  diroffset : UInt32
  user : Option UserPtr
  aux : Option Aux

/-- The `Npauth` of a server: which of its functions it has. `read` and `write` are called without a
test. -/
structure Npauth where
  startauth : Bool
  checkauth : Bool
  clunk : Bool

/-- The settings of an `Npsrv`. -/
structure Npsrv where
  msize : UInt32
  dotu : Bool
  dotl : Bool
  auth : Option Npauth
  fiddestroy : Bool

/-- The settings of an `Npconn`. -/
structure Npconn where
  msize : UInt32
  dotu : Bool
  dotl : Bool

/-! ## Callbacks -/

/-- A call of a function of the file server, of its `Npauth` or of its `Npuserpool`. -/
inductive Callback where
  | attach (fid : FidPtr) (afid : Option FidPtr) (uname aname : List UInt8)
  | clone (fid newfid : FidPtr)
  | walk (fid : FidPtr) (wname : List UInt8)
  | openFid (fid : FidPtr) (mode : UInt8)
  | create (fid : FidPtr) (name : List UInt8) (perm : UInt32) (mode : UInt8)
      (extension : List UInt8)
  | read (fid : FidPtr) (offset : UInt64) (count : UInt32)
  | write (fid : FidPtr) (offset : UInt64) (count : UInt32) (data : List UInt8)
  | clunk (fid : FidPtr)
  | remove (fid : FidPtr)
  | stat (fid : FidPtr)
  /-- The strings of `stat` are those of the packet `pkt`. -/
  | wstat (fid : FidPtr) (stat : Npstat) (pkt : List UInt8)
  | statfs (fid : FidPtr)
  | lopen (fid : FidPtr) (flags : UInt32)
  | lcreate (fid : FidPtr) (name : List UInt8) (flags perm gid : UInt32)
  | symlink (dfid : FidPtr) (name symtgt : List UInt8) (gid : UInt32)
  | mknod (dfid : FidPtr) (name : List UInt8) (perm major minor gid : UInt32)
  | rename (fid dfid : FidPtr) (name : List UInt8)
  | readlink (fid : FidPtr)
  | getattr (fid : FidPtr) (mask : UInt64)
  | setattr (fid : FidPtr) (attrs : Npattrs)
  | xattrwalk (fid newfid : FidPtr) (name : List UInt8)
  | xattrcreate (fid : FidPtr) (name : List UInt8) (size : UInt64) (flags : UInt32)
  | xattrread (fid : FidPtr) (offset : UInt64) (count : UInt32)
  | xattrwrite (fid : FidPtr) (offset : UInt64) (count : UInt32) (data : List UInt8)
  | readdir (dfid : FidPtr) (offset : UInt64) (count : UInt32)
  | fsync (fid : FidPtr)
  | flock (fid : FidPtr) (type : UInt8) (flags : UInt32) (offset length : UInt64)
      (procid : UInt32) (clientid : List UInt8)
  | getlock (fid : FidPtr) (type : UInt8) (offset length : UInt64) (procid : UInt32)
      (clientid : List UInt8)
  | link (dfid fid : FidPtr) (name : List UInt8)
  | mkdir (dfid : FidPtr) (name : List UInt8) (perm gid : UInt32)
  | renameat (dfid : FidPtr) (oname : List UInt8) (newfid : FidPtr) (name : List UInt8)
  | unlinkat (dfid : FidPtr) (name : List UInt8)
  | fiddestroy (fid : FidPtr)
  | startauth (afid : FidPtr) (aname : Option CStr)
  | checkauth (fid : FidPtr) (afid : Option FidPtr) (aname : Option CStr)
  | authRead (fid : FidPtr) (offset : UInt64) (count : UInt32)
  | authWrite (fid : FidPtr) (offset : UInt64) (count : UInt32) (data : List UInt8)
  | authClunk (fid : FidPtr)
  | uname2user (uname : CStr)
  | uid2user (uid : UInt32)

namespace Callback

/-- What a callback returns: for `walk` and `startauth` the qid that they store when they succeed,
and for `authRead` also the bytes that it stores. -/
abbrev Reply : Callback → Type
  | .clone .. | .checkauth .. => Bool
  | .walk .. | .startauth .. => Option Npqid
  | .authRead .. => Int × List UInt8
  | .authWrite .. | .authClunk .. => Int
  | .uname2user .. | .uid2user .. => Option UserPtr
  | .fiddestroy .. => Unit
  | _ => Option Npfcall

/-- The fid that a callback works on: the one whose `aux` it may set and to which it may take a
reference.  Other fids it only reads. -/
def target : Callback → Option FidPtr
  | .clone _ newfid | .xattrwalk _ newfid _ => some newfid
  | .attach fid _ _ _ | .walk fid _ | .openFid fid _ | .create fid _ _ _ _ | .read fid _ _
  | .write fid _ _ _ | .clunk fid | .remove fid | .stat fid | .wstat fid _ _ | .statfs fid
  | .lopen fid _ | .lcreate fid _ _ _ _ | .symlink fid _ _ _ | .mknod fid _ _ _ _ _
  | .rename fid _ _ | .readlink fid | .getattr fid _ | .setattr fid _ | .xattrcreate fid _ _ _
  | .xattrread fid _ _ | .xattrwrite fid _ _ _ | .readdir fid _ _ | .fsync fid
  | .flock fid _ _ _ _ _ _ | .getlock fid _ _ _ _ _ | .link _ fid _ | .mkdir fid _ _ _
  | .renameat fid _ _ _ | .unlinkat fid _ | .fiddestroy fid | .startauth fid _
  | .checkauth fid _ _ | .authRead fid _ _ | .authWrite fid _ _ _ | .authClunk fid => some fid
  | .uname2user _ | .uid2user _ => none

end Callback

/-! ## Operations -/

/-- One operation of a thread that serves a request. -/
inductive Op where
  /-- `np_fid_find`. -/
  | fidFind (fid : UInt32)
  /-- `np_fid_create`. -/
  | fidCreate (fid : UInt32)
  /-- The locked increment of `np_fid_incref`. -/
  | fidIncref (fid : FidPtr)
  /-- The locked decrement of `np_fid_decref`, which returns the new count. -/
  | fidDecref (fid : FidPtr)
  /-- `np_fid_destroy` takes the fid out of the pool. -/
  | fidUnlink (fid : FidPtr)
  | fidFree (fid : FidPtr)
  | omode (fid : FidPtr)
  | type (fid : FidPtr)
  | diroffset (fid : FidPtr)
  | user (fid : FidPtr)
  | setOmode (fid : FidPtr) (omode : UInt16)
  | setType (fid : FidPtr) (type : UInt16)
  | setDiroffset (fid : FidPtr) (diroffset : UInt32)
  | setUser (fid : FidPtr) (user : Option UserPtr)
  /-- `np_user_incref`. -/
  | userIncref (user : Option UserPtr)
  /-- `np_user_decref`. -/
  | userDecref (user : UserPtr)
  /-- `np_werror`. -/
  | werror (error : Option Nperror)
  /-- `np_rerror`. -/
  | rerror
  /-- `req->fid`. -/
  | reqFid
  | setReqFid (fid : Option FidPtr)
  /-- `conn->srv`. -/
  | srv
  /-- `req->conn`. -/
  | conn
  /-- `np_conn_reset`. -/
  | connReset (msize : UInt32) (dotu dotl : Bool)
  /-- What `np_flush` does to the queues of the server: whether it answers the `Tflush` at once. -/
  | flush (oldtag : UInt16)
  | malloc
  | call (callback : Callback)
  /-- Undefined behaviour, such as the use of a null pointer. -/
  | crash

/-- What an operation returns. -/
abbrev Op.Reply : Op → Type
  | .fidFind _ | .fidCreate _ | .reqFid => Option FidPtr
  | .fidDecref _ => Int
  | .omode _ | .type _ => UInt16
  | .diroffset _ => UInt32
  | .user _ => Option UserPtr
  | .rerror => Option Nperror
  | .srv => Npsrv
  | .conn => Npconn
  | .flush _ => Bool
  | .malloc => Malloc
  | .call callback => callback.Reply
  | _ => Unit

/-- A piece of the code that serves a request. -/
abbrev Serve : Type → Type := Program Op Op.Reply

namespace Serve

/-- `np_fid_find`. -/
def npFidFind (fid : UInt32) : Serve (Option FidPtr) := .step (.fidFind fid) .done

/-- `np_fid_create`. -/
def npFidCreate (fid : UInt32) : Serve (Option FidPtr) := .step (.fidCreate fid) .done

/-- `fid->omode`. -/
def omode (fid : FidPtr) : Serve UInt16 := .step (.omode fid) .done

/-- `fid->type`. -/
def type (fid : FidPtr) : Serve UInt16 := .step (.type fid) .done

/-- `fid->diroffset`. -/
def diroffset (fid : FidPtr) : Serve UInt32 := .step (.diroffset fid) .done

/-- `fid->user`. -/
def user (fid : FidPtr) : Serve (Option UserPtr) := .step (.user fid) .done

/-- An assignment to `fid->omode`. -/
def setOmode (fid : FidPtr) (omode : UInt16) : Serve Unit := .step (.setOmode fid omode) .done

/-- An assignment to `fid->type`. -/
def setType (fid : FidPtr) (type : UInt16) : Serve Unit := .step (.setType fid type) .done

/-- An assignment to `fid->diroffset`. -/
def setDiroffset (fid : FidPtr) (diroffset : UInt32) : Serve Unit :=
  .step (.setDiroffset fid diroffset) .done

/-- An assignment to `fid->user`. -/
def setUser (fid : FidPtr) (user : Option UserPtr) : Serve Unit :=
  .step (.setUser fid user) .done

/-- `np_user_incref`. -/
def npUserIncref (user : Option UserPtr) : Serve Unit := .step (.userIncref user) .done

/-- `np_user_decref`. -/
def npUserDecref (user : UserPtr) : Serve Unit := .step (.userDecref user) .done

/-- `np_werror`. -/
def npWerror (ename : CStr) (ecode : UInt32) : Serve Unit :=
  .step (.werror (some (.of ename ecode))) .done

/-- `np_werror(NULL, 0)`. -/
def npWerrorNone : Serve Unit := .step (.werror none) .done

/-- `np_rerror`. -/
def npRerror : Serve (Option Nperror) := .step .rerror .done

/-- `req->fid`. -/
def reqFid : Serve (Option FidPtr) := .step .reqFid .done

/-- An assignment to `req->fid`. -/
def setReqFid (fid : Option FidPtr) : Serve Unit := .step (.setReqFid fid) .done

/-- `conn->srv`. -/
def srv : Serve Npsrv := .step .srv .done

/-- `req->conn`. -/
def conn : Serve Npconn := .step .conn .done

/-- `np_conn_reset`. -/
def npConnReset (msize : UInt32) (dotu dotl : Bool) : Serve Unit :=
  .step (.connReset msize dotu dotl) .done

/-- Call a function of the file server. -/
def call (callback : Callback) : Serve callback.Reply := .step (.call callback) .done

/-- Undefined behaviour. -/
def crash : Serve Unit := .step .crash .done

/-- Call one of the constructors of replies. -/
def create (constructor : Malloc → Option Npfcall) : Serve (Option Npfcall) :=
  .step .malloc fun heap => .done (constructor heap)

/-- `np_werror` in front of `goto done`. -/
def fail {α : Type} (ename : CStr) (ecode : UInt32) : Serve (Option α) := do
  npWerror ename ecode
  return none

/-- `np_fid_incref`. -/
def npFidIncref : Option FidPtr → Serve Unit
  | none => return ()
  | some fid => .step (.fidIncref fid) .done

/-- `--fid->refcount`. -/
def fidDecref (fid : FidPtr) : Serve Int := .step (.fidDecref fid) .done

/-- The fid is taken out of its list in the pool. -/
def fidUnlink (fid : FidPtr) : Serve Unit := .step (.fidUnlink fid) .done

/-- `free(fid)`. -/
def fidFree (fid : FidPtr) : Serve Unit := .step (.fidFree fid) .done

/-- `np_fid_destroy`. -/
def npFidDestroy (fid : FidPtr) : Serve Unit := do
  fidUnlink fid
  let srv ← srv
  let type ← type fid
  if type &&& Qtauth ≠ 0 ∧ srv.auth.any (·.clunk) then
    let _ ← call (.authClunk fid)
  else if type &&& Qtauth = 0 ∧ srv.fiddestroy then
    call (.fiddestroy fid)
  let user ← user fid
  match user with
  | none => pure ()
  | some user => npUserDecref user
  fidFree fid

/-- `np_fid_decref`. -/
def npFidDecref : Option FidPtr → Serve Unit
  | none => return ()
  | some fid => do
    let n ← fidDecref fid
    if n = 0 then
      npFidDestroy fid

/-! ## What the operations always do -/

section Always

variable {possible : (op : Op) → op.Reply → Prop} {ok : Op → Prop}

@[simp] theorem always_npFidFind (fid : UInt32) {post : Option FidPtr → Prop} :
    (npFidFind fid).Always possible ok post ↔ ok (.fidFind fid) ∧ ∀ reply, possible (.fidFind fid)
    reply → post reply := Iff.rfl

@[simp] theorem always_npFidCreate (fid : UInt32) {post : Option FidPtr → Prop} :
    (npFidCreate fid).Always possible ok post ↔ ok (.fidCreate fid) ∧
    ∀ reply, possible (.fidCreate fid) reply → post reply := Iff.rfl

@[simp] theorem always_omode (fid : FidPtr) {post : UInt16 → Prop} :
    (omode fid).Always possible ok post ↔ ok (.omode fid) ∧ ∀ reply, possible (.omode fid) reply →
    post reply := Iff.rfl

@[simp] theorem always_type (fid : FidPtr) {post : UInt16 → Prop} :
    (type fid).Always possible ok post ↔ ok (.type fid) ∧ ∀ reply, possible (.type fid) reply →
    post reply := Iff.rfl

@[simp] theorem always_diroffset (fid : FidPtr) {post : UInt32 → Prop} :
    (diroffset fid).Always possible ok post ↔ ok (.diroffset fid) ∧
    ∀ reply, possible (.diroffset fid) reply → post reply := Iff.rfl

@[simp] theorem always_user (fid : FidPtr) {post : Option UserPtr → Prop} :
    (user fid).Always possible ok post ↔ ok (.user fid) ∧ ∀ reply, possible (.user fid) reply →
    post reply := Iff.rfl

@[simp] theorem always_npRerror {post : Option Nperror → Prop} :
    (npRerror).Always possible ok post ↔ ok (.rerror) ∧ ∀ reply, possible (.rerror) reply →
    post reply := Iff.rfl

@[simp] theorem always_reqFid {post : Option FidPtr → Prop} :
    (reqFid).Always possible ok post ↔ ok (.reqFid) ∧ ∀ reply, possible (.reqFid) reply →
    post reply := Iff.rfl

@[simp] theorem always_srv {post : Npsrv → Prop} :
    (srv).Always possible ok post ↔ ok (.srv) ∧ ∀ reply, possible (.srv) reply →
    post reply := Iff.rfl

@[simp] theorem always_conn {post : Npconn → Prop} :
    (conn).Always possible ok post ↔ ok (.conn) ∧ ∀ reply, possible (.conn) reply →
    post reply := Iff.rfl

@[simp] theorem always_setOmode (fid : FidPtr) (omode : UInt16) {post : Unit → Prop} :
    (setOmode fid omode).Always possible ok post ↔ ok (.setOmode fid omode) ∧
    (possible (.setOmode fid omode) () → post ()) :=
  and_congr_right fun _ => ⟨fun always => always (), fun always _ => always⟩

@[simp] theorem always_setType (fid : FidPtr) (type : UInt16) {post : Unit → Prop} :
    (setType fid type).Always possible ok post ↔ ok (.setType fid type) ∧
    (possible (.setType fid type) () → post ()) :=
  and_congr_right fun _ => ⟨fun always => always (), fun always _ => always⟩

@[simp] theorem always_setDiroffset (fid : FidPtr) (diroffset : UInt32) {post : Unit → Prop} :
    (setDiroffset fid diroffset).Always possible ok post ↔ ok (.setDiroffset fid diroffset) ∧
    (possible (.setDiroffset fid diroffset) () → post ()) :=
  and_congr_right fun _ => ⟨fun always => always (), fun always _ => always⟩

@[simp] theorem always_setUser (fid : FidPtr) (user : Option UserPtr) {post : Unit → Prop} :
    (setUser fid user).Always possible ok post ↔ ok (.setUser fid user) ∧
    (possible (.setUser fid user) () → post ()) :=
  and_congr_right fun _ => ⟨fun always => always (), fun always _ => always⟩

@[simp] theorem always_npUserIncref (user : Option UserPtr) {post : Unit → Prop} :
    (npUserIncref user).Always possible ok post ↔ ok (.userIncref user) ∧
    (possible (.userIncref user) () → post ()) :=
  and_congr_right fun _ => ⟨fun always => always (), fun always _ => always⟩

@[simp] theorem always_npUserDecref (user : UserPtr) {post : Unit → Prop} :
    (npUserDecref user).Always possible ok post ↔ ok (.userDecref user) ∧
    (possible (.userDecref user) () → post ()) :=
  and_congr_right fun _ => ⟨fun always => always (), fun always _ => always⟩

@[simp] theorem always_npWerror (ename : CStr) (ecode : UInt32) {post : Unit → Prop} :
    (npWerror ename ecode).Always possible ok post ↔ ok (.werror (some (.of ename ecode))) ∧
    (possible (.werror (some (.of ename ecode))) () → post ()) :=
  and_congr_right fun _ => ⟨fun always => always (), fun always _ => always⟩

@[simp] theorem always_npWerrorNone {post : Unit → Prop} :
    (npWerrorNone).Always possible ok post ↔ ok (.werror none) ∧
    (possible (.werror none) () → post ()) :=
  and_congr_right fun _ => ⟨fun always => always (), fun always _ => always⟩

@[simp] theorem always_setReqFid (fid : Option FidPtr) {post : Unit → Prop} :
    (setReqFid fid).Always possible ok post ↔ ok (.setReqFid fid) ∧
    (possible (.setReqFid fid) () → post ()) :=
  and_congr_right fun _ => ⟨fun always => always (), fun always _ => always⟩

@[simp] theorem always_npConnReset (msize : UInt32) (dotu dotl : Bool) {post : Unit → Prop} :
    (npConnReset msize dotu dotl).Always possible ok post ↔ ok (.connReset msize dotu dotl) ∧
    (possible (.connReset msize dotu dotl) () → post ()) :=
  and_congr_right fun _ => ⟨fun always => always (), fun always _ => always⟩

@[simp] theorem always_crash {post : Unit → Prop} :
    (crash).Always possible ok post ↔ ok (.crash) ∧ (possible (.crash) () → post ()) :=
  and_congr_right fun _ => ⟨fun always => always (), fun always _ => always⟩

@[simp] theorem always_call (callback : Callback) {post : callback.Reply → Prop} :
    (call callback).Always possible ok post ↔
      ok (.call callback) ∧ ∀ reply, possible (.call callback) reply → post reply := Iff.rfl

@[simp] theorem always_create (constructor : Malloc → Option Npfcall)
    {post : Option Npfcall → Prop} :
    (create constructor).Always possible ok post ↔
      ok .malloc ∧ ∀ heap, possible .malloc heap → post (constructor heap) := Iff.rfl

@[simp] theorem always_fail {α : Type} (ename : CStr) (ecode : UInt32)
    {post : Option α → Prop} :
    (fail ename ecode : Serve (Option α)).Always possible ok post ↔
      ok (.werror (some (.of ename ecode))) ∧
        (possible (.werror (some (.of ename ecode))) () → post none) :=
  and_congr_right fun _ => ⟨fun always => always (), fun always _ => always⟩

@[simp] theorem always_npFidIncref_none {post : Unit → Prop} :
    (npFidIncref none).Always possible ok post ↔ post () := Iff.rfl

@[simp] theorem always_npFidIncref (fid : FidPtr) {post : Unit → Prop} :
    (npFidIncref (some fid)).Always possible ok post ↔
      ok (.fidIncref fid) ∧ (possible (.fidIncref fid) () → post ()) :=
  and_congr_right fun _ => ⟨fun always => always (), fun always _ => always⟩

/-- The operations of `np_fid_decref`. -/
def decrefOps (fid : FidPtr) : Op → Prop
  | .fidDecref fid' | .fidUnlink fid' | .type fid' | .user fid' | .fidFree fid' => fid' = fid
  | .call callback => callback = .authClunk fid ∨ callback = .fiddestroy fid
  | .srv | .userDecref _ => True
  | _ => False

theorem always_npFidDestroy {fid : FidPtr} {post : Unit → Prop}
    (allowed : ∀ op, decrefOps fid op → ok op) (finished : post ()) :
    (npFidDestroy fid).Always possible ok post := by
  have rest : (fidFree fid).Always possible ok post := ⟨allowed _ rfl, fun _ _ => finished⟩
  have released (user : Option UserPtr) : Program.Always possible ok post
      (match user with
        | none => fidFree fid
        | some user => do
          npUserDecref user
          fidFree fid) := by
    cases user with
    | none => exact rest
    | some user =>
        simp only [Program.always_bind, always_npUserDecref]
        exact ⟨allowed _ trivial, fun _ => rest⟩
  rw [npFidDestroy, Program.always_bind]
  refine ⟨allowed _ rfl, fun _ _ => ?_⟩
  simp only [Program.always_bind, always_srv, always_type, Program.always_done]
  refine ⟨allowed _ trivial, fun srv _ => ⟨allowed _ rfl, fun type _ => ?_⟩⟩
  split_ifs
  · simp only [Program.always_bind, always_user]
    exact ⟨allowed _ (.inl rfl), fun _ _ => ⟨allowed _ rfl, fun user _ => released user⟩⟩
  · simp only [Program.always_bind, always_user]
    exact ⟨allowed _ (.inr rfl), fun _ _ => ⟨allowed _ rfl, fun user _ => released user⟩⟩
  · simp only [Program.always_bind, always_user]
    exact ⟨allowed _ rfl, fun user _ => released user⟩

theorem always_npFidDecref {fid : Option FidPtr} {post : Unit → Prop}
    (allowed : ∀ ptr ∈ fid, ∀ op, decrefOps ptr op → ok op) (finished : post ()) :
    (npFidDecref fid).Always possible ok post := by
  cases fid with
  | none => exact finished
  | some fid =>
      rw [npFidDecref, Program.always_bind]
      refine ⟨allowed fid rfl _ rfl, fun n _ => ?_⟩
      simp only [Program.always_done]
      split_ifs
      · exact always_npFidDestroy (allowed fid rfl) finished
      · exact finished

end Always

end Serve

end Npfs
