import Npfs.Handlers
import Npfs.Host
import Npfs.StatRecord

/-!
# The files of `libufs`

The fids of the server of `libufs`, what its functions do one operation after another, and the parts
of `libufs/ops.c` that its handlers share: paths, the metadata of a file as a client sees it, and
the attributes in which the mapped id model keeps a part of them.
-/

namespace Npfs

namespace Ufs

open LittleEndian

/-! ## Fids -/

/-- A `Fid`.  A descriptor of -1 and a `DIR *` that is `NULL` are `none`. -/
structure Fid where
  path : CStr
  omode : UInt32
  fd : Option UInt64
  dir : Option UInt64
  stat : Stat
  hmode : UInt32
  mapped : Bool
  xattrname : Option CStr
  xattrflags : UInt32
  xattrsz : UInt64
  xattrdata : Option (List UInt8)

/-- `npfs_fidalloc`, for a fid that gets a path at once. -/
def npfsFidalloc (path : CStr) : Fid where
  path := path
  omode := Onotopen.toUInt32
  fd := none
  dir := none
  stat := default
  hmode := 0
  mapped := false
  xattrname := none
  xattrflags := 0
  xattrsz := 0
  xattrdata := none

/-- The settings of a server and of its process. -/
structure Ufssrv where
  /-- `u->ids == UFS_IDS_MAPPED`. -/
  mapped : Bool
  sameuser : Bool
  /-- `srv->treeaux`. -/
  treeaux : CStr
  /-- `user->uid`. -/
  uid : UserPtr → UInt32
  /-- `user->uname`. -/
  uname : UserPtr → CStr
  uname2user : CStr → Option UserPtr
  uid2user : UInt32 → Option UserPtr
  /-- The `gid` of the group that is found. -/
  gname2group : CStr → Option UInt32
  /-- The `gname` of the group that is found. -/
  gid2group : UInt32 → Option CStr
  /-- `sscanf(ext, "%d", &nfid)`. -/
  scanFid : CStr → Option UInt32
  /-- `sscanf(ext, "%c %u %u", &ctype, &major, &minor)`. -/
  scanDevice : CStr → Option (UInt8 × UInt32 × UInt32)
  /-- `snprintf(ext, sizeof(ext), "%c %u %u", ctype, major, minor)`. -/
  printDevice : UInt8 → UInt32 → UInt32 → CStr
  strerror : Errno → CStr
  /-- How many turns of a loop without a bound are followed. -/
  turns : Nat

/-! ## Operations -/

/-- One operation of a function of `libufs`. -/
inductive Op where
  | sys (call : SysCall)
  /-- `fid->aux`. -/
  | aux (fid : FidPtr)
  | setAux (fid : FidPtr) (aux : Fid)
  | np (op : Npfs.Op)
  | ufs

/-- What an operation returns. -/
abbrev Op.Reply : Op → Type
  | .sys call => call.Reply
  | .aux _ => Option Fid
  | .setAux .. => Unit
  | .np op => op.Reply
  | .ufs => Ufssrv

/-- A piece of the code of `libufs`. -/
abbrev Code : Type → Type := Program Op Op.Reply

/-- Make a system call. -/
def sys (call : SysCall) : Code call.Reply := .step (.sys call) .done

/-- Make a system call that touches neither names nor attributes. -/
def data (call : DataCall) : Code (Except Errno Returned) := .step (.sys (.data call)) .done

/-- An assignment to what `fid->aux` points to. -/
def setAux (fid : FidPtr) (aux : Fid) : Code Unit := .step (.setAux fid aux) .done

/-- An operation of `libnpfs`. -/
def np (op : Npfs.Op) : Code op.Reply := .step (.np op) .done

/-- The settings of the server. -/
def ufs : Code Ufssrv := .step .ufs .done

/-- `np_werror` in front of `return NULL`. -/
def fail {α : Type} (ename : CStr) (ecode : Errno) : Code (Option α) := do
  np (.werror (some (.of ename ecode)))
  return none

/-- `create_rerror` in front of `return NULL`. -/
def createRerror {α : Type} (ecode : Errno) : Code (Option α) := do
  let u ← ufs
  fail (u.strerror ecode) ecode

/-- Call one of the constructors of replies. -/
def create (constructor : Malloc → Option Npfcall) : Code (Option Npfcall) :=
  .step (.np .malloc) fun heap => .done (constructor heap)

/-- The test of what a call returns, with `create_rerror` when it has failed. -/
def check {α β : Type} (answer : Except Errno β) (rest : β → Code (Option α)) :
    Code (Option α) :=
  match answer with
  | .error err => createRerror err
  | .ok value => rest value

/-- `f = fid->aux`, where `f` is then used. -/
def withAux {α : Type} [Inhabited α] (fid : FidPtr) (rest : Fid → Code α) : Code α :=
  .step (.aux fid) fun
    | some f => rest f
    | none => do
      np .crash
      return default

/-- `fid->user->uid`. -/
def userUid (fid : FidPtr) : Code UInt32 := do
  let u ← ufs
  let user : Option UserPtr ← np (.user fid)
  match user with
  | some user => return u.uid user
  | none =>
    np .crash
    return 0

/-- `npfs_set_user`. -/
def npfsSetUser (fid : FidPtr) : Code Unit := do
  let u ← ufs
  if u.sameuser then
    return ()
  else
    let uid ← userUid fid
    let euid ← data .geteuid
    if (euid.toOption.map (·.number.toUInt32)) = some uid then
      return ()
    else
      let changed ← data (.changeUser uid)
      match changed with
      | .ok _ => return ()
      | .error err => np (.werror (some (.of (u.strerror err) err)))

/-! ## Paths -/

/-- `/`. -/
def slash : UInt8 := 0x2F

/-- `ufs_join`, as the string that the bytes are. -/
def ufsJoin (base name : List UInt8) : CStr :=
  npStrdup (if base.getLast? = some slash then base ++ name else base ++ slash :: name)

/-! ## File types -/

/-- `S_IFMT`. -/
def S_IFMT : UInt32 := 0o170000

/-- `S_IFSOCK`. -/
def S_IFSOCK : UInt32 := 0o140000

/-- `S_IFLNK`. -/
def S_IFLNK : UInt32 := 0o120000

/-- `S_IFREG`. -/
def S_IFREG : UInt32 := 0o100000

/-- `S_IFBLK`. -/
def S_IFBLK : UInt32 := 0o060000

/-- `S_IFDIR`. -/
def S_IFDIR : UInt32 := 0o040000

/-- `S_IFCHR`. -/
def S_IFCHR : UInt32 := 0o020000

/-- `S_IFIFO`. -/
def S_IFIFO : UInt32 := 0o010000

/-- `S_ISUID`. -/
def S_ISUID : UInt32 := 0o4000

/-- `S_ISGID`. -/
def S_ISGID : UInt32 := 0o2000

/-- `S_ISDIR` and its siblings. -/
def isType (type mode : UInt32) : Bool := mode &&& S_IFMT == type

/-- `Qtsymlink`. -/
def Qtsymlink : UInt8 := 0x02

/-- `Dmsymlink`. -/
def Dmsymlink : UInt32 := 0x02000000

/-- `Dmlink`. -/
def Dmlink : UInt32 := 0x01000000

/-- `Dmdevice`. -/
def Dmdevice : UInt32 := 0x00800000

/-- `Dmnamedpipe`. -/
def Dmnamedpipe : UInt32 := 0x00200000

/-- `Dmsocket`. -/
def Dmsocket : UInt32 := 0x00100000

/-- `Dmsetuid`. -/
def Dmsetuid : UInt32 := 0x00080000

/-- `Dmsetgid`. -/
def Dmsetgid : UInt32 := 0x00040000

/-- `bit` where a condition holds. -/
def flag {α : Type} [OfNat α 0] (condition : Bool) (bit : α) : α := if condition then bit else 0

/-- `ustat2qidtype`. -/
def ustat2qidtype (st : Stat) : UInt8 :=
  flag (isType S_IFDIR st.mode) Qtdir.toUInt8 ||| flag (isType S_IFLNK st.mode) Qtsymlink

/-- `ustat2qid`. -/
def ustat2qid (st : Stat) : Npqid where
  path := st.ino
  version := (st.mtimeSec ^^^ (st.size <<< 8)).toUInt32
  type := ustat2qidtype st

/-- `AGbasic`. -/
def AGbasic : UInt64 := 0x7FF

/-- `ustat2attrs`. -/
def ustat2attrs (st : Stat) : Npattrs :=
  { (default : Npattrs) with
    mode := st.mode
    uid := st.uid
    gid := st.gid
    nlink := st.nlink
    rdev := st.rdev
    size := st.size
    blksize := st.blksize
    blocks := st.blocks
    atimeSec := st.atimeSec
    atimeNsec := st.atimeNsec
    mtimeSec := st.mtimeSec
    mtimeNsec := st.mtimeNsec
    ctimeSec := st.ctimeSec
    ctimeNsec := st.ctimeNsec
    mask := AGbasic }

/-- `umode2npmode`. -/
def umode2npmode (umode : UInt32) (dotu : Bool) : UInt32 :=
  umode &&& 0o777 ||| flag (isType S_IFDIR umode) Dmdir |||
    if dotu then
      flag (isType S_IFLNK umode) Dmsymlink ||| flag (isType S_IFSOCK umode) Dmsocket |||
        flag (isType S_IFIFO umode) Dmnamedpipe ||| flag (isType S_IFBLK umode) Dmdevice |||
        flag (isType S_IFCHR umode) Dmdevice ||| flag (umode &&& S_ISUID ≠ 0) Dmsetuid |||
        flag (umode &&& S_ISGID ≠ 0) Dmsetgid
    else 0

/-- `np2umode`. -/
def np2umode (mode : UInt32) (extension : List UInt8) (dotu : Bool) : UInt32 :=
  let ret := mode &&& 0o777 ||| flag (mode &&& Dmdir ≠ 0) S_IFDIR |||
    if dotu then
      flag (mode &&& Dmsymlink ≠ 0) S_IFLNK ||| flag (mode &&& Dmsocket ≠ 0) S_IFSOCK |||
        flag (mode &&& Dmnamedpipe ≠ 0) S_IFIFO |||
        flag (mode &&& Dmdevice ≠ 0) (if extension.headD 0 = 0x63 then S_IFCHR else S_IFBLK)
    else 0
  ret ||| flag (ret &&& ~~~0o777 = 0) S_IFREG ||| flag (mode &&& Dmsetuid ≠ 0) S_ISUID |||
    flag (mode &&& Dmsetgid ≠ 0) S_ISGID

/-- `omode2uflags`. -/
def omode2uflags (mode : UInt8) : UInt32 :=
  (if mode &&& 3 = Ordwr then O_RDWR else if mode &&& 3 = Owrite then O_WRONLY else 0) |||
    flag (mode &&& Otrunc ≠ 0) O_TRUNC ||| flag (mode &&& Oappend ≠ 0) O_APPEND |||
    flag (mode &&& Oexcl ≠ 0) O_EXCL

/-- `makedev` of the C library. -/
def makedev (major minor : UInt32) : UInt64 :=
  let high (x : UInt32) (mask : UInt64) (shift : UInt64) : UInt64 := (x.toUInt64 &&& mask) <<< shift
  high major 0xFFFFF000 32 ||| high major 0xFFF 8 ||| high minor 0xFFFFFF00 12 ||| high minor 0xFF 0

/-- `major` of the C library. -/
def major (dev : UInt64) : UInt32 :=
  let low (shift mask : UInt64) : UInt64 := (dev >>> shift) &&& mask
  (low 32 0xFFFFF000 ||| low 8 0xFFF).toUInt32

/-- `minor` of the C library. -/
def minor (dev : UInt64) : UInt32 :=
  let low (shift mask : UInt64) : UInt64 := (dev >>> shift) &&& mask
  (low 12 0xFFFFFF00 ||| low 0 0xFF).toUInt32

/-! ## The attributes of the mapped id model -/

/-- `VIRTFS_PREFIX`. -/
def VIRTFS_PREFIX : List UInt8 := (cstr "user.virtfs.").bytes

/-- `VIRTFS_UID`. -/
def VIRTFS_UID : CStr := cstr "user.virtfs.uid"

/-- `VIRTFS_GID`. -/
def VIRTFS_GID : CStr := cstr "user.virtfs.gid"

/-- `VIRTFS_MODE`. -/
def VIRTFS_MODE : CStr := cstr "user.virtfs.mode"

/-- `VIRTFS_RDEV`. -/
def VIRTFS_RDEV : CStr := cstr "user.virtfs.rdev"

/-- `MAPPED_FILE_MODE`. -/
def MAPPED_FILE_MODE : UInt32 := 0o600

/-- `MAPPED_DIR_MODE`. -/
def MAPPED_DIR_MODE : UInt32 := 0o700

/-- `mapped_get`: the value, if the file carries the attribute. -/
def mappedGet (path name : CStr) (n : Nat) : Code (Except Errno (Option UInt64)) := do
  let r : Except Errno (Nat × List UInt8) ← sys (.lgetxattr path name n)
  match r with
  | .error errno =>
    if errno = ENODATA ∨ errno = EOPNOTSUPP ∨ errno = EPERM then
      return .ok none
    else
      return .error errno
  | .ok (r, buf) =>
    if r ≠ n then
      return .error EIO
    else
      return .ok (some (word64 fun i => buf.getD i 0))

/-- `mapped_put`. -/
def mappedPut (path name : CStr) (n : Nat) (val : UInt64) : Code (Except Errno Unit) :=
  sys (.lsetxattr path name ((bytes64 val).take n) 0)

/-- `mapped_stat`: the error, and what has become of `*st`. -/
def mappedStat (path : CStr) (st : Stat) : Code (Except Errno Unit × Stat) := do
  match ← mappedGet path VIRTFS_UID 4 with
  | .error err => return (.error err, st)
  | .ok v =>
    let st := { st with uid := (v.map (·.toUInt32)).getD 0 }
    match ← mappedGet path VIRTFS_GID 4 with
    | .error err => return (.error err, st)
    | .ok v =>
      let st := { st with gid := (v.map (·.toUInt32)).getD 0 }
      match ← mappedGet path VIRTFS_MODE 4 with
      | .error err => return (.error err, st)
      | .ok v =>
        let st := { st with mode := (v.map (·.toUInt32)).getD st.mode }
        match ← mappedGet path VIRTFS_RDEV 8 with
        | .error err => return (.error err, st)
        | .ok v => return (.ok (), { st with rdev := v.getD st.rdev })

/-- `ufs_lstat`. -/
def ufsLstat (path : CStr) (mapped : Bool) : Code (Except Errno Stat) := do
  let st : Except Errno Stat ← sys (.lstat path)
  match st with
  | .error errno => return .error errno
  | .ok st =>
    if mapped then
      let (err, st) ← mappedStat path st
      return err.map fun _ => st
    else
      return .ok st

/-- `mapped_create`. -/
def mappedCreate (path : CStr) (uid gid mode : UInt32) (rdev : Option UInt64) :
    Code (Except Errno Unit) := do
  match ← mappedPut path VIRTFS_UID 4 uid.toUInt64 with
  | .error err => return .error err
  | .ok _ =>
    match ← mappedPut path VIRTFS_GID 4 gid.toUInt64 with
    | .error err => return .error err
    | .ok _ =>
      match ← mappedPut path VIRTFS_MODE 4 mode.toUInt64 with
      | .error err => return .error err
      | .ok _ =>
        match rdev with
        | none => return .ok ()
        | some rdev => mappedPut path VIRTFS_RDEV 8 rdev

/-- `mapped_name`. -/
def mappedName (name : List UInt8) : Bool :=
  VIRTFS_PREFIX.length ≤ name.length ∧ name.take VIRTFS_PREFIX.length = VIRTFS_PREFIX

/-- `fidstat`: the error, and what has become of the fid. -/
def fidstat (fid : FidPtr) (f : Fid) : Code (Except Errno Unit × Fid) := do
  let st : Except Errno Stat ← sys (.lstat f.path)
  match st with
  | .error errno => return (.error errno, f)
  | .ok st =>
    let f := { f with stat := st, hmode := st.mode }
    if f.mapped then
      let (err, st) ← mappedStat f.path f.stat
      let f := { f with stat := st }
      setAux fid f
      return (err, f)
    else
      setAux fid f
      return (.ok (), f)

/-- `fidstat` in front of the rest of a function, which returns `NULL` when it fails. -/
def withStat {α : Type} (fid : FidPtr) (f : Fid) (rest : Fid → Code (Option α)) :
    Code (Option α) := do
  let (err, f) ← fidstat fid f
  check err fun _ => rest f

/-- `strnlen`. -/
def strnlen (buf : List UInt8) (n : Nat) : Nat := (buf.take n).findIdx (· = 0)

/-- The loop of `mapped_unlist`. -/
def unlist (n : Nat) : (turns : Nat) → (buf : List UInt8) → (i out : Nat) → List UInt8 × Nat
  | 0, buf, _, out => (buf, out)
  | turns + 1, buf, i, out =>
    if i < n then
      let len := strnlen (buf.drop i) (n - i)
      if len = n - i then
        (buf, out)
      else if mappedName ((buf.drop i).take len) then
        unlist n turns buf (i + (len + 1)) out
      else
        unlist n turns (store buf out ((buf.drop i).take (len + 1))) (i + (len + 1)) (out + (len + 1))
    else
      (buf, out)

/-- `mapped_unlist`, with the buffer that it leaves. -/
def mappedUnlist (buf : List UInt8) (n : Nat) : List UInt8 × Nat := unlist n n buf 0 0

end Ufs

end Npfs
