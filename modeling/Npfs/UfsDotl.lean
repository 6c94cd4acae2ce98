import Npfs.UfsOps

/-!
# The handlers of `libufs` for 9P2000.L

The functions of `libufs/ops.c` for the messages that only 9P2000.L has, and the table that
`ufs_start` makes of all of them.
-/

namespace Npfs

namespace Ufs

/-- One way under the mapped id model, and another one without it. -/
def byModel {α : Type} (f : Fid) (mapped passthrough : Code α) : Code α :=
  if f.mapped then mapped else passthrough

/-! ## Creating -/

/-- A file that has been made gets its attributes. -/
def attributesIf (made : Bool) (attributes : Code (Except Errno Unit)) :
    Code (Except Errno Unit) :=
  if made then attributes else return .ok ()

/-- `npfs_lcreate` when the file is open: its attributes, if it has been made, and its status. -/
def npfsLcreated (fid : FidPtr) (f : Fid) (npath : CStr) (fd : UInt64) (made : Bool)
    (attributes : Code (Except Errno Unit)) : Code (Option Npfcall) := do
  let err ← attributesIf made attributes
  match err with
  | .error err => do
    let _ ← data (.close fd)
    setAux fid { f with fd := none }
    let _ ← sys (.remove npath)
    createRerror err
  | .ok _ =>
    let (err, f) ← fidstat fid { f with path := npath }
    match err with
    | .error err => do
      let _ ← data (.close fd)
      setAux fid { f with fd := none }
      if made ∨ ¬ f.mapped then do
        let _ ← sys (.remove f.path)
        createRerror err
      else
        createRerror err
    | .ok _ => create (npCreateRlcreate (ustat2qid f.stat) 0)

/-- A file that is there already is opened, when the first `open` says that it is there. -/
def openExisting (f : Fid) (npath : CStr) (flags : UInt32) (fd : Except Errno UInt64) :
    Code (Except Errno UInt64) :=
  match fd with
  | .ok fd => return .ok fd
  | .error errno =>
    if f.mapped ∧ errno = EEXIST ∧ flags &&& O_EXCL = 0 then
      sys (.open npath (flags &&& ~~~O_CREAT) 0)
    else
      return .error errno

/-- `npfs_lcreate`. -/
def npfsLcreate (fid : FidPtr) (name : List UInt8) (flags perm gid : UInt32) :
    Code (Option Npfcall) :=
  withAux fid fun f => withStat fid f fun f => do
    let npath := ufsJoin f.path.bytes name
    let flags := flags ||| O_CREAT
    let fd : Except Errno UInt64 ←
      sys (.open npath (if f.mapped then flags ||| O_EXCL else flags)
        (if f.mapped then MAPPED_FILE_MODE else perm))
    let made := f.mapped && fd.toBool
    let fd ← openExisting f npath flags fd
    let f := { f with fd := fd.toOption }
    setAux fid f
    check fd fun fd => npfsLcreated fid f npath fd made do
      let uid ← userUid fid
      mappedCreate npath uid gid (S_IFREG ||| perm &&& 0o7777) none

/-- The loop of `mapped_symlink` that writes the target. -/
def writeTarget (fd : UInt64) : (turns : Nat) → (rest : List UInt8) → Code (Except Errno Unit)
  | 0, _ => return .ok ()
  | turns + 1, rest =>
    if rest = [] then
      return .ok ()
    else do
      let w ← data (.write fd rest)
      match w with
      | .error errno => return .error errno
      | .ok w =>
        if w.number = 0 then
          return .error EIO
        else
          writeTarget fd turns (rest.drop w.number.toNat)

/-- The file gets its attributes unless something has failed before. -/
def attributesUnless (err closed : Except Errno Unit) (attributes : Code (Except Errno Unit)) :
    Code (Except Errno Unit) :=
  match err, closed with
  | .ok _, .ok _ => attributes
  | .ok _, .error errno => return .error errno
  | .error err, _ => return .error err

/-- The end of `mapped_symlink` and `mapped_mknod`: the file is closed and gets its attributes, or
is removed again. -/
def finishNode (path : CStr) (fd : UInt64) (err : Except Errno Unit)
    (attributes : Code (Except Errno Unit)) : Code (Except Errno Unit) := do
  let closed ← data (.close fd)
  let err ← attributesUnless err (closed.map fun _ => ()) attributes
  match err with
  | .ok _ => return .ok ()
  | .error err => do
    let _ ← sys (.unlink path)
    return .error err

/-- `mapped_symlink`. -/
def mappedSymlink (target : List UInt8) (path : CStr) (uid gid : UInt32) :
    Code (Except Errno Unit) := do
  let fd : Except Errno UInt64 ←
    sys (.open path (O_CREAT ||| O_EXCL ||| O_WRONLY) MAPPED_FILE_MODE)
  match fd with
  | .error errno => return .error errno
  | .ok fd =>
    let err ← writeTarget fd target.length target
    finishNode path fd err (mappedCreate path uid gid (S_IFLNK ||| 0o777) none)

/-- The status of the node that a request has made, and its reply. -/
def replyNode (npath : CStr) (mapped : Bool) (err : Except Errno Unit)
    (constructor : Npqid → Malloc → Option Npfcall) : Code (Option Npfcall) :=
  check err fun _ => do
    check (← ufsLstat npath mapped) fun st => create (constructor (ustat2qid st))

/-- `npfs_symlink`. -/
def npfsSymlink (dfid : FidPtr) (name symtgt : List UInt8) (gid : UInt32) :
    Code (Option Npfcall) :=
  withAux dfid fun f => do
    let npath := ufsJoin f.path.bytes name
    let err ← byModel f
      (do mappedSymlink symtgt npath (← userUid dfid) gid)
      (sys (.symlink (npStrdup symtgt) npath))
    replyNode npath f.mapped err npCreateRsymlink

/-- `mapped_mknod`. -/
def mappedMknod (path : CStr) (perm : UInt32) (rdev : UInt64) (uid gid : UInt32) :
    Code (Except Errno Unit) := do
  let type := if perm &&& S_IFMT = 0 then S_IFREG else perm &&& S_IFMT
  if type ∉ [S_IFREG, S_IFCHR, S_IFBLK, S_IFIFO, S_IFSOCK] then
    return .error EINVAL
  else
    let fd : Except Errno UInt64 ←
      sys (.open path (O_CREAT ||| O_EXCL ||| O_WRONLY) MAPPED_FILE_MODE)
    match fd with
    | .error errno => return .error errno
    | .ok fd =>
      finishNode path fd (.ok ()) (mappedCreate path uid gid (type ||| perm &&& 0o7777) rdev)

/-- `npfs_mknod`. -/
def npfsMknod (dfid : FidPtr) (name : List UInt8) (perm major minor gid : UInt32) :
    Code (Option Npfcall) :=
  withAux dfid fun f => do
    let npath := ufsJoin f.path.bytes name
    let err ← byModel f
      (do mappedMknod npath perm (makedev major minor) (← userUid dfid) gid)
      (sys (.mknod npath perm (makedev major minor)))
    replyNode npath f.mapped err npCreateRmknod

/-- `npfs_mkdir`. -/
def npfsMkdir (dfid : FidPtr) (name : List UInt8) (perm gid : UInt32) : Code (Option Npfcall) :=
  withAux dfid fun f => do
    let npath := ufsJoin f.path.bytes name
    let made : Except Errno Unit ←
      sys (.mkdir npath (if f.mapped then MAPPED_DIR_MODE else perm &&& 0o777))
    check made fun _ => do
      let err ← byModel f
        (do mappedCreate npath (← userUid dfid) gid (S_IFDIR ||| perm &&& 0o7777) none)
        (return .ok ())
      match err with
      | .error err => do
        let _ ← sys (.rmdir npath)
        createRerror err
      | .ok _ => replyNode npath f.mapped (.ok ()) npCreateRmkdir

/-! ## Names -/

/-- `npfs_rename`. -/
def npfsRename (fid dfid : FidPtr) (name : List UInt8) : Code (Option Npfcall) :=
  withAux fid fun f => withAux dfid fun df => do
    let npath := ufsJoin df.path.bytes name
    check (← sys (.rename f.path npath)) fun _ => do
      let f := { f with path := npath }
      setAux fid f
      withStat fid f fun _ => create npCreateRrename

/-- `npfs_renameat`. -/
def npfsRenameat (dfid : FidPtr) (oname : List UInt8) (newfid : FidPtr) (name : List UInt8) :
    Code (Option Npfcall) :=
  withAux dfid fun of => withAux newfid fun nf => do
    check (← sys (.rename (ufsJoin of.path.bytes oname) (ufsJoin nf.path.bytes name))) fun _ =>
      create npCreateRrenameat

/-- `npfs_link`.  The path that it links is that of `dfid`. -/
def npfsLink (dfid : FidPtr) (name : List UInt8) : Code (Option Npfcall) :=
  withAux dfid fun f => do
    check (← sys (.link f.path (ufsJoin f.path.bytes name))) fun _ => create npCreateRlink

/-- The descriptor of the directory in `npfs_unlinkat`. -/
def dirFd (f : Fid) : Code (Except Errno UInt64) :=
  match f.fd with
  | some fd => return .ok fd
  | none => sys (.open f.path 0 0)

/-- `npfs_unlinkat`. -/
def npfsUnlinkat (dfid : FidPtr) (name : List UInt8) : Code (Option Npfcall) :=
  withAux dfid fun f => do
    let npath := npStrdup name
    let fd ← dirFd f
    setAux dfid { f with fd := fd.toOption }
    check fd fun fd => do
      let unlinked : Except Errno Unit ← sys (.unlinkat fd npath false)
      match unlinked with
      | .ok _ => create npCreateRunlinkat
      | .error errno =>
        if errno = EISDIR then
          check (← sys (.unlinkat fd npath true)) fun _ => create npCreateRunlinkat
        else
          createRerror errno

/-- The loop of `mapped_readlink`. -/
def readTarget (fd : UInt64) (max : Nat) :
    (turns : Nat) → (buf : List UInt8) → Code (Except Errno (List UInt8))
  | 0, buf => return .ok buf
  | turns + 1, buf =>
    if buf.length < max then do
      let r ← data (.read fd (max - buf.length))
      match r with
      | .error errno => return .error errno
      | .ok r =>
        let bytes := r.bytes.take (max - buf.length)
        if bytes = [] then return .ok buf else readTarget fd max turns (buf ++ bytes)
    else
      return .ok buf

/-- `mapped_readlink`. -/
def mappedReadlink (path : CStr) (max : Nat) : Code (Except Errno (List UInt8)) := do
  let fd : Except Errno UInt64 ← sys (.open path O_NOFOLLOW 0)
  match fd with
  | .error errno => return .error errno
  | .ok fd =>
    let target ← readTarget fd max max []
    let _ ← data (.close fd)
    return target

/-- `sizeof(buf) - 1` in `npfs_readlink`. -/
def TARGET_MAX : Nat := 4095

/-- `npfs_readlink` of a link of the host. -/
def readHostLink (f : Fid) : Code (Option Npfcall) := do
  check (← data (.readlink f.path TARGET_MAX)) fun target =>
    create (npCreateRreadlink (npStrdup (target.bytes.take TARGET_MAX)))

/-- `npfs_readlink`. -/
def npfsReadlink (fid : FidPtr) : Code (Option Npfcall) :=
  withAux fid fun f =>
    if f.mapped then
      withStat fid f fun f =>
        if isType S_IFLNK f.hmode then
          readHostLink f
        else if isType S_IFLNK f.stat.mode then do
          check (← mappedReadlink f.path TARGET_MAX) fun target =>
            create (npCreateRreadlink (npStrdup target))
        else
          createRerror EINVAL
    else
      readHostLink f

/-! ## Attributes -/

/-- `ASmode`. -/
def ASmode : UInt64 := 0x0001

/-- `ASuid`. -/
def ASuid : UInt64 := 0x0002

/-- `ASgid`. -/
def ASgid : UInt64 := 0x0004

/-- `ASsize`. -/
def ASsize : UInt64 := 0x0008

/-- `ASatime`. -/
def ASatime : UInt64 := 0x0010

/-- `ASmtime`. -/
def ASmtime : UInt64 := 0x0020

/-- `ASctime`. -/
def ASctime : UInt64 := 0x0040

/-- `ASatimeuse`. -/
def ASatimeuse : UInt64 := 0x0080

/-- `ASmtimeuse`. -/
def ASmtimeuse : UInt64 := 0x0100

/-- `npfs_getattr`. -/
def npfsGetattr (fid : FidPtr) : Code (Option Npfcall) :=
  withAux fid fun f => withStat fid f fun f => do
    let at_ := ustat2attrs f.stat
    create (npCreateRgetattr at_.mask at_ (ustat2qid f.stat))

/-- The times that `npfs_setattr` sets. -/
def setTimes (f : Fid) (attrs : Npattrs) (rest : Code (Option Npfcall)) : Code (Option Npfcall) :=
  if attrs.mask &&& (ASatime ||| ASmtime) ≠ 0 then do
    let now ← data .gettimeofday
    let (nowSec, nowUsec) := match now with
      | .ok now => (now.number, now.usec)
      | .error _ => (0, 0)
    let tv (sets use : UInt64) (sec nsec oldSec oldNsec : UInt64) : UInt64 × UInt64 :=
      if attrs.mask &&& sets ≠ 0 then
        if attrs.mask &&& use ≠ 0 then (sec, nsec / 1000) else (nowSec, nowUsec)
      else
        (oldSec, oldNsec / 1000)
    let atime := tv ASatime ASatimeuse attrs.atimeSec attrs.atimeNsec f.stat.atimeSec f.stat.atimeNsec
    let mtime := tv ASmtime ASmtimeuse attrs.mtimeSec attrs.mtimeNsec f.stat.mtimeSec f.stat.mtimeNsec
    check (← data (.utimes f.path atime.1 atime.2 mtime.1 mtime.2)) fun _ => rest
  else
    rest

/-- The mode, the owner and the group that `npfs_setattr` keeps in the attributes of a file. -/
def setMapped (fid : FidPtr) (f : Fid) (attrs : Npattrs) (rest : Fid → Code (Option Npfcall)) :
    Code (Option Npfcall) :=
  withStat fid f fun f =>
    checkIf (attrs.mask &&& ASmode ≠ 0)
      (mappedPut f.path VIRTFS_MODE 4
        (f.stat.mode &&& S_IFMT ||| attrs.mode &&& 0o7777).toUInt64) <|
    checkIf (attrs.mask &&& ASuid ≠ 0) (mappedPut f.path VIRTFS_UID 4 attrs.uid.toUInt64) <|
    checkIf (attrs.mask &&& ASgid ≠ 0) (mappedPut f.path VIRTFS_GID 4 attrs.gid.toUInt64) <|
    checkIf (attrs.mask &&& (ASmode ||| ASuid ||| ASgid ||| ASctime) = ASctime)
      (data (.lchown f.path 0xFFFFFFFF 0xFFFFFFFF)) <|
    rest f

/-- The mode, the owner and the group that `npfs_setattr` gives to a file of the host. -/
def setHost (f : Fid) (attrs : Npattrs) (rest : Code (Option Npfcall)) : Code (Option Npfcall) :=
  checkIf (attrs.mask &&& ASmode ≠ 0) (data (.chmod f.path attrs.mode)) <|
  checkIf (attrs.mask &&& (ASuid ||| ASgid ||| ASctime) ≠ 0)
    (data (.chown f.path
      (if attrs.mask &&& ASuid ≠ 0 then attrs.uid else 0xFFFFFFFF)
      (if attrs.mask &&& ASgid ≠ 0 then attrs.gid else 0xFFFFFFFF)))
    rest

/-- The end of `npfs_setattr`: the size and the times. -/
def setRest (fid : FidPtr) (attrs : Npattrs) (f : Fid) : Code (Option Npfcall) :=
  checkIf (attrs.mask &&& ASsize ≠ 0) (data (.truncate f.path attrs.size)) <|
  setTimes f attrs <|
  withStat fid f fun _ => create npCreateRsetattr

/-- `npfs_setattr`. -/
def npfsSetattr (fid : FidPtr) (attrs : Npattrs) : Code (Option Npfcall) :=
  withAux fid fun f =>
    if f.mapped then
      setMapped fid f attrs (setRest fid attrs)
    else
      setHost f attrs (setRest fid attrs f)

/-! ## Extended attributes -/

/-- The loops of `npfs_xattrwalk`: the size is asked for until what is then read has it. -/
def fetchAgain (query : Nat → Code (Except Errno (Nat × List UInt8))) :
    (turns : Nat) → Code (Except Errno (Nat × List UInt8))
  | 0 => do
    np .crash
    return .error EIO
  | turns + 1 => do
    match ← query 0 with
    | .error errno => return .error errno
    | .ok (sz, _) =>
      match ← query sz with
      | .error _ => fetchAgain query turns
      | .ok (n, buf) => if n ≠ sz then fetchAgain query turns else return .ok (n, buf)

/-- The value that `npfs_xattrwalk` fetches, and its size. -/
def xattrValue (nf : Fid) (name : List UInt8) (turns : Nat) : Code (Option (Nat × List UInt8)) :=
  if name = [] then do
    check (← fetchAgain (fun size => sys (.llistxattr nf.path size)) turns) fun (n, buf) =>
      if nf.mapped then
        return some (mappedUnlist buf n).swap
      else
        return some (n, buf)
  else if nf.mapped ∧ mappedName name then
    createRerror ENODATA
  else do
    check (← fetchAgain (fun size => sys (.lgetxattr nf.path (npStrdup name) size)) turns)
      fun found => return some found

/-- `npfs_xattrwalk`. -/
def npfsXattrwalk (fid newfid : FidPtr) (name : List UInt8) : Code (Option Npfcall) :=
  withAux fid fun f => npfsCheckRegular f do
    npfsSetUser fid
    let u ← ufs
    let nf := { npfsFidalloc f.path with mapped := f.mapped }
    setAux newfid nf
    np (.setOmode newfid Oread.toUInt16)
    match ← xattrValue nf name u.turns with
    | none => return none
    | some (n, buf) => do
      let nf := { nf with xattrsz := UInt64.ofNat n, xattrdata := some buf }
      setAux newfid nf
      np (.fidIncref newfid)
      create (npCreateRxattrwalk nf.xattrsz)

/-- `npfs_xattrcreate`. -/
def npfsXattrcreate (fid : FidPtr) (name : List UInt8) (size : UInt64) (flags : UInt32) :
    Code (Option Npfcall) :=
  withAux fid fun f => npfsCheckRegular f do
    if f.mapped ∧ mappedName name then
      createRerror EACCES
    else
      let xdata : Option (List UInt8) ← sys (.malloc (if size = 0 then 1 else size.toNat))
      match xdata with
      | none => createRerror ENOMEM
      | some xdata => do
        setAux fid { f with
          xattrname := some (npStrdup name)
          xattrflags := flags
          xattrsz := size
          xattrdata := some xdata }
        np (.setOmode fid Owrite.toUInt16)
        create npCreateRxattrcreate

/-! ## Directories and locks -/

/-- `np_serialize_dirent`: the number of bytes that it returns, and what it leaves in the buffer. -/
def npSerializeDirent (qid : Npqid) (offset : UInt64) (type : UInt8) (name : CStr)
    (buf : List UInt8) : Nat × List UInt8 :=
  if 13 + 8 + 1 + 2 + name.strlen > buf.length then
    (0, buf)
  else
    match PutOp.execAll (bufPutQid qid (fun _ fc => fc) ++
        [.int64 offset null, .int8 type null, .str (some name) null])
        (Cbuf.bufInit buf 0 buf.length, default) with
    | none => (0, buf)
    | some (bufp, _) => (if bufp.bufCheckOverflow then 0 else (bufp.p - bufp.sp).toNat, bufp.mem)

/-- `DT_UNKNOWN`. -/
def DT_UNKNOWN : UInt8 := 0

/-- `DT_DIR`. -/
def DT_DIR : UInt8 := 4

/-- `DT_LNK`. -/
def DT_LNK : UInt8 := 10

/-- The qid of an entry in `npfs_readdir`. -/
def direntQid (f : Fid) (dirent : Dirent) : Code (Except Errno Npqid) :=
  if dirent.type = DT_UNKNOWN then do
    let st : Except Errno Stat ← sys (.lstat (ufsJoin f.path.bytes dirent.name.bytes))
    return st.map ustat2qid
  else
    return .ok {
      path := dirent.ino
      version := 0
      type := flag (dirent.type = DT_DIR) Qtdir.toUInt8 ||| flag (dirent.type = DT_LNK) Qtsymlink }

/-- The type of an entry in `npfs_readdir`: under the mapped id model that of the host says
nothing. -/
def shownType (f : Fid) (dirent : Dirent) : UInt8 := if f.mapped then DT_UNKNOWN else dirent.type

/-- The loop of `npfs_readdir`: the bytes that it has written and their number. -/
def readdirLoop (f : Fid) (dir : UInt64) (count : Nat) :
    (turns : Nat) → (buf : List UInt8) → (n : Nat) → Code (Option (List UInt8 × Nat))
  | 0, buf, n => do
    np .crash
    return some (buf, n)
  | turns + 1, buf, n =>
    if n < count then do
      let diroff ← data (.telldir dir)
      let read ← data (.readdir dir)
      match read.toOption.bind (·.dirent) with
      | none => return some (buf, n)
      | some dirent =>
        if isDots dirent.name then
          readdirLoop f dir count turns buf n
        else
          match ← direntQid f dirent with
          | .error errno => createRerror errno
          | .ok qid =>
            let (i, mem) := npSerializeDirent qid dirent.off (shownType f dirent) dirent.name
              ((buf.drop n).take (count - n - 1))
            let buf := store buf n mem
            if i = 0 then do
              let _ ← data (.seekdir dir ((diroff.toOption.map (·.number)).getD 0))
              return some (buf, n)
            else
              readdirLoop f dir count turns buf (n + i)
    else
      return some (buf, n)

/-- The directory that `npfs_readdir` reads. -/
def openDir (f : Fid) : Code (Except Errno UInt64) :=
  match f.dir with
  | some dir => return .ok dir
  | none => do
    let dir ← data (.fdopendir (f.fd.getD noFd))
    return dir.map (·.number)

/-- `npfs_readdir`. -/
def npfsReaddir (dfid : FidPtr) (offset : UInt64) (count : UInt32) : Code (Option Npfcall) :=
  withAux dfid fun f => do
    let ret ← create (npAllocRreaddir count)
    npfsSetUser dfid
    let dir ← openDir f
    setAux dfid { f with dir := dir.toOption }
    check dir fun dir => do
      rewind dir offset
      match ret with
      | none => do
        np .crash
        return none
      | some ret =>
        let u ← ufs
        match ← readdirLoop f dir count.toNat u.turns ((ret.pkt.drop 11).take count.toNat) 0 with
        | none => return none
        | some (buf, n) => return some (setRread ret buf n)

/-- The descriptor that `npfs_fsync` flushes. -/
def syncFd (f : Fid) : Code (Except Errno UInt64) :=
  match f.fd, f.dir with
  | some fd, _ => return .ok fd
  | none, some dir => do
    let fd ← data (.dirfd dir)
    return fd.map (·.number)
  | none, none => return .error EBADF

/-- `npfs_fsync`. -/
def npfsFsync (fid : FidPtr) : Code (Option Npfcall) :=
  withAux fid fun f => do
    let fd ← syncFd f
    check fd fun fd => do check (← data (.fsync fd)) fun _ => create npCreateRfsync

/-- `LFblock`. -/
def LFblock : UInt32 := 1

/-- `LSsuccess`. -/
def LSsuccess : UInt8 := 0

/-- `F_GETLK`, `F_SETLK` and `F_SETLKW`. -/
def F_GETLK : UInt32 := 5

/-- `F_SETLK`. -/
def F_SETLK : UInt32 := 6

/-- `F_SETLKW`. -/
def F_SETLKW : UInt32 := 7

/-- `npfs_flock`. -/
def npfsFlock (fid : FidPtr) (type : UInt8) (flags : UInt32) (offset length : UInt64)
    (procid : UInt32) : Code (Option Npfcall) :=
  withAux fid fun f => do
    let op := if flags &&& LFblock ≠ 0 then F_SETLKW else F_SETLK
    check (← data (.lock (f.fd.getD noFd) op ⟨type, offset, length, procid⟩)) fun _ =>
      create (npCreateRlock LSsuccess)

/-- `npfs_getlock`. -/
def npfsGetlock (fid : FidPtr) (type : UInt8) (offset length : UInt64) (procid : UInt32) :
    Code (Option Npfcall) :=
  withAux fid fun f => do
    check (← data (.lock (f.fd.getD noFd) F_GETLK ⟨type, offset, length, procid⟩)) fun fl =>
      let fl := fl.flock
      create (npCreateRgetlock? fl.type fl.start fl.len fl.pid none)

/-! ## The server -/

/-- A call on a descriptor or a directory, if there is one. -/
def ifOpen (handle : Option UInt64) (call : UInt64 → DataCall) : Code Unit :=
  match handle with
  | none => return ()
  | some handle => do
    let _ ← data (call handle)
    return ()

/-- `npfs_fiddestroy`. -/
def npfsFiddestroy (fid : FidPtr) : Code Unit :=
  .step (.aux fid) fun f =>
    match f with
    | none => return ()
    | some f => do
      ifOpen f.fd .close
      ifOpen f.dir .closedir

/-- The functions of the file server that `ufs_start` makes. It has no `Npauth`. -/
def ufsStart : (callback : Callback) → Code callback.Reply
  | .attach fid afid _ aname => npfsAttach fid afid aname
  | .clone fid newfid => npfsClone fid newfid
  | .walk fid wname => npfsWalk fid wname
  | .openFid fid mode => npfsOpen fid mode
  | .create fid name perm mode extension => npfsCreate fid name perm mode extension
  | .read fid offset count => npfsRead fid offset count
  | .write fid offset _ data => npfsWrite fid offset data
  | .clunk fid => npfsClunk fid
  | .remove fid => npfsRemove fid
  | .stat fid => npfsStat fid
  | .wstat fid stat pkt => npfsWstat fid stat pkt
  | .statfs fid => npfsStatfs fid
  | .lopen fid flags => npfsLopen fid flags
  | .lcreate fid name flags perm gid => npfsLcreate fid name flags perm gid
  | .symlink dfid name symtgt gid => npfsSymlink dfid name symtgt gid
  | .mknod dfid name perm major minor gid => npfsMknod dfid name perm major minor gid
  | .rename fid dfid name => npfsRename fid dfid name
  | .readlink fid => npfsReadlink fid
  | .getattr fid _ => npfsGetattr fid
  | .setattr fid attrs => npfsSetattr fid attrs
  | .xattrwalk fid newfid name => npfsXattrwalk fid newfid name
  | .xattrcreate fid name size flags => npfsXattrcreate fid name size flags
  | .xattrread fid offset count => npfsXattrread fid offset count
  | .xattrwrite fid offset count data => npfsXattrwrite fid offset count data
  | .readdir dfid offset count => npfsReaddir dfid offset count
  | .fsync fid => npfsFsync fid
  | .flock fid type flags offset length procid _ => npfsFlock fid type flags offset length procid
  | .getlock fid type offset length procid _ => npfsGetlock fid type offset length procid
  | .link dfid _ name => npfsLink dfid name
  | .mkdir dfid name perm gid => npfsMkdir dfid name perm gid
  | .renameat dfid oname newfid name => npfsRenameat dfid oname newfid name
  | .unlinkat dfid name => npfsUnlinkat dfid name
  | .fiddestroy fid => npfsFiddestroy fid
  | .uname2user uname => do return (← ufs).uname2user uname
  | .uid2user uid => do return (← ufs).uid2user uid
  | .startauth .. => return none
  | .checkauth .. => return false
  | .authRead .. => return (0, [])
  | .authWrite .. => return (0 : Int)
  | .authClunk _ => return (0 : Int)

end Ufs

end Npfs
