import Npfs.Ufs

/-!
# The handlers of `libufs`

The functions of `libufs/ops.c` that a server calls, one for each callback.
-/

namespace Npfs

namespace Ufs

/-- `npfs_check_regular`. -/
def npfsCheckRegular {α : Type} (f : Fid) (rest : Code (Option α)) : Code (Option α) :=
  if f.xattrdata.isSome then createRerror EINVAL else rest

/-! ## Walking -/

/-- `npfs_attach`. -/
def npfsAttach (nfid : FidPtr) (nafid : Option FidPtr) (aname : List UInt8) :
    Code (Option Npfcall) := do
  npfsSetUser nfid
  if nafid.isSome then
    fail Enoauth EIO
  else
    let u ← ufs
    let path := ufsJoin u.treeaux.bytes aname
    let fid := { npfsFidalloc path with omode := 0xFFFFFFFF, mapped := u.mapped }
    setAux nfid fid
    withStat nfid fid fun fid => do
      let qid := ustat2qid fid.stat
      np (.setType nfid qid.type.toUInt16)
      let ret ← create (npCreateRattach qid)
      np (.fidIncref nfid)
      return ret

/-- `npfs_clone`. -/
def npfsClone (fid newfid : FidPtr) : Code Bool :=
  withAux fid fun f => do
    setAux newfid { npfsFidalloc f.path with mapped := f.mapped }
    return true

/-- `npfs_walk`. -/
def npfsWalk (fid : FidPtr) (wname : List UInt8) : Code (Option Npqid) :=
  withAux fid fun f => do
    npfsSetUser fid
    withStat fid f fun f => do
      let path := ufsJoin f.path.bytes wname
      let st ← ufsLstat path f.mapped
      check st fun st => do
        setAux fid { f with path }
        return some (ustat2qid st)

/-! ## Opening -/

/-- The node of a fid is opened and its status is read again. -/
def openNode (fid : FidPtr) (f : Fid) (flags : UInt32) (rest : Fid → Code (Option Npfcall)) :
    Code (Option Npfcall) :=
  if isType S_IFDIR f.stat.mode then do
    let dir ← data (.opendir f.path)
    let f := { f with dir := dir.toOption.map (·.number) }
    setAux fid f
    check dir fun _ => withStat fid f rest
  else do
    let fd : Except Errno UInt64 ← sys (.open f.path flags 0)
    let f := { f with fd := fd.toOption }
    setAux fid f
    check fd fun _ => withStat fid f rest

/-- `npfs_open`. -/
def npfsOpen (fid : FidPtr) (mode : UInt8) : Code (Option Npfcall) :=
  withAux fid fun f => do
    npfsSetUser fid
    withStat fid f fun f => openNode fid f (omode2uflags mode) fun f => do
      setAux fid { f with omode := mode.toUInt32 }
      create (npCreateRopen (ustat2qid f.stat) 0)

/-- `npfs_lopen`. -/
def npfsLopen (fid : FidPtr) (flags : UInt32) : Code (Option Npfcall) :=
  withAux fid fun f => do
    npfsSetUser fid
    withStat fid f fun f => openNode fid f flags fun f =>
      create (npCreateRlopen (ustat2qid f.stat) 0)

/-! ## Creating in 9P2000.u -/

/-- `Eexist`. -/
def Eexist : CStr := cstr "file or directory already exists"

/-- `Enoextension`. -/
def Enoextension : CStr := cstr "empty extension while creating special file"

/-- `Eformat`. -/
def Eformat : CStr := cstr "incorrect extension format"

/-- The node that `npfs_create_special` makes. -/
def makeSpecial (path : CStr) (perm umode : UInt32) (ext : CStr) (find : UInt32 → Code (Option Fid))
    (rest : Code (Option Unit)) : Code (Option Unit) := do
  let u ← ufs
  if perm &&& Dmsymlink ≠ 0 then
    check (← sys (.symlink ext path)) fun _ => rest
  else if perm &&& Dmlink ≠ 0 then
    match u.scanFid ext with
    | none => fail Eformat EIO
    | some nfid =>
      match ← find nfid with
      | none => fail Eunknownfid EIO
      | some f => check (← sys (.link f.path path)) fun _ => rest
  else if perm &&& Dmdevice ≠ 0 then
    match u.scanDevice ext with
    | none => fail Eformat EIO
    | some (ctype, major, minor) =>
      if ctype = 0x63 then
        check (← sys (.mknod path (S_IFCHR ||| perm &&& 0o777) (makedev major minor))) fun _ => rest
      else if ctype = 0x62 then
        check (← sys (.mknod path (S_IFBLK ||| perm &&& 0o777) (makedev major minor))) fun _ => rest
      else
        fail Eformat EIO
  else if perm &&& Dmnamedpipe ≠ 0 then
    check (← sys (.mknod path (S_IFIFO ||| umode &&& 0o777) 0)) fun _ => rest
  else
    rest

/-- `ofid->aux` of the fid that `np_fid_find` finds. -/
def findAux (n : UInt32) : Code (Option Fid) := do
  let ofid : Option FidPtr ← np (.fidFind n)
  match ofid with
  | none => return none
  | some ofid => withAux ofid fun f => return some f

/-- `npfs_create_special`. -/
def npfsCreateSpecial (fid : FidPtr) (f : Fid) (path : CStr) (perm : UInt32)
    (extension : List UInt8) : Code (Option Unit) :=
  if perm &&& Dmnamedpipe = 0 ∧ extension = [] then
    fail Enoextension EIO
  else do
    let conn : Npconn ← np .conn
    let umode := np2umode perm extension conn.dotu
    makeSpecial path perm umode (npStrdup extension) findAux do
      setAux fid { f with omode := 0 }
      if perm &&& Dmsymlink = 0 then
        check (← data (.chmod path umode)) fun _ => return some ()
      else
        return some ()

/-- The end of `npfs_create`: the new node is looked at, and removed again when that fails. -/
def npfsCreated (fid : FidPtr) (f : Fid) (npath : CStr) (omode : UInt8) (undo : SysCall)
    (rest : Fid → (Fid → Code (Option Npfcall)) → Code (Option Npfcall)) :
    Code (Option Npfcall) := do
  let st : Except Errno Stat ← sys (.lstat npath)
  match st with
  | .error errno => do
    let _ ← sys undo
    createRerror errno
  | .ok st => do
    let f := { f with stat := st }
    setAux fid f
    rest f fun f => do
      setAux fid { f with path := npath, omode := omode.toUInt32 }
      create (npCreateRcreate (ustat2qid f.stat) 0)

/-- `npfs_create`. -/
def npfsCreate (fid : FidPtr) (name : List UInt8) (perm : UInt32) (mode : UInt8)
    (extension : List UInt8) : Code (Option Npfcall) :=
  withAux fid fun f =>
    if f.mapped then
      createRerror EOPNOTSUPP
    else
      withStat fid f fun f => do
        let npath := ufsJoin f.path.bytes name
        let st : Except Errno Stat ← sys (.lstat npath)
        match st with
        | .ok _ => fail Eexist EEXIST
        | .error errno =>
          if errno ≠ ENOENT then
            fail Eexist EEXIST
          else if perm &&& Dmdir ≠ 0 then
            check (← sys (.mkdir npath (perm &&& 0o777))) fun _ =>
              npfsCreated fid f npath mode (.rmdir npath) fun f rest => do
                let dir ← data (.opendir npath)
                let f := { f with dir := dir.toOption.map (·.number) }
                setAux fid f
                match dir with
                | .error errno => do
                  let _ ← sys (.remove npath)
                  createRerror errno
                | .ok _ => rest f
          else if perm &&& (Dmnamedpipe ||| Dmsymlink ||| Dmlink ||| Dmdevice) ≠ 0 then
            match ← npfsCreateSpecial fid f npath perm extension with
            | none => return none
            | some _ =>
              npfsCreated fid { f with omode := 0 } npath mode (.remove npath) fun f rest => rest f
          else
            let fd : Except Errno UInt64 ←
              sys (.open npath (O_CREAT ||| omode2uflags mode) (perm &&& 0o777))
            let f := { f with fd := fd.toOption }
            setAux fid f
            check fd fun _ => npfsCreated fid f npath mode (.remove npath) fun f rest => rest f

/-! ## Reading and writing -/

/-- The name behind the last slash of a path. -/
def basename (path : CStr) : CStr :=
  npStrdup (path.bytes.reverse.takeWhile (· ≠ slash)).reverse

/-- `c` for a character device, and `b` for a block device. -/
def deviceType (mode : UInt32) : UInt8 := if isType S_IFCHR mode then 0x63 else 0x62

/-- `wstat->extension` in `ustat2npwstat`. -/
def npwstatExtension (path : CStr) (st : Stat) (dotu : Bool) : Code (Option CStr) :=
  let mode := umode2npmode st.mode dotu
  if ¬ dotu then
    return none
  else if mode &&& Dmsymlink ≠ 0 then do
    let link ← data (.readlink path 255)
    return some (npStrdup ((link.toOption.map (·.bytes.take 255)).getD []))
  else if mode &&& Dmdevice ≠ 0 then do
    let u ← ufs
    return some (u.printDevice (deviceType st.mode) (major st.rdev) (minor st.rdev))
  else
    return some ⟨[], List.not_mem_nil⟩

/-- `ustat2npwstat`. -/
def ustat2npwstat (path : CStr) (st : Stat) (dotu : Bool) : Code Npwstat := do
  let u ← ufs
  let extension ← npwstatExtension path st dotu
  return {
    (default : Npwstat) with
    qid := ustat2qid st
    mode := umode2npmode st.mode dotu
    atime := st.atimeSec.toUInt32
    mtime := st.mtimeSec.toUInt32
    length := st.size
    uid := some (((u.uid2user st.uid).map u.uname).getD (cstr "???"))
    gid := some ((u.gid2group st.gid).getD (cstr "???"))
    muid := some ⟨[], List.not_mem_nil⟩
    extension
    nUid := flag dotu st.uid
    nGid := flag dotu st.gid
    name := some (basename path) }

/-- `.` and `..`. -/
def isDots (name : CStr) : Bool := name = cstr "." ∨ name = cstr ".."

/-- The loop of `npfs_read_dir`: the bytes that it has written and their number. -/
def readDirLoop (f : Fid) (dir : UInt64) (count : Nat) (dotu : Bool) :
    (turns : Nat) → (buf : List UInt8) → (n : Nat) → Code (List UInt8 × Nat)
  | 0, buf, n => do
    np .crash
    return (buf, n)
  | turns + 1, buf, n =>
    if n < count then do
      let read ← data (.readdir dir)
      match read.toOption.bind (·.dirent) with
      | none => return (buf, n)
      | some dirent =>
        if isDots dirent.name then
          readDirLoop f dir count dotu turns buf n
        else
          let path := ufsJoin f.path.bytes dirent.name.bytes
          let st : Except Errno Stat ← sys (.lstat path)
          match st with
          | .error errno => do
            let _ : Option Unit ← createRerror errno
            return (buf, 0)
          | .ok st =>
            let wstat ← ustat2npwstat path st dotu
            let (i, mem) := npSerializeStat wstat ((buf.drop n).take (count - n - 1)) dotu
            let buf := store buf n mem
            if i = 0 then return (buf, n) else readDirLoop f dir count dotu turns buf (n + i)
    else
      return (buf, n)

/-- The bytes behind `ret->data`, and their number. -/
def setRread (ret : Npfcall) (buf : List UInt8) (n : Nat) : Npfcall :=
  npSetCount { ret with pkt := store ret.pkt 11 buf } (UInt32.ofNat n)

/-- A descriptor of -1. -/
def noFd : UInt64 := 0xFFFFFFFFFFFFFFFF

/-- A directory is read from its beginning when the offset is 0. -/
def rewind (dir offset : UInt64) : Code Unit :=
  if offset = 0 then do
    let _ ← data (.rewinddir dir)
    return ()
  else
    return ()

/-- `npfs_read_dir`. -/
def npfsReadDir (f : Fid) (dir : UInt64) (buf : List UInt8) (offset : UInt64) (count : Nat) :
    Code (List UInt8 × Nat) := do
  rewind dir offset
  let conn : Npconn ← np .conn
  let u ← ufs
  readDirLoop f dir count conn.dotu u.turns buf 0

/-- What `npfs_read` reads of a file. -/
def npfsReadFile (f : Fid) (offset : UInt64) (count : Nat) : Code (List UInt8 × Nat) := do
  let read ← data (.pread (f.fd.getD noFd) count offset)
  match read with
  | .ok read => return (read.bytes.take count, (read.bytes.take count).length)
  | .error errno => do
    let _ : Option Unit ← createRerror errno
    return ([], 0)

/-- What `npfs_read` reads. -/
def npfsReadData (f : Fid) (ret : Npfcall) (offset : UInt64) (count : Nat) :
    Code (List UInt8 × Nat) :=
  match f.dir with
  | some dir => npfsReadDir f dir ((ret.pkt.drop 11).take count) offset count
  | none => npfsReadFile f offset count

/-- `npfs_read`. -/
def npfsRead (fid : FidPtr) (offset : UInt64) (count : UInt32) : Code (Option Npfcall) :=
  withAux fid fun f => do
    let ret ← create (npAllocRread count)
    npfsSetUser fid
    match ret with
    | none => do
      np .crash
      return none
    | some ret =>
      let (buf, n) ← npfsReadData f ret offset count.toNat
      let error : Option Nperror ← np .rerror
      match error with
      | some _ => return none
      | none => return some (setRread ret buf n)

/-- `npfs_write`. -/
def npfsWrite (fid : FidPtr) (offset : UInt64) (payload : List UInt8) : Code (Option Npfcall) :=
  withAux fid fun f => do
    npfsSetUser fid
    let n ← data (.pwrite (f.fd.getD noFd) payload offset)
    check n fun n => create (npCreateRwrite n.number.toUInt32)

/-- The part of a transfer that lies within an attribute value. -/
def xattrCount (f : Fid) (offset : UInt64) (count : UInt32) : UInt32 :=
  if offset ≥ f.xattrsz then 0
  else if offset + count.toUInt64 > f.xattrsz then (f.xattrsz - offset).toUInt32
  else count

/-- `npfs_xattrread`. -/
def npfsXattrread (fid : FidPtr) (offset : UInt64) (count : UInt32) : Code (Option Npfcall) :=
  withAux fid fun f => do
    let n := xattrCount f offset count
    let ret ← create (npAllocRread count)
    match ret with
    | none => createRerror ENOMEM
    | some ret =>
      let bytes := ((f.xattrdata.getD []).drop offset.toNat).take n.toNat
      return some (setRread ret bytes n.toNat)

/-- `npfs_xattrwrite`. -/
def npfsXattrwrite (fid : FidPtr) (offset : UInt64) (count : UInt32) (payload : List UInt8) :
    Code (Option Npfcall) :=
  withAux fid fun f => do
    let n := xattrCount f offset count
    setAux fid { f with
      xattrdata := f.xattrdata.map fun xattrdata =>
        store xattrdata offset.toNat (payload.take n.toNat) }
    create (npCreateRwrite n)

/-! ## Removing and describing -/

/-- `npfs_clunk`. -/
def npfsClunk (fid : FidPtr) : Code (Option Npfcall) :=
  .step (.aux fid) fun f =>
    match f with
    | none => create npCreateRclunk
    | some f =>
      match f.xattrname with
      | none => create npCreateRclunk
      | some xattrname => do
        npfsSetUser fid
        let omode : UInt16 ← np (.omode fid)
        if omode &&& 3 ≠ Oread.toUInt16 then
          if f.xattrsz ≠ 0 then
            let value := (f.xattrdata.getD []).take f.xattrsz.toNat
            check (← sys (.lsetxattr f.path xattrname value f.xattrflags)) fun _ =>
              create npCreateRclunk
          else
            check (← sys (.lremovexattr f.path xattrname)) fun _ => create npCreateRclunk
        else
          create npCreateRclunk

/-- `npfs_remove`. -/
def npfsRemove (fid : FidPtr) : Code (Option Npfcall) :=
  withAux fid fun f => do
    npfsSetUser fid
    check (← sys (.remove f.path)) fun _ => create npCreateRremove

/-- `npfs_stat`. -/
def npfsStat (fid : FidPtr) : Code (Option Npfcall) :=
  withAux fid fun f => do
    npfsSetUser fid
    withStat fid f fun f => do
      let conn : Npconn ← np .conn
      let wstat ← ustat2npwstat f.path f.stat conn.dotu
      create (npCreateRstat wstat conn.dotu)

/-- What is in front of the last slash of a path, or all of a path without one. -/
def dirname (path : CStr) : List UInt8 :=
  if slash ∈ path.bytes then path.bytes.take (path.strlen - (basename path).strlen - 1)
  else path.bytes

/-- The id that a `Twstat` asks for: its number, or what its name stands for. -/
def wstatId (number : UInt32) (name : List UInt8) (find : CStr → Option UInt32)
    (rest : UInt32 → Code (Option Npfcall)) : Code (Option Npfcall) :=
  if number = 0xFFFFFFFF ∧ name ≠ [] then
    match find (npStrdup name) with
    | none => fail Eunknownuser EIO
    | some id => rest id
  else
    rest number

/-- A call that is made under a condition. -/
def checkIf {α β : Type} (condition : Prop) [Decidable condition] (call : Code (Except Errno β))
    (rest : Code (Option α)) : Code (Option α) :=
  if condition then do check (← call) fun _ => rest else rest

/-- `npfs_wstat`.  The strings of `stat` are those of the packet `pkt`. -/
def npfsWstat (fid : FidPtr) (stat : Npstat) (pkt : List UInt8) : Code (Option Npfcall) :=
  withAux fid fun f =>
    if f.mapped then
      createRerror EOPNOTSUPP
    else do
      npfsSetUser fid
      withStat fid f fun f => do
        let u ← ufs
        let conn : Npconn ← np .conn
        let text := Npfcall.text { (default : Npfcall) with pkt }
        let given (n : UInt32) : UInt32 := if conn.dotu then n else 0xFFFFFFFF
        wstatId (given stat.nUid) (text stat.uid) (fun name => (u.uname2user name).map u.uid)
          fun uid => wstatId (given stat.nGid) (text stat.gid) u.gname2group fun gid =>
        if stat.mode ≠ 0xFFFFFFFF ∧ stat.mode &&& Dmdir ≠ 0 ∧ ¬ isType S_IFDIR f.stat.mode then
          fail Edirchange EIO
        else
          checkIf (stat.mode ≠ 0xFFFFFFFF)
            (data (.chmod f.path (np2umode stat.mode (text stat.extension) conn.dotu))) <|
          checkIf (stat.mtime ≠ 0xFFFFFFFF) (data (.utime f.path 0 stat.mtime.toUInt64)) <|
          checkIf (gid ≠ 0xFFFFFFFF) (data (.chown f.path uid gid)) <|
          let npath := ufsJoin (dirname f.path) (text stat.name)
          let renames := text stat.name ≠ [] ∧ npath ≠ f.path
          checkIf renames (sys (.rename f.path npath)) do
            let f := if renames then { f with path := npath } else f
            setAux fid f
            checkIf (stat.length ≠ 0xFFFFFFFFFFFFFFFF) (data (.truncate f.path stat.length)) <|
              create npCreateRwstat

/-- `npfs_statfs`. -/
def npfsStatfs (fid : FidPtr) : Code (Option Npfcall) :=
  withAux fid fun f => do
    npfsSetUser fid
    check (← data (.statfs f.path)) fun stfs => create (npCreateRstatfs stfs.statfs)

end Ufs

end Npfs
