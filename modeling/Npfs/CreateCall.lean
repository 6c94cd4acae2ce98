import Npfs.CreateDotl

/-!
# The calls of all constructors

The constructors of `libnpfs/np.c` that `Npfs.CreateBase` and `Npfs.CreateDotl` leave out, the calls
of all constructors as one type, and the fields that each message has on the wire.
-/

namespace Npfs

open LittleEndian

/-- `np_create_tauth`.  The size formula leaves out `n_uname[4]`. -/
def npCreateTauth (fid : UInt32) (uname aname : Option CStr) (nUname : UInt32) (dotu : Bool) :
    Malloc → Option Npfcall :=
  npCreate .tauth (.ofNat (4 + 2 + 2 + strlen? uname + strlen? aname))
    ([PutOp.int32 fid fun fc fid => { fc with fid },
      .str uname fun fc uname => { fc with uname },
      .str aname fun fc aname => { fc with aname }] ++
      if dotu then [PutOp.int32 nUname fun fc nUname => { fc with nUname }] else [])

/-- `np_create_rerror1`, given the bytes that its `Npstr` counts. It does not store their number. -/
def npCreateRerror1 (ename : List UInt8) (ecode : UInt32) (dotu : Bool) (heap : Malloc) :
    Option Npfcall := do
  let (buf, fc) :=
    npCreateCommon heap (.ofNat (2 + ename.length + if dotu then 4 else 0)) .rerror
  let (str, buf) := buf.bufAlloc ename.length
  let buf ← buf.memmove str ename
  let fc := { fc with ename := ⟨.ofNat ename.length, str⟩ }
  npPostCheck
    (if dotu then bufPutInt32 ecode (fun fc ecode => { fc with ecode }) (buf, fc) else (buf, fc))

/-- `np_create_lerror`. -/
def npCreateLerror (ecode : UInt32) : Malloc → Option Npfcall :=
  npCreate .tlerror 4 [.int32 ecode fun fc ecode => { fc with ecode }]

/-- `np_create_rgetlock` with a `clientid` that may be `NULL`, as in `npfs_getlock`: its size
formula takes `strlen` of it. -/
def npCreateRgetlock? (type : UInt8) (offset length : UInt64) (procid : UInt32) :
    Option CStr → Malloc → Option Npfcall
  | none => fun _ => none
  | some clientid => npCreateRgetlock type offset length procid clientid

/-- A call of a constructor. -/
inductive CreateCall where
  | base (call : BaseCall)
  | dotl (call : DotlCall)
  | tauth (fid : UInt32) (uname aname : Option CStr) (nUname : UInt32)
  | rerror1 (ename : List UInt8) (ecode : UInt32)
  | lerror (ecode : UInt32)
  | rgetlock (type : UInt8) (offset length : UInt64) (procid : UInt32) (clientid : Option CStr)

namespace CreateCall

/-- The type of message that the call builds. -/
def type : CreateCall → MsgType
  | .base call => call.type
  | .dotl call => call.type
  | .tauth .. => .tauth
  | .rerror1 .. => .rerror
  | .lerror .. => .tlerror
  | .rgetlock .. => .rgetlock

/-- Make the call. -/
def run (npErrnoToLinux : UInt32 → UInt32) (dotu : Bool) : CreateCall → Malloc → Option Npfcall
  | .base call => call.run dotu
  | .dotl call => call.run npErrnoToLinux
  | .tauth fid uname aname nUname => npCreateTauth fid uname aname nUname dotu
  | .rerror1 ename ecode => npCreateRerror1 ename ecode dotu
  | .lerror ecode => npCreateLerror ecode
  | .rgetlock type offset length procid clientid =>
    npCreateRgetlock? type offset length procid clientid

end CreateCall

/-! ## The fields on the wire -/

/-- `s[s]`: the number of bytes, and the bytes. -/
def wireStr (s : List UInt8) : List UInt8 := bytes16 (.ofNat s.length) ++ s

/-- `qid[13]`. -/
def wireQid (qid : Npqid) : List UInt8 := qid.type :: (bytes32 qid.version ++ bytes64 qid.path)

/-- A stat record behind its size. -/
def wireStatBody (wstat : Npwstat) (dotu : Bool) : List UInt8 :=
  bytes16 wstat.type ++ bytes32 wstat.dev ++ wireQid wstat.qid ++ bytes32 wstat.mode ++
    bytes32 wstat.atime ++ bytes32 wstat.mtime ++ bytes64 wstat.length ++
    wireStr (CStr.bytes? wstat.name) ++ wireStr (CStr.bytes? wstat.uid) ++
    wireStr (CStr.bytes? wstat.gid) ++ wireStr (CStr.bytes? wstat.muid) ++
    if dotu then
      wireStr (CStr.bytes? wstat.extension) ++ bytes32 wstat.nUid ++ bytes32 wstat.nGid ++
        bytes32 wstat.nMuid
    else []

/-- `stat[n]`: a stat record behind its size, behind the size of both. -/
def wireStat (wstat : Npwstat) (dotu : Bool) : List UInt8 :=
  bytes16 (.ofNat ((wireStatBody wstat dotu).length + 2)) ++
    bytes16 (.ofNat (wireStatBody wstat dotu).length) ++ wireStatBody wstat dotu

/-- The fields of a statistics record. -/
def wireStatfs (stfs : Npstatfs) : List UInt8 :=
  bytes32 stfs.type ++ bytes32 stfs.bsize ++ bytes64 stfs.blocks ++ bytes64 stfs.bfree ++
    bytes64 stfs.bavail ++ bytes64 stfs.files ++ bytes64 stfs.ffree ++ bytes64 stfs.fsid ++
    bytes32 stfs.namelen

/-- The attributes of `Rgetattr`. -/
def wireAttrs (attrs : Npattrs) : List UInt8 :=
  bytes32 attrs.mode ++ bytes32 attrs.uid ++ bytes32 attrs.gid ++ bytes64 attrs.nlink ++
    bytes64 attrs.rdev ++ bytes64 attrs.size ++ bytes64 attrs.blksize ++ bytes64 attrs.blocks ++
    bytes64 attrs.atimeSec ++ bytes64 attrs.atimeNsec ++ bytes64 attrs.mtimeSec ++
    bytes64 attrs.mtimeNsec ++ bytes64 attrs.ctimeSec ++ bytes64 attrs.ctimeNsec ++
    bytes64 attrs.btimeSec ++ bytes64 attrs.btimeNsec ++ bytes64 attrs.gen ++
    bytes64 attrs.dataVersion

/-- The fields of a call's message, as its layout lists them. -/
def BaseCall.wire (dotu : Bool) : BaseCall → List UInt8
  | .tversion msize version | .rversion msize version => bytes32 msize ++ wireStr version.bytes
  | .rauth qid | .rattach qid => wireQid qid
  | .rerror ename ecode => wireStr ename.bytes ++ if dotu then bytes32 ecode else []
  | .tflush oldtag => bytes16 oldtag
  | .tattach fid afid uname aname nUname =>
    bytes32 fid ++ bytes32 afid ++ wireStr (CStr.bytes? uname) ++ wireStr (CStr.bytes? aname) ++
      if dotu then bytes32 nUname else []
  | .twalk fid newfid wnames =>
    bytes32 fid ++ bytes32 newfid ++ bytes16 (.ofNat wnames.length) ++
      wnames.flatMap fun wname => wireStr wname.bytes
  | .rwalk wqids => bytes16 (.ofNat wqids.length) ++ wqids.flatMap wireQid
  | .topen fid mode => bytes32 fid ++ [mode]
  | .ropen qid iounit | .rcreate qid iounit => wireQid qid ++ bytes32 iounit
  | .tcreate fid name perm mode =>
    bytes32 fid ++ wireStr name.bytes ++ bytes32 perm ++ [mode]
  | .tread fid offset count => bytes32 fid ++ bytes64 offset ++ bytes32 count
  | .rread count data => bytes32 count ++ data
  | .twrite fid offset count data => bytes32 fid ++ bytes64 offset ++ bytes32 count ++ data
  | .rwrite count => bytes32 count
  | .tclunk fid | .tremove fid | .tstat fid => bytes32 fid
  | .rstat wstat => wireStat wstat dotu
  | .twstat fid wstat => bytes32 fid ++ wireStat wstat dotu
  | .rflush | .rclunk | .rremove | .rwstat => []

/-- The fields of a call's message, as its layout lists them. -/
def DotlCall.wire (npErrnoToLinux : UInt32 → UInt32) : DotlCall → List UInt8
  | .rlerror ecode => bytes32 (npErrnoToLinux ecode)
  | .tstatfs fid | .treadlink fid | .tfsync fid => bytes32 fid
  | .rstatfs stfs => wireStatfs stfs
  | .tlopen fid flags => bytes32 fid ++ bytes32 flags
  | .rlopen qid iounit | .rlcreate qid iounit => wireQid qid ++ bytes32 iounit
  | .tlcreate fid name flags mode gid =>
    bytes32 fid ++ wireStr name.bytes ++ bytes32 flags ++ bytes32 mode ++ bytes32 gid
  | .tsymlink dfid name symtgt gid =>
    bytes32 dfid ++ wireStr name.bytes ++ wireStr symtgt.bytes ++ bytes32 gid
  | .rsymlink qid | .rmknod qid | .rmkdir qid => wireQid qid
  | .tmknod dfid name mode major minor gid =>
    bytes32 dfid ++ wireStr name.bytes ++ bytes32 mode ++ bytes32 major ++ bytes32 minor ++
      bytes32 gid
  | .trename fid dfid name => bytes32 fid ++ bytes32 dfid ++ wireStr name.bytes
  | .rreadlink target => wireStr target.bytes
  | .tgetattr fid mask => bytes32 fid ++ bytes64 mask
  | .rgetattr mask attrs qid => bytes64 mask ++ wireQid qid ++ wireAttrs attrs
  | .tsetattr fid mask attrs =>
    bytes32 fid ++ bytes32 mask ++ bytes32 attrs.mode ++ bytes32 attrs.uid ++ bytes32 attrs.gid ++
      bytes64 attrs.size ++ bytes64 attrs.atimeSec ++ bytes64 attrs.atimeNsec ++
      bytes64 attrs.mtimeSec ++ bytes64 attrs.mtimeNsec
  | .txattrwalk fid newfid name => bytes32 fid ++ bytes32 newfid ++ wireStr name.bytes
  | .rxattrwalk asize => bytes64 asize
  | .txattrcreate fid name asize flags =>
    bytes32 fid ++ wireStr name.bytes ++ bytes64 asize ++ bytes32 flags
  | .treaddir fid offset count => bytes32 fid ++ bytes64 offset ++ bytes32 count
  | .rreaddir count data => bytes32 count ++ data
  | .tlock fid type flags offset length procid clientid =>
    bytes32 fid ++ [type] ++ bytes32 flags ++ bytes64 offset ++ bytes64 length ++ bytes32 procid ++
      wireStr clientid.bytes
  | .rlock status => [status]
  | .tgetlock fid type offset length procid clientid =>
    bytes32 fid ++ [type] ++ bytes64 offset ++ bytes64 length ++ bytes32 procid ++
      wireStr clientid.bytes
  | .rgetlock type offset length procid clientid =>
    [type] ++ bytes64 offset ++ bytes64 length ++ bytes32 procid ++ wireStr clientid.bytes
  | .tlink dfid fid name => bytes32 dfid ++ bytes32 fid ++ wireStr name.bytes
  | .tmkdir dfid name mode gid =>
    bytes32 dfid ++ wireStr name.bytes ++ bytes32 mode ++ bytes32 gid
  | .trenameat odfid oname ndfid nname =>
    bytes32 odfid ++ wireStr oname.bytes ++ bytes32 ndfid ++ wireStr nname.bytes
  | .tunlinkat dfid name flags => bytes32 dfid ++ wireStr name.bytes ++ bytes32 flags
  | .rrename | .rsetattr | .rxattrcreate | .rfsync | .rlink | .rrenameat | .runlinkat => []

/-- The fields of a call's message, as its layout lists them. -/
def CreateCall.wire (npErrnoToLinux : UInt32 → UInt32) (dotu : Bool) : CreateCall → List UInt8
  | .base call => call.wire dotu
  | .dotl call => call.wire npErrnoToLinux
  | .tauth fid uname aname nUname =>
    bytes32 fid ++ wireStr (CStr.bytes? uname) ++ wireStr (CStr.bytes? aname) ++
      if dotu then bytes32 nUname else []
  | .rerror1 ename ecode => wireStr ename ++ if dotu then bytes32 ecode else []
  | .lerror ecode => bytes32 ecode
  | .rgetlock type offset length procid clientid =>
    [type] ++ bytes64 offset ++ bytes64 length ++ bytes32 procid ++
      wireStr (CStr.bytes? clientid)

end Npfs
