import Npfs.LittleEndian
import Npfs.Program

/-!
# Messages

The message types of `include/npfs.h` and the records that hold a message: `Npfcall` with the
strings, qids, stat records and attribute records in it.  A pointer into the packet is its offset
from the packet's first byte; `NULL` is `none`.
-/

namespace Npfs

/-- The message type codes that have a name. -/
inductive MsgType where
  | tlerror | rlerror | tstatfs | rstatfs | tlopen | rlopen
  | tlcreate | rlcreate | tsymlink | rsymlink | tmknod | rmknod
  | trename | rrename | treadlink | rreadlink | tgetattr | rgetattr
  | tsetattr | rsetattr | txattrwalk | rxattrwalk | txattrcreate | rxattrcreate
  | treaddir | rreaddir | tfsync | rfsync | tlock | rlock
  | tgetlock | rgetlock | tlink | rlink | tmkdir | rmkdir
  | trenameat | rrenameat | tunlinkat | runlinkat | tversion | rversion
  | tauth | rauth | tattach | rattach | terror | rerror
  | tflush | rflush | twalk | rwalk | topen | ropen
  | tcreate | rcreate | tread | rread | twrite | rwrite
  | tclunk | rclunk | tremove | rremove | tstat | rstat
  | twstat | rwstat
  deriving DecidableEq

/-- The type byte of a message on the wire. -/
def MsgType.code : MsgType → UInt8
  | .tlerror => 6 | .rlerror => 7 | .tstatfs => 8 | .rstatfs => 9
  | .tlopen => 12 | .rlopen => 13 | .tlcreate => 14 | .rlcreate => 15
  | .tsymlink => 16 | .rsymlink => 17 | .tmknod => 18 | .rmknod => 19
  | .trename => 20 | .rrename => 21 | .treadlink => 22 | .rreadlink => 23
  | .tgetattr => 24 | .rgetattr => 25 | .tsetattr => 26 | .rsetattr => 27
  | .txattrwalk => 30 | .rxattrwalk => 31 | .txattrcreate => 32 | .rxattrcreate => 33
  | .treaddir => 40 | .rreaddir => 41 | .tfsync => 50 | .rfsync => 51
  | .tlock => 52 | .rlock => 53 | .tgetlock => 54 | .rgetlock => 55
  | .tlink => 70 | .rlink => 71 | .tmkdir => 72 | .rmkdir => 73
  | .trenameat => 74 | .rrenameat => 75 | .tunlinkat => 76 | .runlinkat => 77
  | .tversion => 100 | .rversion => 101 | .tauth => 102 | .rauth => 103
  | .tattach => 104 | .rattach => 105 | .terror => 106 | .rerror => 107
  | .tflush => 108 | .rflush => 109 | .twalk => 110 | .rwalk => 111
  | .topen => 112 | .ropen => 113 | .tcreate => 114 | .rcreate => 115
  | .tread => 116 | .rread => 117 | .twrite => 118 | .rwrite => 119
  | .tclunk => 120 | .rclunk => 121 | .tremove => 122 | .rremove => 123
  | .tstat => 124 | .rstat => 125 | .twstat => 126 | .rwstat => 127

/-- Every named message type. -/
def MsgType.all : List MsgType :=
  [.tlerror, .rlerror, .tstatfs, .rstatfs, .tlopen, .rlopen, .tlcreate, .rlcreate,
    .tsymlink, .rsymlink, .tmknod, .rmknod, .trename, .rrename, .treadlink, .rreadlink,
    .tgetattr, .rgetattr, .tsetattr, .rsetattr, .txattrwalk, .rxattrwalk,
    .txattrcreate, .rxattrcreate, .treaddir, .rreaddir, .tfsync, .rfsync,
    .tlock, .rlock, .tgetlock, .rgetlock,
    .tlink, .rlink, .tmkdir, .rmkdir, .trenameat, .rrenameat, .tunlinkat, .runlinkat,
    .tversion, .rversion, .tauth, .rauth, .tattach, .rattach, .terror, .rerror,
    .tflush, .rflush, .twalk, .rwalk, .topen, .ropen, .tcreate, .rcreate,
    .tread, .rread, .twrite, .rwrite, .tclunk, .rclunk, .tremove, .rremove,
    .tstat, .rstat, .twstat, .rwstat]

/-- The message type that a type byte names. -/
def MsgType.ofCode? (code : UInt8) : Option MsgType := MsgType.all.find? (·.code == code)

@[simp] theorem MsgType.ofCode?_code (type : MsgType) : ofCode? type.code = some type := by
  cases type <;> decide +kernel

theorem MsgType.code_of_ofCode? {code : UInt8} {type : MsgType}
    (named : ofCode? code = some type) : type.code = code := by
  simpa using List.find?_some named

/-- `NOTAG`. -/
def NOTAG : UInt16 := 0xFFFF

/-- `NOFID`. -/
def NOFID : UInt32 := 0xFFFFFFFF

/-- `MAXWELEM`, the largest number of names in one walk. -/
abbrev MAXWELEM : Nat := 16

/-- `IOHDRSZ`, the part of `msize` that is not available for data. -/
def IOHDRSZ : UInt32 := 24

/-- A length-counted string inside a packet. -/
structure Npstr where
  /-- Number of bytes. -/
  len : UInt16
  /-- Offset of the first byte, or `NULL`. -/
  str : Option Int
  deriving DecidableEq, Inhabited

/-- `np_strzero`. -/
def npStrzero : Npstr := ⟨0, none⟩

/-- A NUL-terminated string, without its terminator. -/
structure CStr where
  /-- The bytes before the terminator. -/
  bytes : List UInt8
  /-- None of them is the terminator. -/
  noNul : 0 ∉ bytes
  deriving DecidableEq

/-- `strlen`. -/
def CStr.strlen (s : CStr) : Nat := s.bytes.length

/-- The bytes of a string argument that may be `NULL`. -/
def CStr.bytes? : Option CStr → List UInt8
  | none => []
  | some s => s.bytes

/-- The identity of a file as the server reports it. -/
structure Npqid where
  type : UInt8
  version : UInt32
  path : UInt64
  deriving DecidableEq, Inhabited

/-- A stat record that was read from a packet. -/
structure Npstat where
  size : UInt16
  type : UInt16
  dev : UInt32
  qid : Npqid
  mode : UInt32
  atime : UInt32
  mtime : UInt32
  length : UInt64
  name : Npstr
  uid : Npstr
  gid : Npstr
  muid : Npstr
  extension : Npstr
  nUid : UInt32
  nGid : UInt32
  nMuid : UInt32
  deriving DecidableEq, Inhabited

/-- A stat record to be written to a packet. -/
structure Npwstat where
  type : UInt16
  dev : UInt32
  qid : Npqid
  mode : UInt32
  atime : UInt32
  mtime : UInt32
  length : UInt64
  name : Option CStr
  uid : Option CStr
  gid : Option CStr
  muid : Option CStr
  extension : Option CStr
  nUid : UInt32
  nGid : UInt32
  nMuid : UInt32
  deriving DecidableEq, Inhabited

/-- File system statistics. -/
structure Npstatfs where
  type : UInt32
  bsize : UInt32
  blocks : UInt64
  bfree : UInt64
  bavail : UInt64
  files : UInt64
  ffree : UInt64
  fsid : UInt64
  namelen : UInt32
  deriving DecidableEq, Inhabited

/-- File attributes of 9P2000.L. -/
structure Npattrs where
  mask : UInt64
  mode : UInt32
  uid : UInt32
  gid : UInt32
  nlink : UInt64
  rdev : UInt64
  size : UInt64
  blksize : UInt64
  blocks : UInt64
  atimeSec : UInt64
  atimeNsec : UInt64
  mtimeSec : UInt64
  mtimeNsec : UInt64
  ctimeSec : UInt64
  ctimeNsec : UInt64
  btimeSec : UInt64
  btimeNsec : UInt64
  gen : UInt64
  dataVersion : UInt64
  deriving DecidableEq, Inhabited

/-- One message.  Only the fields that its type carries mean anything; the others keep what the
reused structure held before. -/
structure Npfcall where
  size : UInt32
  type : UInt8
  tag : UInt16
  /-- The bytes of the packet. -/
  pkt : List UInt8
  fid : UInt32
  msize : UInt32
  version : Npstr
  afid : UInt32
  uname : Npstr
  aname : Npstr
  qid : Npqid
  ename : Npstr
  oldtag : UInt16
  newfid : UInt32
  nwname : UInt16
  wnames : Vector Npstr MAXWELEM
  nwqid : UInt16
  wqids : Vector Npqid MAXWELEM
  mode : UInt8
  iounit : UInt32
  name : Npstr
  perm : UInt32
  offset : UInt64
  count : UInt32
  data : Option Int
  stat : Npstat
  ecode : UInt32
  extension : Npstr
  nUname : UInt32
  stfs : Npstatfs
  flags : UInt32
  gid : UInt32
  major : UInt32
  minor : UInt32
  symtgt : Npstr
  dfid : UInt32
  mask : UInt64
  attrs : Npattrs
  asize : UInt64
  locktype : UInt8
  locklength : UInt64
  procid : UInt32
  clientid : Npstr
  lockstatus : UInt8
  oname : Npstr
  deriving DecidableEq, Inhabited

end Npfs
