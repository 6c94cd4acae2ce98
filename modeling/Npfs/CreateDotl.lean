import Npfs.CreateBase

/-!
# Constructors of 9P2000.L

The constructors `np_create_rlerror` to `np_create_runlinkat` of `libnpfs/np.c`, and the calls of
them as a type of their own. `np_errno_to_linux` depends on the system that the library is built for
and is a parameter.
-/

namespace Npfs

/-- `np_create_rlerror`. -/
def npCreateRlerror (npErrnoToLinux : UInt32 → UInt32) (ecode : UInt32) : Malloc → Option Npfcall :=
  npCreate .rlerror 4 [.int32 (npErrnoToLinux ecode) fun fc ecode => { fc with ecode }]

/-- `np_create_tstatfs`. -/
def npCreateTstatfs (fid : UInt32) : Malloc → Option Npfcall := npCreate .tstatfs 4 (putFid fid)

/-- `np_create_rstatfs`. -/
def npCreateRstatfs (stfs : Npstatfs) : Malloc → Option Npfcall :=
  npCreate .rstatfs (.ofNat sizeStatfs) (bufPutStatfs stfs)

/-- `np_create_tlopen`. -/
def npCreateTlopen (fid flags : UInt32) : Malloc → Option Npfcall :=
  npCreate .tlopen (4 + 4)
    [.int32 fid fun fc fid => { fc with fid },
      .int32 flags fun fc flags => { fc with flags }]

/-- `np_create_rlopen`. -/
def npCreateRlopen (qid : Npqid) (iounit : UInt32) : Malloc → Option Npfcall :=
  npCreate .rlopen (13 + 4) (putQidIounit qid iounit)

/-- `np_create_tlcreate`. -/
def npCreateTlcreate (fid : UInt32) (name : CStr) (flags mode gid : UInt32) :
    Malloc → Option Npfcall :=
  npCreate .tlcreate (.ofNat (4 + 2 + name.strlen + 4 + 4 + 4))
    [.int32 fid fun fc fid => { fc with fid },
      .str name fun fc name => { fc with name },
      .int32 flags fun fc flags => { fc with flags },
      .int32 mode fun fc perm => { fc with perm },
      .int32 gid fun fc gid => { fc with gid }]

/-- `np_create_rlcreate`. -/
def npCreateRlcreate (qid : Npqid) (iounit : UInt32) : Malloc → Option Npfcall :=
  npCreate .rlcreate (13 + 4) (putQidIounit qid iounit)

/-- `np_create_tsymlink`. -/
def npCreateTsymlink (dfid : UInt32) (name symtgt : CStr) (gid : UInt32) :
    Malloc → Option Npfcall :=
  npCreate .tsymlink (.ofNat (4 + 2 + name.strlen + 2 + symtgt.strlen + 4))
    [.int32 dfid fun fc fid => { fc with fid },
      .str name fun fc name => { fc with name },
      .str symtgt fun fc symtgt => { fc with symtgt },
      .int32 gid fun fc gid => { fc with gid }]

/-- `np_create_rsymlink`. -/
def npCreateRsymlink (qid : Npqid) : Malloc → Option Npfcall :=
  npCreate .rsymlink 13 (bufPutQid qid fcQid)

/-- `np_create_tmknod`. -/
def npCreateTmknod (dfid : UInt32) (name : CStr) (mode major minor gid : UInt32) :
    Malloc → Option Npfcall :=
  npCreate .tmknod (.ofNat (4 + 2 + name.strlen + 4 + 4 + 4 + 4))
    [.int32 dfid fun fc fid => { fc with fid },
      .str name fun fc name => { fc with name },
      .int32 mode fun fc perm => { fc with perm },
      .int32 major fun fc major => { fc with major },
      .int32 minor fun fc minor => { fc with minor },
      .int32 gid fun fc gid => { fc with gid }]

/-- `np_create_rmknod`. -/
def npCreateRmknod (qid : Npqid) : Malloc → Option Npfcall :=
  npCreate .rmknod 13 (bufPutQid qid fcQid)

/-- `np_create_trename`. -/
def npCreateTrename (fid dfid : UInt32) (name : CStr) : Malloc → Option Npfcall :=
  npCreate .trename (.ofNat (4 + 4 + 2 + name.strlen))
    [.int32 fid fun fc fid => { fc with fid },
      .int32 dfid fun fc dfid => { fc with dfid },
      .str name fun fc name => { fc with name }]

/-- `np_create_rrename`. -/
def npCreateRrename : Malloc → Option Npfcall := npCreate .rrename 0 []

/-- `np_create_treadlink`. -/
def npCreateTreadlink (fid : UInt32) : Malloc → Option Npfcall := npCreate .treadlink 4 (putFid fid)

/-- `np_create_rreadlink`. -/
def npCreateRreadlink (target : CStr) : Malloc → Option Npfcall :=
  npCreate .rreadlink (.ofNat (2 + target.strlen))
    [.str target fun fc symtgt => { fc with symtgt }]

/-- `np_create_tgetattr`. -/
def npCreateTgetattr (fid : UInt32) (mask : UInt64) : Malloc → Option Npfcall :=
  npCreate .tgetattr (4 + 8)
    [.int32 fid fun fc fid => { fc with fid },
      .int64 mask fun fc mask => { fc with mask }]

/-- An assignment to `fc->attrs`. -/
def fcAttrs {β : Type} (set : Npattrs → β → Npattrs) (fc : Npfcall) (val : β) : Npfcall :=
  { fc with attrs := set fc.attrs val }

/-- `np_create_rgetattr`. -/
def npCreateRgetattr (mask : UInt64) (attrs : Npattrs) (qid : Npqid) : Malloc → Option Npfcall :=
  npCreate .rgetattr
    (8 + 13 + 4 + 4 + 4 + 8 + 8 + 8 + 8 + 8 + 8 + 8 + 8 + 8 + 8 + 8 + 8 + 8 + 8 + 8)
    ([PutOp.int64 mask fun fc mask => { fc with mask }] ++ bufPutQid qid fcQid ++
    [PutOp.int32 attrs.mode (fcAttrs fun attrs mode => { attrs with mode }),
      .int32 attrs.uid (fcAttrs fun attrs uid => { attrs with uid }),
      .int32 attrs.gid (fcAttrs fun attrs gid => { attrs with gid }),
      .int64 attrs.nlink (fcAttrs fun attrs nlink => { attrs with nlink }),
      .int64 attrs.rdev (fcAttrs fun attrs rdev => { attrs with rdev }),
      .int64 attrs.size (fcAttrs fun attrs size => { attrs with size }),
      .int64 attrs.blksize (fcAttrs fun attrs blksize => { attrs with blksize }),
      .int64 attrs.blocks (fcAttrs fun attrs blocks => { attrs with blocks }),
      .int64 attrs.atimeSec (fcAttrs fun attrs atimeSec => { attrs with atimeSec }),
      .int64 attrs.atimeNsec (fcAttrs fun attrs atimeNsec => { attrs with atimeNsec }),
      .int64 attrs.mtimeSec (fcAttrs fun attrs mtimeSec => { attrs with mtimeSec }),
      .int64 attrs.mtimeNsec (fcAttrs fun attrs mtimeNsec => { attrs with mtimeNsec }),
      .int64 attrs.ctimeSec (fcAttrs fun attrs ctimeSec => { attrs with ctimeSec }),
      .int64 attrs.ctimeNsec (fcAttrs fun attrs ctimeNsec => { attrs with ctimeNsec }),
      .int64 attrs.btimeSec (fcAttrs fun attrs btimeSec => { attrs with btimeSec }),
      .int64 attrs.btimeNsec (fcAttrs fun attrs btimeNsec => { attrs with btimeNsec }),
      .int64 attrs.gen (fcAttrs fun attrs gen => { attrs with gen }),
      .int64 attrs.dataVersion (fcAttrs fun attrs dataVersion => { attrs with dataVersion })])

/-- The statements of `np_create_tsetattr` down to the access time. -/
def putSetattr (fid mask : UInt32) (attrs : Npattrs) : List PutOp :=
  [.int32 fid fun fc fid => { fc with fid },
    .int32 mask null,
    .assign fun fc => { fc with mask := mask.toUInt64 },
    .assign fun fc => { fc with attrs := { fc.attrs with mask := mask.toUInt64 } },
    .int32 attrs.mode (fcAttrs fun attrs mode => { attrs with mode }),
    .int32 attrs.uid (fcAttrs fun attrs uid => { attrs with uid }),
    .int32 attrs.gid (fcAttrs fun attrs gid => { attrs with gid }),
    .int64 attrs.size (fcAttrs fun attrs size => { attrs with size }),
    .int64 attrs.atimeSec (fcAttrs fun attrs atimeSec => { attrs with atimeSec }),
    .int64 attrs.atimeNsec (fcAttrs fun attrs atimeNsec => { attrs with atimeNsec })]

/-- `np_create_tsetattr`.  The size formula leaves out `gid[4]` and `mtime_nsec[8]`. -/
def npCreateTsetattr (fid mask : UInt32) (attrs : Npattrs) : Malloc → Option Npfcall :=
  npCreate .tsetattr (4 + 4 + 4 + 4 + 8 + 8 + 8 + 8)
    (putSetattr fid mask attrs ++
      [PutOp.int64 attrs.mtimeSec (fcAttrs fun attrs mtimeSec => { attrs with mtimeSec }),
        .int64 attrs.mtimeNsec (fcAttrs fun attrs mtimeNsec => { attrs with mtimeNsec })])

/-- `np_create_rsetattr`. -/
def npCreateRsetattr : Malloc → Option Npfcall := npCreate .rsetattr 0 []

/-- `np_create_txattrwalk`. -/
def npCreateTxattrwalk (fid newfid : UInt32) (name : CStr) : Malloc → Option Npfcall :=
  npCreate .txattrwalk (.ofNat (4 + 4 + 2 + name.strlen))
    [.int32 fid fun fc fid => { fc with fid },
      .int32 newfid fun fc newfid => { fc with newfid },
      .str name fun fc name => { fc with name }]

/-- `np_create_rxattrwalk`. -/
def npCreateRxattrwalk (asize : UInt64) : Malloc → Option Npfcall :=
  npCreate .rxattrwalk 8 [.int64 asize fun fc asize => { fc with asize }]

/-- `np_create_txattrcreate`. -/
def npCreateTxattrcreate (fid : UInt32) (name : CStr) (asize : UInt64) (flags : UInt32) :
    Malloc → Option Npfcall :=
  npCreate .txattrcreate (.ofNat (4 + 2 + name.strlen + 8 + 4))
    [.int32 fid fun fc fid => { fc with fid },
      .str name fun fc name => { fc with name },
      .int64 asize fun fc asize => { fc with asize },
      .int32 flags fun fc flags => { fc with flags }]

/-- `np_create_rxattrcreate`. -/
def npCreateRxattrcreate : Malloc → Option Npfcall := npCreate .rxattrcreate 0 []

/-- `np_create_treaddir`. -/
def npCreateTreaddir (fid : UInt32) (offset : UInt64) (count : UInt32) : Malloc → Option Npfcall :=
  npCreate .treaddir (4 + 8 + 4) (putFidRange fid offset count)

/-- `np_create_rreaddir`. -/
def npCreateRreaddir (count : UInt32) (data : List UInt8) : Malloc → Option Npfcall :=
  npCreate .rreaddir (4 + count)
    [.int32 count (fun fc count => { fc with count }), .data count data false]

/-- `np_create_tfsync`. -/
def npCreateTfsync (fid : UInt32) : Malloc → Option Npfcall := npCreate .tfsync 4 (putFid fid)

/-- `np_create_rfsync`. -/
def npCreateRfsync : Malloc → Option Npfcall := npCreate .rfsync 0 []

/-- `np_create_tlock`. -/
def npCreateTlock (fid : UInt32) (type : UInt8) (flags : UInt32) (offset length : UInt64)
    (procid : UInt32) (clientid : CStr) : Malloc → Option Npfcall :=
  npCreate .tlock (.ofNat (4 + 1 + 4 + 8 + 8 + 4 + 2 + clientid.strlen))
    [.int32 fid fun fc fid => { fc with fid },
      .int8 type fun fc locktype => { fc with locktype },
      .int32 flags fun fc flags => { fc with flags },
      .int64 offset fun fc offset => { fc with offset },
      .int64 length fun fc locklength => { fc with locklength },
      .int32 procid fun fc procid => { fc with procid },
      .str clientid fun fc clientid => { fc with clientid }]

/-- `np_create_rlock`. -/
def npCreateRlock (status : UInt8) : Malloc → Option Npfcall :=
  npCreate .rlock 1 [.int8 status fun fc lockstatus => { fc with lockstatus }]

/-- `np_create_tgetlock`. -/
def npCreateTgetlock (fid : UInt32) (type : UInt8) (offset length : UInt64) (procid : UInt32)
    (clientid : CStr) : Malloc → Option Npfcall :=
  npCreate .tgetlock (.ofNat (4 + 1 + 8 + 8 + 4 + 2 + clientid.strlen))
    [.int32 fid fun fc fid => { fc with fid },
      .int8 type fun fc locktype => { fc with locktype },
      .int64 offset fun fc offset => { fc with offset },
      .int64 length fun fc locklength => { fc with locklength },
      .int32 procid fun fc procid => { fc with procid },
      .str clientid fun fc clientid => { fc with clientid }]

/-- `np_create_rgetlock`.  Unlike the parser it knows of no fid. -/
def npCreateRgetlock (type : UInt8) (offset length : UInt64) (procid : UInt32) (clientid : CStr) :
    Malloc → Option Npfcall :=
  npCreate .rgetlock (.ofNat (1 + 8 + 8 + 4 + 2 + clientid.strlen))
    [.int8 type fun fc locktype => { fc with locktype },
      .int64 offset fun fc offset => { fc with offset },
      .int64 length fun fc locklength => { fc with locklength },
      .int32 procid fun fc procid => { fc with procid },
      .str clientid fun fc clientid => { fc with clientid }]

/-- `np_create_tlink`. -/
def npCreateTlink (dfid fid : UInt32) (name : CStr) : Malloc → Option Npfcall :=
  npCreate .tlink (.ofNat (4 + 4 + 2 + name.strlen))
    [.int32 dfid fun fc dfid => { fc with dfid },
      .int32 fid fun fc fid => { fc with fid },
      .str name fun fc name => { fc with name }]

/-- `np_create_rlink`. -/
def npCreateRlink : Malloc → Option Npfcall := npCreate .rlink 0 []

/-- `np_create_tmkdir`. -/
def npCreateTmkdir (dfid : UInt32) (name : CStr) (mode gid : UInt32) : Malloc → Option Npfcall :=
  npCreate .tmkdir (.ofNat (4 + 2 + name.strlen + 4 + 4))
    [.int32 dfid fun fc fid => { fc with fid },
      .str name fun fc name => { fc with name },
      .int32 mode fun fc perm => { fc with perm },
      .int32 gid fun fc gid => { fc with gid }]

/-- `np_create_rmkdir`. -/
def npCreateRmkdir (qid : Npqid) : Malloc → Option Npfcall :=
  npCreate .rmkdir 13 (bufPutQid qid fcQid)

/-- `np_create_trenameat`. -/
def npCreateTrenameat (odfid : UInt32) (oname : CStr) (ndfid : UInt32) (nname : CStr) :
    Malloc → Option Npfcall :=
  npCreate .trenameat (.ofNat (4 + 2 + oname.strlen + 4 + 2 + nname.strlen))
    [.int32 odfid fun fc fid => { fc with fid },
      .str oname fun fc oname => { fc with oname },
      .int32 ndfid fun fc newfid => { fc with newfid },
      .str nname fun fc name => { fc with name }]

/-- `np_create_rrenameat`. -/
def npCreateRrenameat : Malloc → Option Npfcall := npCreate .rrenameat 0 []

/-- `np_create_tunlinkat`. -/
def npCreateTunlinkat (dfid : UInt32) (name : CStr) (flags : UInt32) : Malloc → Option Npfcall :=
  npCreate .tunlinkat (.ofNat (4 + 2 + name.strlen + 4))
    [.int32 dfid fun fc fid => { fc with fid },
      .str name fun fc name => { fc with name },
      .int32 flags fun fc flags => { fc with flags }]

/-- `np_create_runlinkat`. -/
def npCreateRunlinkat : Malloc → Option Npfcall := npCreate .runlinkat 0 []

/-- A call of one of these constructors. -/
inductive DotlCall where
  | rlerror (ecode : UInt32)
  | tstatfs (fid : UInt32)
  | rstatfs (stfs : Npstatfs)
  | tlopen (fid flags : UInt32)
  | rlopen (qid : Npqid) (iounit : UInt32)
  | tlcreate (fid : UInt32) (name : CStr) (flags mode gid : UInt32)
  | rlcreate (qid : Npqid) (iounit : UInt32)
  | tsymlink (dfid : UInt32) (name symtgt : CStr) (gid : UInt32)
  | rsymlink (qid : Npqid)
  | tmknod (dfid : UInt32) (name : CStr) (mode major minor gid : UInt32)
  | rmknod (qid : Npqid)
  | trename (fid dfid : UInt32) (name : CStr)
  | rrename
  | treadlink (fid : UInt32)
  | rreadlink (target : CStr)
  | tgetattr (fid : UInt32) (mask : UInt64)
  | rgetattr (mask : UInt64) (attrs : Npattrs) (qid : Npqid)
  | tsetattr (fid mask : UInt32) (attrs : Npattrs)
  | rsetattr
  | txattrwalk (fid newfid : UInt32) (name : CStr)
  | rxattrwalk (asize : UInt64)
  | txattrcreate (fid : UInt32) (name : CStr) (asize : UInt64) (flags : UInt32)
  | rxattrcreate
  | treaddir (fid : UInt32) (offset : UInt64) (count : UInt32)
  | rreaddir (count : UInt32) (data : List UInt8)
  | tfsync (fid : UInt32)
  | rfsync
  | tlock (fid : UInt32) (type : UInt8) (flags : UInt32) (offset length : UInt64)
      (procid : UInt32) (clientid : CStr)
  | rlock (status : UInt8)
  | tgetlock (fid : UInt32) (type : UInt8) (offset length : UInt64) (procid : UInt32)
      (clientid : CStr)
  | rgetlock (type : UInt8) (offset length : UInt64) (procid : UInt32) (clientid : CStr)
  | tlink (dfid fid : UInt32) (name : CStr)
  | rlink
  | tmkdir (dfid : UInt32) (name : CStr) (mode gid : UInt32)
  | rmkdir (qid : Npqid)
  | trenameat (odfid : UInt32) (oname : CStr) (ndfid : UInt32) (nname : CStr)
  | rrenameat
  | tunlinkat (dfid : UInt32) (name : CStr) (flags : UInt32)
  | runlinkat

namespace DotlCall

/-- The type of message that the call builds. -/
def type : DotlCall → MsgType
  | .rlerror .. => .rlerror
  | .tstatfs .. => .tstatfs
  | .rstatfs .. => .rstatfs
  | .tlopen .. => .tlopen
  | .rlopen .. => .rlopen
  | .tlcreate .. => .tlcreate
  | .rlcreate .. => .rlcreate
  | .tsymlink .. => .tsymlink
  | .rsymlink .. => .rsymlink
  | .tmknod .. => .tmknod
  | .rmknod .. => .rmknod
  | .trename .. => .trename
  | .rrename => .rrename
  | .treadlink .. => .treadlink
  | .rreadlink .. => .rreadlink
  | .tgetattr .. => .tgetattr
  | .rgetattr .. => .rgetattr
  | .tsetattr .. => .tsetattr
  | .rsetattr => .rsetattr
  | .txattrwalk .. => .txattrwalk
  | .rxattrwalk .. => .rxattrwalk
  | .txattrcreate .. => .txattrcreate
  | .rxattrcreate => .rxattrcreate
  | .treaddir .. => .treaddir
  | .rreaddir .. => .rreaddir
  | .tfsync .. => .tfsync
  | .rfsync => .rfsync
  | .tlock .. => .tlock
  | .rlock .. => .rlock
  | .tgetlock .. => .tgetlock
  | .rgetlock .. => .rgetlock
  | .tlink .. => .tlink
  | .rlink => .rlink
  | .tmkdir .. => .tmkdir
  | .rmkdir .. => .rmkdir
  | .trenameat .. => .trenameat
  | .rrenameat => .rrenameat
  | .tunlinkat .. => .tunlinkat
  | .runlinkat => .runlinkat

/-- Make the call. -/
def run (npErrnoToLinux : UInt32 → UInt32) : DotlCall → Malloc → Option Npfcall
  | .rlerror ecode => npCreateRlerror npErrnoToLinux ecode
  | .tstatfs fid => npCreateTstatfs fid
  | .rstatfs stfs => npCreateRstatfs stfs
  | .tlopen fid flags => npCreateTlopen fid flags
  | .rlopen qid iounit => npCreateRlopen qid iounit
  | .tlcreate fid name flags mode gid => npCreateTlcreate fid name flags mode gid
  | .rlcreate qid iounit => npCreateRlcreate qid iounit
  | .tsymlink dfid name symtgt gid => npCreateTsymlink dfid name symtgt gid
  | .rsymlink qid => npCreateRsymlink qid
  | .tmknod dfid name mode major minor gid => npCreateTmknod dfid name mode major minor gid
  | .rmknod qid => npCreateRmknod qid
  | .trename fid dfid name => npCreateTrename fid dfid name
  | .rrename => npCreateRrename
  | .treadlink fid => npCreateTreadlink fid
  | .rreadlink target => npCreateRreadlink target
  | .tgetattr fid mask => npCreateTgetattr fid mask
  | .rgetattr mask attrs qid => npCreateRgetattr mask attrs qid
  | .tsetattr fid mask attrs => npCreateTsetattr fid mask attrs
  | .rsetattr => npCreateRsetattr
  | .txattrwalk fid newfid name => npCreateTxattrwalk fid newfid name
  | .rxattrwalk asize => npCreateRxattrwalk asize
  | .txattrcreate fid name asize flags => npCreateTxattrcreate fid name asize flags
  | .rxattrcreate => npCreateRxattrcreate
  | .treaddir fid offset count => npCreateTreaddir fid offset count
  | .rreaddir count data => npCreateRreaddir count data
  | .tfsync fid => npCreateTfsync fid
  | .rfsync => npCreateRfsync
  | .tlock fid type flags offset length procid clientid =>
    npCreateTlock fid type flags offset length procid clientid
  | .rlock status => npCreateRlock status
  | .tgetlock fid type offset length procid clientid =>
    npCreateTgetlock fid type offset length procid clientid
  | .rgetlock type offset length procid clientid =>
    npCreateRgetlock type offset length procid clientid
  | .tlink dfid fid name => npCreateTlink dfid fid name
  | .rlink => npCreateRlink
  | .tmkdir dfid name mode gid => npCreateTmkdir dfid name mode gid
  | .rmkdir qid => npCreateRmkdir qid
  | .trenameat odfid oname ndfid nname => npCreateTrenameat odfid oname ndfid nname
  | .rrenameat => npCreateRrenameat
  | .tunlinkat dfid name flags => npCreateTunlinkat dfid name flags
  | .runlinkat => npCreateRunlinkat

end DotlCall

end Npfs
