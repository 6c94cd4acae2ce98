import Npfs.Create

/-!
# Constructors of 9P2000 and 9P2000.u

The constructors `np_create_tversion` to `np_create_rwstat` of `libnpfs/np.c`, and the calls of them
as a type of their own.  An `int` argument is given as the word that is stored for it; an array that
is passed with its length is a list.
-/

namespace Npfs

/-- `np_create_tversion`. -/
def npCreateTversion (msize : UInt32) (version : CStr) : Malloc → Option Npfcall :=
  npCreate .tversion (.ofNat (4 + 2 + version.strlen))
    [.int32 msize fun fc msize => { fc with msize },
      .str version fun fc version => { fc with version }]

/-- `np_create_rversion`. -/
def npCreateRversion (msize : UInt32) (version : CStr) : Malloc → Option Npfcall :=
  npCreate .rversion (.ofNat (4 + 2 + version.strlen))
    [.int32 msize fun fc msize => { fc with msize },
      .str version fun fc version => { fc with version }]

/-- `np_create_rauth`. -/
def npCreateRauth (aqid : Npqid) : Malloc → Option Npfcall :=
  npCreate .rauth 13 (bufPutQid aqid fcQid)

/-- `np_create_rerror`. -/
def npCreateRerror (ename : CStr) (ecode : UInt32) (dotu : Bool) : Malloc → Option Npfcall :=
  npCreate .rerror (.ofNat (2 + ename.strlen + if dotu then 4 else 0))
    (.str ename (fun fc ename => { fc with ename }) ::
      if dotu then [.int32 ecode fun fc ecode => { fc with ecode }] else [])

/-- `np_create_tflush`. -/
def npCreateTflush (oldtag : UInt16) : Malloc → Option Npfcall :=
  npCreate .tflush 2 [.int16 oldtag fun fc oldtag => { fc with oldtag }]

/-- `np_create_rflush`. -/
def npCreateRflush : Malloc → Option Npfcall := npCreate .rflush 0 []

/-- `np_create_tattach`. -/
def npCreateTattach (fid afid : UInt32) (uname aname : Option CStr) (nUname : UInt32)
    (dotu : Bool) : Malloc → Option Npfcall :=
  npCreate .tattach
    (.ofNat (4 + 4 + 2 + 2 + strlen? uname + strlen? aname + if dotu then 4 else 0))
    ([PutOp.int32 fid fun fc fid => { fc with fid },
      .int32 afid fun fc afid => { fc with afid },
      .str uname fun fc uname => { fc with uname },
      .str aname fun fc aname => { fc with aname }] ++
      if dotu then [PutOp.int32 nUname fun fc nUname => { fc with nUname }] else [])

/-- `np_create_rattach`. -/
def npCreateRattach (qid : Npqid) : Malloc → Option Npfcall :=
  npCreate .rattach 13 (bufPutQid qid fcQid)

/-- The loop of `np_create_twalk` that stores the names from index `i` on. -/
def putWnames : (i : Nat) → List CStr → List PutOp
  | _, [] => []
  | i, wname :: wnames =>
    .str wname (fun fc s => { fc with wnames := fc.wnames.setIfInBounds i s }) ::
      putWnames (i + 1) wnames

/-- `np_create_twalk`. -/
def npCreateTwalk (fid newfid : UInt32) (wnames : List CStr) (heap : Malloc) : Option Npfcall :=
  if wnames.length > MAXWELEM then
    none
  else
    npCreate .twalk
      (.ofNat (4 + 4 + 2 + wnames.length * 2 + (wnames.map CStr.strlen).sum))
      ([PutOp.int32 fid fun fc fid => { fc with fid },
        .int32 newfid fun fc newfid => { fc with newfid },
        .int16 (.ofNat wnames.length) fun fc nwname => { fc with nwname }] ++
        putWnames 0 wnames) heap

/-- The loop of `np_create_rwalk` that stores the qids from index `i` on. -/
def putWqids : (i : Nat) → List Npqid → List PutOp
  | _, [] => []
  | i, wqid :: wqids => bufPutQid wqid (fcWqid i) ++ putWqids (i + 1) wqids

/-- `np_create_rwalk`. -/
def npCreateRwalk (wqids : List Npqid) (heap : Malloc) : Option Npfcall :=
  if wqids.length > MAXWELEM then
    none
  else
    npCreate .rwalk (.ofNat (2 + wqids.length * 13))
      (.int16 (.ofNat wqids.length) (fun fc nwqid => { fc with nwqid }) :: putWqids 0 wqids) heap

/-- `np_create_topen`. -/
def npCreateTopen (fid : UInt32) (mode : UInt8) : Malloc → Option Npfcall :=
  npCreate .topen (4 + 1)
    [.int32 fid fun fc fid => { fc with fid },
      .int8 mode fun fc mode => { fc with mode }]

/-- The statements that store a qid and an `iounit`. -/
def putQidIounit (qid : Npqid) (iounit : UInt32) : List PutOp :=
  bufPutQid qid fcQid ++ [PutOp.int32 iounit fun fc iounit => { fc with iounit }]

/-- `np_create_ropen`. -/
def npCreateRopen (qid : Npqid) (iounit : UInt32) : Malloc → Option Npfcall :=
  npCreate .ropen (13 + 4) (putQidIounit qid iounit)

/-- `np_create_tcreate`. -/
def npCreateTcreate (fid : UInt32) (name : CStr) (perm : UInt32) (mode : UInt8) :
    Malloc → Option Npfcall :=
  npCreate .tcreate (.ofNat (4 + 2 + name.strlen + 4 + 1))
    [.int32 fid fun fc fid => { fc with fid },
      .str name fun fc name => { fc with name },
      .int32 perm fun fc perm => { fc with perm },
      .int8 mode fun fc mode => { fc with mode }]

/-- `np_create_rcreate`. -/
def npCreateRcreate (qid : Npqid) (iounit : UInt32) : Malloc → Option Npfcall :=
  npCreate .rcreate (13 + 4) (putQidIounit qid iounit)

/-- The statements that store a fid, an offset and a count. -/
def putFidRange (fid : UInt32) (offset : UInt64) (count : UInt32) : List PutOp :=
  [.int32 fid fun fc fid => { fc with fid },
    .int64 offset fun fc offset => { fc with offset },
    .int32 count fun fc count => { fc with count }]

/-- `np_create_tread`. -/
def npCreateTread (fid : UInt32) (offset : UInt64) (count : UInt32) : Malloc → Option Npfcall :=
  npCreate .tread (4 + 8 + 4) (putFidRange fid offset count)

/-- `np_alloc_rread`. -/
def npAllocRread (count : UInt32) : Malloc → Option Npfcall :=
  npCreate .rread (4 + count) [.int32 count (fun fc count => { fc with count }), .alloc count]

/-- `np_create_rread`. -/
def npCreateRread (count : UInt32) (data : List UInt8) (heap : Malloc) : Option Npfcall := do
  let fc ← npAllocRread count heap
  match fc.data with
  | none => return fc
  | some ptr =>
    let buf ← (Cbuf.bufInit fc.pkt 0 fc.pkt.length).memmove (some ptr) (data.take count.toNat)
    return { fc with pkt := buf.mem }

/-- `np_create_twrite`. -/
def npCreateTwrite (fid : UInt32) (offset : UInt64) (count : UInt32) (data : List UInt8) :
    Malloc → Option Npfcall :=
  npCreate .twrite (4 + 8 + 4 + count) (putFidRange fid offset count ++ [PutOp.data count data true])

/-- `np_create_rwrite`. -/
def npCreateRwrite (count : UInt32) : Malloc → Option Npfcall :=
  npCreate .rwrite 4 [.int32 count fun fc count => { fc with count }]

/-- The statement that stores a fid. -/
def putFid (fid : UInt32) : List PutOp := [.int32 fid fun fc fid => { fc with fid }]

/-- `np_create_tclunk`. -/
def npCreateTclunk (fid : UInt32) : Malloc → Option Npfcall := npCreate .tclunk 4 (putFid fid)

/-- `np_create_rclunk`. -/
def npCreateRclunk : Malloc → Option Npfcall := npCreate .rclunk 0 []

/-- `np_create_tremove`. -/
def npCreateTremove (fid : UInt32) : Malloc → Option Npfcall := npCreate .tremove 4 (putFid fid)

/-- `np_create_rremove`. -/
def npCreateRremove : Malloc → Option Npfcall := npCreate .rremove 0 []

/-- `np_create_tstat`. -/
def npCreateTstat (fid : UInt32) : Malloc → Option Npfcall := npCreate .tstat 4 (putFid fid)

/-- `np_create_rstat`. -/
def npCreateRstat (wstat : Npwstat) (dotu : Bool) : Malloc → Option Npfcall :=
  npCreate .rstat (.ofNat (2 + 2 + sizeWstat wstat dotu))
    (.int16 (.ofNat (sizeWstat wstat dotu + 2)) null ::
      bufPutWstat wstat (.ofNat (sizeWstat wstat dotu)) dotu)

/-- `np_create_twstat`. -/
def npCreateTwstat (fid : UInt32) (wstat : Npwstat) (dotu : Bool) : Malloc → Option Npfcall :=
  npCreate .twstat (.ofNat (4 + 2 + 2 + sizeWstat wstat dotu))
    (putFid fid ++ .int16 (.ofNat (sizeWstat wstat dotu + 2)) null ::
      bufPutWstat wstat (.ofNat (sizeWstat wstat dotu)) dotu)

/-- `np_create_rwstat`. -/
def npCreateRwstat : Malloc → Option Npfcall := npCreate .rwstat 0 []

/-- A call of one of these constructors. -/
inductive BaseCall where
  | tversion (msize : UInt32) (version : CStr)
  | rversion (msize : UInt32) (version : CStr)
  | rauth (aqid : Npqid)
  | rerror (ename : CStr) (ecode : UInt32)
  | tflush (oldtag : UInt16)
  | rflush
  | tattach (fid afid : UInt32) (uname aname : Option CStr) (nUname : UInt32)
  | rattach (qid : Npqid)
  | twalk (fid newfid : UInt32) (wnames : List CStr)
  | rwalk (wqids : List Npqid)
  | topen (fid : UInt32) (mode : UInt8)
  | ropen (qid : Npqid) (iounit : UInt32)
  | tcreate (fid : UInt32) (name : CStr) (perm : UInt32) (mode : UInt8)
  | rcreate (qid : Npqid) (iounit : UInt32)
  | tread (fid : UInt32) (offset : UInt64) (count : UInt32)
  | rread (count : UInt32) (data : List UInt8)
  | twrite (fid : UInt32) (offset : UInt64) (count : UInt32) (data : List UInt8)
  | rwrite (count : UInt32)
  | tclunk (fid : UInt32)
  | rclunk
  | tremove (fid : UInt32)
  | rremove
  | tstat (fid : UInt32)
  | rstat (wstat : Npwstat)
  | twstat (fid : UInt32) (wstat : Npwstat)
  | rwstat

namespace BaseCall

/-- The type of message that the call builds. -/
def type : BaseCall → MsgType
  | .tversion .. => .tversion
  | .rversion .. => .rversion
  | .rauth .. => .rauth
  | .rerror .. => .rerror
  | .tflush .. => .tflush
  | .rflush => .rflush
  | .tattach .. => .tattach
  | .rattach .. => .rattach
  | .twalk .. => .twalk
  | .rwalk .. => .rwalk
  | .topen .. => .topen
  | .ropen .. => .ropen
  | .tcreate .. => .tcreate
  | .rcreate .. => .rcreate
  | .tread .. => .tread
  | .rread .. => .rread
  | .twrite .. => .twrite
  | .rwrite .. => .rwrite
  | .tclunk .. => .tclunk
  | .rclunk => .rclunk
  | .tremove .. => .tremove
  | .rremove => .rremove
  | .tstat .. => .tstat
  | .rstat .. => .rstat
  | .twstat .. => .twstat
  | .rwstat => .rwstat

/-- Make the call. -/
def run (dotu : Bool) : BaseCall → Malloc → Option Npfcall
  | .tversion msize version => npCreateTversion msize version
  | .rversion msize version => npCreateRversion msize version
  | .rauth aqid => npCreateRauth aqid
  | .rerror ename ecode => npCreateRerror ename ecode dotu
  | .tflush oldtag => npCreateTflush oldtag
  | .rflush => npCreateRflush
  | .tattach fid afid uname aname nUname => npCreateTattach fid afid uname aname nUname dotu
  | .rattach qid => npCreateRattach qid
  | .twalk fid newfid wnames => npCreateTwalk fid newfid wnames
  | .rwalk wqids => npCreateRwalk wqids
  | .topen fid mode => npCreateTopen fid mode
  | .ropen qid iounit => npCreateRopen qid iounit
  | .tcreate fid name perm mode => npCreateTcreate fid name perm mode
  | .rcreate qid iounit => npCreateRcreate qid iounit
  | .tread fid offset count => npCreateTread fid offset count
  | .rread count data => npCreateRread count data
  | .twrite fid offset count data => npCreateTwrite fid offset count data
  | .rwrite count => npCreateRwrite count
  | .tclunk fid => npCreateTclunk fid
  | .rclunk => npCreateRclunk
  | .tremove fid => npCreateTremove fid
  | .rremove => npCreateRremove
  | .tstat fid => npCreateTstat fid
  | .rstat wstat => npCreateRstat wstat dotu
  | .twstat fid wstat => npCreateTwstat fid wstat dotu
  | .rwstat => npCreateRwstat

end BaseCall

end Npfs
