import Npfs.Cbuf

/-!
# Parsing a packet

`np_deserialize` of `libnpfs/np.c`: the size, type and tag, and then the fields of the message type
in the order in which its `case` reads them.
-/

namespace Npfs

/-- The loop that reads `n` strings into `wnames` from index `i` on. -/
def getWnames : (n i : Nat) → Vector Npstr MAXWELEM → Get (Vector Npstr MAXWELEM)
  | 0, _, wnames => return wnames
  | n + 1, i, wnames => do
    let name ← bufGetStr
    getWnames n (i + 1) (wnames.setIfInBounds i name)

/-- The loop that reads `n` qids into `wqids` from index `i` on. -/
def getWqids : (n i : Nat) → Vector Npqid MAXWELEM → Get (Vector Npqid MAXWELEM)
  | 0, _, wqids => return wqids
  | n + 1, i, wqids => do
    let qid ← bufGetQid
    getWqids n (i + 1) (wqids.setIfInBounds i qid)

/-- The `case` of one message type; `none` is `goto error`. -/
def getBody (dotu : Bool) (fc : Npfcall) : MsgType → Get (Option Npfcall)
  | .tversion | .rversion => do
    let msize ← getInt32
    let version ← bufGetStr
    return some { fc with msize, version }
  | .tauth => do
    let afid ← getInt32
    let uname ← bufGetStr
    let aname ← bufGetStr
    if dotu then
      let nUname ← getInt32
      return some { fc with afid, uname, aname, nUname }
    else
      return some { fc with afid, uname, aname, nUname := 0xFFFFFFFF }
  | .rauth | .rattach | .rsymlink | .rmknod | .rmkdir => do
    let qid ← bufGetQid
    return some { fc with qid }
  | .tflush => do
    let oldtag ← getInt16
    return some { fc with oldtag }
  | .tattach => do
    let fid ← getInt32
    let afid ← getInt32
    let uname ← bufGetStr
    let aname ← bufGetStr
    if dotu then
      let nUname ← getInt32
      return some { fc with fid, afid, uname, aname, nUname }
    else
      return some { fc with fid, afid, uname, aname, nUname := 0xFFFFFFFF }
  | .rerror => do
    let ename ← bufGetStr
    if dotu then
      let ecode ← getInt32
      return some { fc with ename, ecode }
    else
      return some { fc with ename, ecode := 0xFFFFFFFF }
  | .twalk => do
    let fid ← getInt32
    let newfid ← getInt32
    let nwname ← getInt16
    if nwname.toNat > MAXWELEM then
      return none
    else
      let wnames ← getWnames nwname.toNat 0 fc.wnames
      return some { fc with fid, newfid, nwname, wnames }
  | .rwalk => do
    let nwqid ← getInt16
    if nwqid.toNat > MAXWELEM then
      return none
    else
      let wqids ← getWqids nwqid.toNat 0 fc.wqids
      return some { fc with nwqid, wqids }
  | .topen => do
    let fid ← getInt32
    let mode ← getInt8
    return some { fc with fid, mode }
  | .ropen | .rcreate | .rlopen | .rlcreate => do
    let qid ← bufGetQid
    let iounit ← getInt32
    return some { fc with qid, iounit }
  | .tcreate => do
    let fid ← getInt32
    let name ← bufGetStr
    let perm ← getInt32
    let mode ← getInt8
    if dotu then
      let extension ← bufGetStr
      return some { fc with fid, name, perm, mode, extension }
    else
      return some { fc with fid, name, perm, mode, extension := npStrzero }
  | .tread | .treaddir => do
    let fid ← getInt32
    let offset ← getInt64
    let count ← getInt32
    return some { fc with fid, offset, count }
  | .rread | .rreaddir => do
    let count ← getInt32
    let data ← getAlloc (cint count)
    return some { fc with count, data }
  | .twrite => do
    let fid ← getInt32
    let offset ← getInt64
    let count ← getInt32
    let data ← getAlloc (cint count)
    return some { fc with fid, offset, count, data }
  | .rwrite => do
    let count ← getInt32
    return some { fc with count }
  | .tclunk | .tremove | .tstat | .tstatfs | .treadlink | .tfsync => do
    let fid ← getInt32
    return some { fc with fid }
  | .rflush | .rclunk | .rremove | .rwstat | .rrename | .rsetattr | .rxattrcreate | .rfsync
  | .rlink | .rrenameat | .runlinkat =>
    return some fc
  | .rstat => do
    let _ ← getInt16
    let stat ← bufGetStat fc.stat dotu
    return some { fc with stat }
  | .twstat => do
    let fid ← getInt32
    let _ ← getInt16
    let stat ← bufGetStat fc.stat dotu
    return some { fc with fid, stat }
  | .rlerror => do
    let ecode ← getInt32
    return some { fc with ecode }
  | .rstatfs => do
    let stfs ← bufGetStatfs
    return some { fc with stfs }
  | .tlopen => do
    let fid ← getInt32
    let flags ← getInt32
    return some { fc with fid, flags }
  | .tlcreate => do
    let fid ← getInt32
    let name ← bufGetStr
    let flags ← getInt32
    let perm ← getInt32
    let gid ← getInt32
    return some { fc with fid, name, flags, perm, gid }
  | .tsymlink => do
    let dfid ← getInt32
    let name ← bufGetStr
    let symtgt ← bufGetStr
    let gid ← getInt32
    return some { fc with dfid, name, symtgt, gid }
  | .tmknod => do
    let fid ← getInt32
    let name ← bufGetStr
    let perm ← getInt32
    let major ← getInt32
    let minor ← getInt32
    let gid ← getInt32
    return some { fc with fid, name, perm, major, minor, gid }
  | .trename => do
    let fid ← getInt32
    let dfid ← getInt32
    let name ← bufGetStr
    return some { fc with fid, dfid, name }
  | .rreadlink => do
    let symtgt ← bufGetStr
    return some { fc with symtgt }
  | .tgetattr => do
    let fid ← getInt32
    let mask ← getInt64
    return some { fc with fid, mask }
  | .rgetattr => do
    let mask ← getInt64
    let qid ← bufGetQid
    let mode ← getInt32
    let uid ← getInt32
    let gid ← getInt32
    let nlink ← getInt64
    let rdev ← getInt64
    let size ← getInt64
    let blksize ← getInt64
    let blocks ← getInt64
    let atimeSec ← getInt64
    let atimeNsec ← getInt64
    let mtimeSec ← getInt64
    let mtimeNsec ← getInt64
    let ctimeSec ← getInt64
    let ctimeNsec ← getInt64
    let btimeSec ← getInt64
    let btimeNsec ← getInt64
    let gen ← getInt64
    let dataVersion ← getInt64
    let attrs := { fc.attrs with
      mode, uid, gid, nlink, rdev, size, blksize, blocks, atimeSec, atimeNsec, mtimeSec,
      mtimeNsec, ctimeSec, ctimeNsec, btimeSec, btimeNsec, gen, dataVersion }
    return some { fc with mask, qid, attrs }
  | .tsetattr => do
    let fid ← getInt32
    let mask ← getInt32
    let mode ← getInt32
    let uid ← getInt32
    let gid ← getInt32
    let size ← getInt64
    let atimeSec ← getInt64
    let atimeNsec ← getInt64
    let mtimeSec ← getInt64
    let mtimeNsec ← getInt64
    let attrs := { fc.attrs with
      mask := mask.toUInt64, mode, uid, gid, size, atimeSec, atimeNsec, mtimeSec, mtimeNsec }
    return some { fc with fid, mask := mask.toUInt64, attrs }
  | .txattrwalk => do
    let fid ← getInt32
    let newfid ← getInt32
    let name ← bufGetStr
    return some { fc with fid, newfid, name }
  | .rxattrwalk => do
    let asize ← getInt64
    return some { fc with asize }
  | .txattrcreate => do
    let fid ← getInt32
    let name ← bufGetStr
    let asize ← getInt64
    let flags ← getInt32
    return some { fc with fid, name, asize, flags }
  | .tlock => do
    let fid ← getInt32
    let locktype ← getInt8
    let flags ← getInt32
    let offset ← getInt64
    let locklength ← getInt64
    let procid ← getInt32
    let clientid ← bufGetStr
    return some { fc with fid, locktype, flags, offset, locklength, procid, clientid }
  | .rlock => do
    let lockstatus ← getInt8
    return some { fc with lockstatus }
  | .tgetlock | .rgetlock => do
    let fid ← getInt32
    let locktype ← getInt8
    let offset ← getInt64
    let locklength ← getInt64
    let procid ← getInt32
    let clientid ← bufGetStr
    return some { fc with fid, locktype, offset, locklength, procid, clientid }
  | .tlink => do
    let dfid ← getInt32
    let fid ← getInt32
    let name ← bufGetStr
    return some { fc with dfid, fid, name }
  | .tmkdir => do
    let fid ← getInt32
    let name ← bufGetStr
    let perm ← getInt32
    let gid ← getInt32
    return some { fc with fid, name, perm, gid }
  | .trenameat => do
    let fid ← getInt32
    let oname ← bufGetStr
    let newfid ← getInt32
    let name ← bufGetStr
    return some { fc with fid, oname, newfid, name }
  | .tunlinkat => do
    let fid ← getInt32
    let name ← bufGetStr
    let flags ← getInt32
    return some { fc with fid, name, flags }
  | .tlerror | .terror =>
    return none

/-- Everything of `np_deserialize` that reads behind the size field. -/
def getFcall (dotu : Bool) (fc : Npfcall) : Get (Option Npfcall) := do
  let type ← getInt8
  let tag ← getInt16
  let fc := { fc with type, tag, fid := NOFID, afid := NOFID, newfid := NOFID }
  match MsgType.ofCode? type with
  | none => return none
  | some type => getBody dotu fc type

/-- The size that the first four bytes of a packet announce. -/
def announcedSize (data : List UInt8) : UInt32 := (Cbuf.bufInit data 0 4).bufGetInt32.1

/-- The window behind the size field. -/
def packetBody (data : List UInt8) : Cbuf := Cbuf.bufInit data 4 (cint (announcedSize data - 4))

/-- The end of `np_deserialize`: a message is given up after `goto error`, and when the cursor has
run over the end. -/
def overflowTest : Option Npfcall × Cbuf → Option Npfcall
  | (none, _) => none
  | (some fc, buf) => if buf.bufCheckOverflow then none else some fc

/-- `np_deserialize`: `none` stands for the return value 0, and a message for a return of its
size. -/
def npDeserialize (fc : Npfcall) (data : List UInt8) (dotu : Bool) : Option Npfcall :=
  overflowTest
    ((getFcall dotu { fc with size := announcedSize data }).run GetOp.exec (packetBody data))

end Npfs
