import Npfs.Fid

/-!
# Request handlers

The handlers of `libnpfs/fcall.c`, one for each T-message, and `np_default_version` of
`libnpfs/srv.c`. A handler returns its reply, or `NULL`; a request whose handler returns `NULL`
without an error is answered later.
-/

namespace Npfs

open Serve LittleEndian

/-- The bytes of a string of the message. -/
def Npfcall.text (tc : Npfcall) (s : Npstr) : List UInt8 :=
  match s.str with
  | none => []
  | some str => (tc.pkt.drop str.toNat).take s.len.toNat

/-- The bytes that `tc->data` counts. -/
def Npfcall.payload (tc : Npfcall) : List UInt8 :=
  match tc.data with
  | none => []
  | some data => (tc.pkt.drop data.toNat).take tc.count.toNat

/-- `np_strdup`. -/
def npStrdup (text : List UInt8) : CStr :=
  ⟨text.takeWhile (· ≠ 0), fun member => by
    simpa using List.all_eq_true.mp List.all_takeWhile 0 member⟩

/-- The bytes in front of a terminator. -/
theorem npStrdup_append {base : List UInt8} (noNul : 0 ∉ base) (name : List UInt8) :
    (npStrdup (base ++ name)).bytes = base ++ (npStrdup name).bytes := by
  have plain : ∀ b ∈ base, decide (b ≠ 0) = true := fun b member =>
    decide_eq_true fun zero => noNul (zero ▸ member)
  exact List.takeWhile_append_of_pos plain

theorem npStrdup_bytes (name : CStr) : npStrdup name.bytes = name := by
  have whole := npStrdup_append name.noNul []
  rw [List.append_nil] at whole
  have same : (npStrdup name.bytes).bytes = name.bytes := whole.trans (List.append_nil _)
  cases name
  exact CStr.mk.injEq .. ▸ same

/-- `strncmp(s, t, n) == 0`; the terminators are behind the bytes. -/
def strncmp? : (n : Nat) → (s t : List UInt8) → Bool
  | 0, _, _ => true
  | n + 1, s, t => s.headD 0 == t.headD 0 && (s.headD 0 == 0 || strncmp? n s.tail t.tail)

/-- `np_strcmp(str, cs) == 0`. -/
def npStrcmp? (str : List UInt8) (cs : CStr) : Bool :=
  strncmp? str.length str cs.bytes && cs.bytes.getD str.length 0 == 0

/-- `np_strncmp(str, cs, len) == 0`. -/
def npStrncmp? (str : List UInt8) (cs : CStr) (len : Nat) : Bool :=
  if len ≤ str.length then strncmp? len str cs.bytes else npStrcmp? str cs

/-- `np_alloc_rreaddir`. -/
def npAllocRreaddir (count : UInt32) : Malloc → Option Npfcall :=
  npCreate .rreaddir (4 + count) [.int32 count (fun fc count => { fc with count }), .alloc count]

/-- The stores of `np_set_rread_count` and `np_set_rreaddir_count`, without their assertion. -/
def npSetCount (fc : Npfcall) (count : UInt32) : Npfcall :=
  let size := 4 + 1 + 2 + 4 + count
  let (buf, fc) := bufPutInt32 size (fun fc size => { fc with size })
    (Cbuf.bufInit fc.pkt 0 (cint size), fc)
  let (buf, fc) := bufPutInt32 count (fun fc count => { fc with count })
    (Cbuf.bufInit buf.mem 7 (cint (size - 7)), fc)
  { fc with pkt := buf.mem }

/-! ## Version -/

/-- The protocol that `np_default_version` settles on: its name, `dotu` and `dotl`. -/
def chosenVersion (srv : Npsrv) (version : List UInt8) : Option (CStr × Bool × Bool) :=
  if npStrcmp? version (cstr "9P2000.u") ∧ srv.dotu then
    some (cstr "9P2000.u", true, false)
  else if npStrcmp? version (cstr "9P2000.L") ∧ srv.dotl then
    some (cstr "9P2000.L", true, true)
  else if npStrncmp? version (cstr "9P2000") 6 then
    some (cstr "9P2000", false, false)
  else
    none

/-- `np_default_version`. -/
def npDefaultVersion (msize : UInt32) (version : List UInt8) : Serve (Option Npfcall) := do
  let srv ← srv
  let conn ← conn
  let msize := if msize > srv.msize then srv.msize else msize
  let msize := if msize > conn.msize then conn.msize else msize
  if msize < IOHDRSZ then
    fail (cstr "msize too small") EIO
  else
    match chosenVersion srv version with
    | none => fail (cstr "unsupported 9P version") EIO
    | some (ver, dotu, dotl) =>
      npConnReset msize dotu dotl
      create (npCreateRversion msize ver)

/-- `np_version`. -/
def npVersion (tc : Npfcall) : Serve (Option Npfcall) :=
  if tc.msize < IOHDRSZ + 1 then
    fail (cstr "msize too small") EIO
  else
    npDefaultVersion tc.msize (tc.text tc.version)

/-! ## Attaching -/

/-- The user that a `Tauth` or a `Tattach` names. -/
def npReqUser (tc : Npfcall) : Serve (Option UserPtr) := do
  let user : Option UserPtr ←
    if tc.uname.len ≠ 0 ∧ tc.nUname = 0xFFFFFFFF then
      call (.uname2user (npStrdup (tc.text tc.uname)))
    else
      call (.uid2user tc.nUname)
  match user with
  | none => fail Eunknownuser EIO
  | some user => return some user

/-- The `aname` of a `Tauth` or a `Tattach`. -/
def npReqAname (tc : Npfcall) : Option CStr :=
  if tc.aname.len ≠ 0 then some (npStrdup (tc.text tc.aname)) else none

/-- `np_auth` for an `afid` that it has created. -/
def npStartAuth (tc : Npfcall) (afid : FidPtr) : Serve (Option Npfcall) := do
  match ← npReqUser tc with
  | none => return none
  | some user =>
    setUser afid (some user)
    setType afid Qtauth
    let srv ← srv
    let aqid : Option Npqid ←
      if srv.auth.any (·.startauth) then call (.startauth afid (npReqAname tc)) else pure none
    match aqid with
    | none => fail Enoauth EIO
    | some aqid =>
      if aqid.type.toUInt16 &&& Qtauth = 0 then
        crash
      create (npCreateRauth aqid)

/-- `np_auth`.  Its `goto done` gives up a reference to the `afid`, also to one that was found. -/
def npAuth (tc : Npfcall) : Serve (Option Npfcall) := do
  match ← npFidFind tc.afid with
  | some afid =>
    npWerror Einuse EIO
    npFidDecref (some afid)
    return none
  | none =>
    match ← npFidCreate tc.afid with
    | none => return none
    | some afid =>
      npFidIncref (some afid)
      match ← npStartAuth tc afid with
      | some rc => return some rc
      | none =>
        npFidDecref (some afid)
        return none

/-- `np_attach` once the `afid` is settled. -/
def npAttachUser (tc : Npfcall) (fid : FidPtr) (afid : Option FidPtr) : Serve (Option Npfcall) := do
  match ← npReqUser tc with
  | none => return none
  | some user =>
    setUser fid (some user)
    let srv ← srv
    let checked : Bool ←
      if srv.auth.any (·.checkauth) then call (.checkauth fid afid (npReqAname tc)) else pure true
    if checked then
      call (.attach fid afid (tc.text tc.uname) (tc.text tc.aname))
    else
      return none

/-- `np_attach`.  Its `goto done` gives up a reference to the `afid`, also to one that is no auth
fid. -/
def npAttach (tc : Npfcall) : Serve (Option Npfcall) := do
  match ← npFidFind tc.fid with
  | some _ => fail Einuse EIO
  | none =>
    match ← npFidCreate tc.fid with
    | none => return none
    | some fid =>
      npFidIncref (some fid)
      setReqFid (some fid)
      match ← npFidFind tc.afid with
      | none =>
        if tc.afid ≠ NOFID then
          fail Eunknownfid EIO
        else
          npAttachUser tc fid none
      | some afid =>
        let type ← type afid
        if type &&& Qtauth = 0 then
          npWerror Ebadusefid EIO
          npFidDecref (some afid)
          return none
        else
          npFidIncref (some afid)
          let rc ← npAttachUser tc fid (some afid)
          npFidDecref (some afid)
          return rc

/-- `np_flush`. -/
def npFlush (tc : Npfcall) : Serve (Option Npfcall) := do
  let answered ← (Program.step (.flush tc.oldtag) .done : Serve Bool)
  if answered then create npCreateRflush else return none

/-! ## Walking -/

/-- The loop of `np_walk`: the qids of the names that were walked. -/
def npWalkNames (newfid : FidPtr) : List (List UInt8) → Serve (List Npqid)
  | [] => return []
  | wname :: wnames => do
    let wqid : Option Npqid ← call (.walk newfid wname)
    match wqid with
    | none => return []
    | some wqid =>
      setType newfid wqid.type.toUInt16
      let type ← type newfid
      if wnames ≠ [] ∧ type &&& Qtdir = 0 then
        return [wqid]
      else
        let wqids ← npWalkNames newfid wnames
        return wqid :: wqids

/-- `np_walk` from the point where it has the fid to walk. -/
def npWalkFrom (tc : Npfcall) (newfid : FidPtr) : Serve (Option Npfcall) := do
  npFidIncref (some newfid)
  let wqids ← npWalkNames newfid ((tc.wnames.toList.take tc.nwname.toNat).map tc.text)
  if wqids.length = 0 ∧ tc.nwname ≠ 0 then
    npFidDecref (some newfid)
    return none
  else
    npWerrorNone
    if tc.fid ≠ tc.newfid ∧ wqids.length = tc.nwname.toNat then
      npFidIncref (some newfid)
    let rc ← create (npCreateRwalk wqids)
    npFidDecref (some newfid)
    return rc

/-- `np_walk`. -/
def npWalk (tc : Npfcall) : Serve (Option Npfcall) := do
  match ← npFidFind tc.fid with
  | none => fail Eunknownfid EIO
  | some fid =>
    npFidIncref (some fid)
    setReqFid (some fid)
    let omode ← omode fid
    if omode ≠ Onotopen then
      fail Ebadusefid EIO
    else if tc.nwname.toNat > MAXWELEM then
      fail Etoomanywnames EIO
    else if tc.fid ≠ tc.newfid then
      match ← npFidFind tc.newfid with
      | some newfid =>
        npWerror Einuse EIO
        npFidDecref (some newfid)
        return none
      | none =>
        match ← npFidCreate tc.newfid with
        | none => fail Ennomem ENOMEM
        | some newfid =>
          let cloned : Bool ← call (.clone fid newfid)
          if cloned then
            let user ← user fid
            npUserIncref user
            setUser newfid user
            let type ← type fid
            setType newfid type
            npWalkFrom tc newfid
          else
            npFidDecref (some newfid)
            return none
    else
      npWalkFrom tc fid

/-! ## Requests about one fid -/

/-- The beginning of most handlers: the fid, a reference to it, and `req->fid`. -/
def withFid (fid : UInt32) (rest : FidPtr → Serve (Option Npfcall)) : Serve (Option Npfcall) := do
  match ← npFidFind fid with
  | none => fail Eunknownfid EIO
  | some fid =>
    npFidIncref (some fid)
    setReqFid (some fid)
    rest fid

/-- The tests that a fid is an unopened directory. -/
def inDirectory (fid : FidPtr) (rest : Serve (Option Npfcall)) : Serve (Option Npfcall) := do
  let omode ← omode fid
  if omode ≠ Onotopen then
    fail Ebadusefid EIO
  else
    let type ← type fid
    if type &&& Qtdir = 0 then
      fail Enotdir ENOTDIR
    else
      rest

/-- `np_open`. -/
def npOpen (tc : Npfcall) : Serve (Option Npfcall) :=
  withFid tc.fid fun fid => do
    let omode ← omode fid
    if omode ≠ Onotopen then
      fail Ebadusefid EIO
    else
      let type ← type fid
      if type &&& Qtdir ≠ 0 ∧ tc.mode ≠ Oread then
        fail Eperm EPERM
      else
        let rc : Option Npfcall ← call (.openFid fid tc.mode)
        setOmode fid tc.mode.toUInt16
        return rc

/-- `np_create`. -/
def npCreateFile (tc : Npfcall) : Serve (Option Npfcall) :=
  withFid tc.fid fun fid => inDirectory fid do
    let conn ← conn
    if tc.perm &&& Dmdir ≠ 0 ∧ tc.mode ≠ Oread then
      fail Eperm EPERM
    else if tc.perm &&& Dmspecial ≠ 0 ∧ ¬ conn.dotu then
      fail Eperm EPERM
    else
      let rc : Option Npfcall ←
        call (.create fid (tc.text tc.name) tc.perm tc.mode (tc.text tc.extension))
      match rc with
      | none => return none
      | some rc =>
        if rc.type = MsgType.rcreate.code then
          setOmode fid tc.mode.toUInt16
          setType fid rc.qid.type.toUInt16
        return some rc

/-- `np_read` of an auth fid. -/
def npReadAuth (tc : Npfcall) (fid : FidPtr) : Serve (Option Npfcall) := do
  let srv ← srv
  if srv.auth.isNone then
    fail Ebadusefid EIO
  else
    let rc ← create (npAllocRread tc.count)
    match rc with
    | none => return none
    | some rc =>
      let answer : Int × List UInt8 ← call (.authRead fid tc.offset tc.count)
      if answer.1 < 0 then
        return none
      else
        if rc.count.toNat < answer.1 then
          crash
        let filled := { rc with pkt := store rc.pkt 11 (answer.2.take tc.count.toNat) }
        return some (npSetCount filled (UInt32.ofNat answer.1.toNat))

/-- `np_read`. -/
def npRead (tc : Npfcall) : Serve (Option Npfcall) :=
  withFid tc.fid fun fid => do
    let conn ← conn
    if tc.count + IOHDRSZ > conn.msize then
      fail Etoolarge EIO
    else
      let type ← type fid
      if type &&& Qtauth ≠ 0 then
        npReadAuth tc fid
      else if type &&& Ftxattr ≠ 0 then
        call (.xattrread fid tc.offset tc.count)
      else
        let omode ← omode fid
        if omode = Onotopen ∨ omode &&& 3 = Owrite.toUInt16 then
          fail Ebadusefid EIO
        else
          let diroffset ← diroffset fid
          if type &&& Qtdir ≠ 0 ∧ tc.offset ≠ diroffset.toUInt64 then
            fail Ebadoffset EIO
          else
            call (.read fid tc.offset tc.count)

/-- `np_write`. -/
def npWrite (tc : Npfcall) : Serve (Option Npfcall) :=
  withFid tc.fid fun fid => do
    let type ← type fid
    if type &&& Qtauth ≠ 0 then
      let srv ← srv
      if srv.auth.isNone then
        fail Ebadusefid EIO
      else
        let n : Int ← call (.authWrite fid tc.offset tc.count tc.payload)
        if n < 0 then return none else create (npCreateRwrite (UInt32.ofNat n.toNat))
    else if type &&& Ftxattr ≠ 0 then
      call (.xattrwrite fid tc.offset tc.count tc.payload)
    else
      let omode ← omode fid
      if omode = Onotopen ∨ type &&& Qtdir ≠ 0 ∨ omode &&& 3 = Oread.toUInt16 then
        fail Ebadusefid EIO
      else
        let conn ← conn
        if tc.count + IOHDRSZ > conn.msize then
          fail Etoolarge EIO
        else
          call (.write fid tc.offset tc.count tc.payload)

/-- The end of `np_clunk`: the reference of the client is given up with an `Rclunk`. -/
def npClunked (fid : FidPtr) (rc : Option Npfcall) : Serve (Option Npfcall) := do
  if rc.any fun rc => rc.type == MsgType.rclunk.code then
    npFidDecref (some fid)
  return rc

/-- `np_clunk`. -/
def npClunk (tc : Npfcall) : Serve (Option Npfcall) :=
  withFid tc.fid fun fid => do
    let type ← type fid
    if type &&& Qtauth ≠ 0 then
      let srv ← srv
      if srv.auth.isNone then
        fail Ebadusefid EIO
      else
        let n : Int ← call (.authClunk fid)
        if n = 0 then return none else create npCreateRclunk
    else
      let omode ← omode fid
      if omode ≠ Onotopen ∧ omode = Orclose.toUInt16 then
        let removed : Option Npfcall ← call (.remove fid)
        match removed with
        | none =>
          crash
          return none
        | some removed =>
          if removed.type = MsgType.rerror.code then
            return some removed
          else
            let rc ← create npCreateRclunk
            npClunked fid rc
      else
        let rc : Option Npfcall ← call (.clunk fid)
        npClunked fid rc

/-- `np_remove`. -/
def npRemove (tc : Npfcall) : Serve (Option Npfcall) :=
  withFid tc.fid fun fid => do
    let rc : Option Npfcall ← call (.remove fid)
    if rc.any fun rc => rc.type == MsgType.rremove.code then
      npFidDecref (some fid)
    return rc

/-- `np_stat`. -/
def npStat (tc : Npfcall) : Serve (Option Npfcall) :=
  withFid tc.fid fun fid => call (.stat fid)

/-- `np_wstat`. -/
def npWstat (tc : Npfcall) : Serve (Option Npfcall) :=
  withFid tc.fid fun fid => do
    if tc.stat.type ≠ 0xFFFF ∨ tc.stat.dev ≠ 0xFFFFFFFF ∨ tc.stat.qid.version ≠ 0xFFFFFFFF ∨
        tc.stat.qid.path ≠ 0xFFFFFFFFFFFFFFFF then
      fail Eperm EPERM
    else
      let type ← type fid
      if (type &&& Qtdir ≠ 0 ∧ tc.stat.mode &&& Dmdir = 0) ∨
          (type &&& Qtdir = 0 ∧ tc.stat.mode &&& Dmdir ≠ 0) then
        fail Edirchange EPERM
      else
        call (.wstat fid tc.stat tc.pkt)

/-! ## 9P2000.L -/

/-- `np_statfs`. -/
def npStatfs (tc : Npfcall) : Serve (Option Npfcall) :=
  withFid tc.fid fun fid => call (.statfs fid)

/-- `uflags2omode`, with the `open` flags of Linux. -/
def uflags2omode (flags : UInt32) : UInt8 :=
  (if flags &&& 3 = 2 then Ordwr else if flags &&& 3 = 1 then Owrite else Oread) |||
    (if flags &&& 0o1000 ≠ 0 then Otrunc else 0) |||
    (if flags &&& 0o2000 ≠ 0 then Oappend else 0) |||
    (if flags &&& 0o200 ≠ 0 then Oexcl else 0)

/-- `np_lopen`. -/
def npLopen (tc : Npfcall) : Serve (Option Npfcall) :=
  withFid tc.fid fun fid => do
    let rc : Option Npfcall ← call (.lopen fid tc.flags)
    setOmode fid (uflags2omode tc.flags).toUInt16
    return rc

/-- `np_lcreate`. -/
def npLcreate (tc : Npfcall) : Serve (Option Npfcall) :=
  withFid tc.fid fun fid => inDirectory fid do
    if tc.perm &&& Dmdir ≠ 0 ∧ tc.mode ≠ Oread then
      fail Eperm EPERM
    else
      let rc : Option Npfcall ← call (.lcreate fid (tc.text tc.name) tc.flags tc.perm tc.gid)
      match rc with
      | none => return none
      | some rc =>
        if rc.type = MsgType.rlcreate.code then
          setOmode fid (uflags2omode tc.flags).toUInt16
          setType fid rc.qid.type.toUInt16
        return some rc

/-- `np_symlink`. -/
def npSymlink (tc : Npfcall) : Serve (Option Npfcall) :=
  withFid tc.dfid fun fid => inDirectory fid
    (call (.symlink fid (tc.text tc.name) (tc.text tc.symtgt) tc.gid))

/-- `np_mknod`. -/
def npMknod (tc : Npfcall) : Serve (Option Npfcall) :=
  withFid tc.fid fun fid => inDirectory fid
    (if tc.perm &&& Dmdir ≠ 0 ∧ tc.mode ≠ Oread then
      fail Eperm EPERM
    else
      call (.mknod fid (tc.text tc.name) tc.perm tc.major tc.minor tc.gid))

/-- `np_rename`. -/
def npRename (tc : Npfcall) : Serve (Option Npfcall) :=
  withFid tc.fid fun fid => do
    match ← npFidFind tc.dfid with
    | none => fail Eunknownfid EIO
    | some dfid =>
      npFidIncref (some dfid)
      let rc : Option Npfcall ← call (.rename fid dfid (tc.text tc.name))
      npFidDecref (some dfid)
      return rc

/-- `np_readlink`. -/
def npReadlink (tc : Npfcall) : Serve (Option Npfcall) :=
  withFid tc.fid fun fid => call (.readlink fid)

/-- `np_getattr`. -/
def npGetattr (tc : Npfcall) : Serve (Option Npfcall) :=
  withFid tc.fid fun fid => call (.getattr fid tc.mask)

/-- `np_setattr`. -/
def npSetattr (tc : Npfcall) : Serve (Option Npfcall) :=
  withFid tc.fid fun fid => call (.setattr fid tc.attrs)

/-- `np_xattrwalk`. -/
def npXattrwalk (tc : Npfcall) : Serve (Option Npfcall) :=
  withFid tc.fid fun fid => do
    match ← npFidFind tc.newfid with
    | some _ => fail Einuse EIO
    | none =>
      match ← npFidCreate tc.newfid with
      | none => fail Ennomem ENOMEM
      | some newfid =>
        let user ← user fid
        npUserIncref user
        setUser newfid user
        npFidIncref (some newfid)
        let rc : Option Npfcall ← call (.xattrwalk fid newfid (tc.text tc.name))
        if rc.any fun rc => rc.type == MsgType.rxattrwalk.code then
          setType newfid Ftxattr
        npFidDecref (some newfid)
        return rc

/-- `np_xattrcreate`. -/
def npXattrcreate (tc : Npfcall) : Serve (Option Npfcall) :=
  withFid tc.fid fun fid => do
    let before ← type fid
    if before &&& Ftxattr ≠ 0 then
      fail Ebadusefid EIO
    else
      let rc : Option Npfcall ← call (.xattrcreate fid (tc.text tc.name) tc.asize tc.flags)
      if rc.any fun rc => rc.type == MsgType.rxattrcreate.code then
        let type ← type fid
        setType fid (type ||| Ftxattr)
      return rc

/-- `np_readdir`. -/
def npReaddir (tc : Npfcall) : Serve (Option Npfcall) :=
  withFid tc.fid fun fid => do
    let conn ← conn
    if tc.count + IOHDRSZ > conn.msize then
      fail Etoolarge EIO
    else
      let omode ← omode fid
      let type ← type fid
      if omode = Onotopen ∨ omode &&& 3 = Owrite.toUInt16 ∨ type &&& Qtdir = 0 then
        fail Ebadusefid EIO
      else
        call (.readdir fid tc.offset tc.count)

/-- `np_fsync`. -/
def npFsync (tc : Npfcall) : Serve (Option Npfcall) :=
  withFid tc.fid fun fid => call (.fsync fid)

/-- `np_flock`. -/
def npFlock (tc : Npfcall) : Serve (Option Npfcall) :=
  withFid tc.fid fun fid =>
    call (.flock fid tc.locktype tc.flags tc.offset tc.locklength tc.procid (tc.text tc.clientid))

/-- `np_getlock`. -/
def npGetlock (tc : Npfcall) : Serve (Option Npfcall) :=
  withFid tc.fid fun fid =>
    call (.getlock fid tc.locktype tc.offset tc.locklength tc.procid (tc.text tc.clientid))

/-- `np_link`.  It stores `req->fid` only after it has found the directory. -/
def npLink (tc : Npfcall) : Serve (Option Npfcall) := do
  match ← npFidFind tc.fid with
  | none => fail Eunknownfid EIO
  | some fid =>
    npFidIncref (some fid)
    match ← npFidFind tc.dfid with
    | none => fail Eunknownfid EIO
    | some dfid =>
      npFidIncref (some dfid)
      setReqFid (some fid)
      let rc ← inDirectory dfid (call (.link dfid fid (tc.text tc.name)))
      npFidDecref (some dfid)
      return rc

/-- `np_mkdir`. -/
def npMkdir (tc : Npfcall) : Serve (Option Npfcall) :=
  withFid tc.fid fun fid => inDirectory fid
    (call (.mkdir fid (tc.text tc.name) tc.perm tc.gid))

/-- `np_renameat`. -/
def npRenameat (tc : Npfcall) : Serve (Option Npfcall) :=
  withFid tc.fid fun ofid => inDirectory ofid do
    match ← npFidFind tc.newfid with
    | none => fail Eunknownfid EIO
    | some nfid =>
      npFidIncref (some nfid)
      let rc ← inDirectory nfid
        (call (.renameat ofid (tc.text tc.oname) nfid (tc.text tc.name)))
      npFidDecref (some nfid)
      return rc

/-- `np_unlinkat`.  It stores `req->fid` only after its tests. -/
def npUnlinkat (tc : Npfcall) : Serve (Option Npfcall) := do
  match ← npFidFind tc.fid with
  | none => fail Eunknownfid EIO
  | some fid =>
    npFidIncref (some fid)
    inDirectory fid do
      setReqFid (some fid)
      call (.unlinkat fid (tc.text tc.name))

/-! ## Dispatch -/

/-- `np_fcalls`, by the message type that an index stands for. -/
def npFcalls : Nat → Option (Npfcall → Serve (Option Npfcall))
  | 8 => npStatfs
  | 12 => npLopen
  | 14 => npLcreate
  | 16 => npSymlink
  | 18 => npMknod
  | 20 => npRename
  | 22 => npReadlink
  | 24 => npGetattr
  | 26 => npSetattr
  | 30 => npXattrwalk
  | 32 => npXattrcreate
  | 40 => npReaddir
  | 50 => npFsync
  | 52 => npFlock
  | 54 => npGetlock
  | 70 => npLink
  | 72 => npMkdir
  | 74 => npRenameat
  | 76 => npUnlinkat
  | 100 => npVersion
  | 102 => npAuth
  | 104 => npAttach
  | 108 => npFlush
  | 110 => npWalk
  | 112 => npOpen
  | 114 => npCreateFile
  | 116 => npRead
  | 118 => npWrite
  | 120 => npClunk
  | 122 => npRemove
  | 124 => npStat
  | 126 => npWstat
  | _ => none

/-- The handler of a message: `(tc->type-Tfirst)/2` rounds the code of an R-message down to that of
its T-message. -/
def npHandler (tc : Npfcall) : Option (Npfcall → Serve (Option Npfcall)) :=
  if tc.type < 6 then none else npFcalls (tc.type.toNat / 2 * 2)

/-- `np_process_request`. -/
def npProcessRequest (npErrnoToLinux : UInt32 → UInt32) (tc : Npfcall) :
    Serve (Option Npfcall) := do
  npWerrorNone
  let rc ← match npHandler tc with
    | some f => f tc
    | none => fail (cstr "unsupported message") ENOSYS
  let error ← npRerror
  match error with
  | none => return rc
  | some error =>
    let conn ← conn
    if conn.dotl then
      create (npCreateRlerror npErrnoToLinux error.ecode)
    else
      create (npCreateRerror error.ename error.ecode conn.dotu)

/-- What `np_respond` does to the fids, and the reply that it sends. -/
def npRespond (tc rc : Npfcall) : Serve Npfcall := do
  let fid ← reqFid
  if rc.type = MsgType.rread.code then
    match fid with
    | none => crash
    | some fid =>
      let type ← type fid
      if type &&& Qtdir ≠ 0 then
        setDiroffset fid (tc.offset + rc.count.toUInt64).toUInt32
  npFidDecref fid
  setReqFid none
  return npSetTag rc tc.tag

end Npfs
