import Npfs.HostReads
import Npfs.Restore

/-!
# The connection of a checkpoint

`ufs_restore` of `libufs/ufs.c` with the fids that it makes and the files that it opens again.  Into
a connection without fids it puts the fids that `ufs_checkpoint` has written, each with one
reference.
-/

namespace Npfs

namespace Ufs

open LittleEndian Program

/-! ## The fids -/

/-- The bytes that a `memmove` finds at a pointer into the buffer. -/
def textAt (data : List UInt8) (ptr : Option Int) (len : ℕ) : List UInt8 :=
  (data.drop (ptr.getD 0).toNat).take len

/-- `np_fid_create`.  A fid that has the number already keeps what it has. -/
def npFidCreateWith (fid : UInt32) (aux : Fid) (s : State) : FidPtr × State :=
  match s.pool fid with
  | some f => (f, s)
  | none =>
    (s.fids.next,
      { s with
        fids := s.fids.push { (Npfid.new fid : Npfid Fid) with aux := some aux }
        pool := Function.update s.pool fid (some s.fids.next) })

/-- `f->xattrdata`: memory for the value, which is copied unless it is missing. -/
def restoreValue (data : List UInt8) (saved : Saved) (s : State) : Option (List UInt8) × State :=
  if saved.type &&& Ftxattr = 0 then (none, s)
  else
    let size := saved.xattrsz.toNat
    let (memory, world) := s.world.exec (.malloc (if size = 0 then 1 else size))
    if size = 0 ∨ saved.value.isNone then (memory, { s with world })
    else
      (memory.map fun _ => textAt data saved.value size,
        { s with world, fault := s.fault || memory.isNone })

/-- What `fid->aux` gets. -/
def Saved.aux (u : Ufssrv) (data : List UInt8) (saved : Saved) (xattrdata : Option (List UInt8)) :
    Fid :=
  { npfsFidalloc (npStrdup (textAt data saved.path.str saved.path.len.toNat)) with
    omode := saved.fomode
    mapped := u.mapped
    xattrname :=
      if saved.xattrname.len = 0 then none
      else some (npStrdup (textAt data saved.xattrname.str saved.xattrname.len.toNat))
    xattrflags := saved.xattrflags
    xattrsz := saved.xattrsz
    xattrdata }

/-- What the fid gets. -/
def Saved.fill (u : Ufssrv) (saved : Saved) (fid : Npfid Fid) : Npfid Fid :=
  { fid with
    omode := saved.omode
    type := saved.type
    diroffset := saved.diroffset
    user := u.uid2user saved.uid }

/-- A turn of the loop of `ufs_restore`. -/
def restoreFid (u : Ufssrv) (data : List UInt8) (saved : Saved) (s : State) : FidPtr × State :=
  let (xattrdata, s) := restoreValue data saved s
  let (fid, s) := npFidCreateWith saved.fid (saved.aux u data xattrdata) s
  let s := { s with fault := s.fault || !saved.copies data }
  (fid, s.modify fid (saved.fill u))

/-- The loop of `ufs_restore`. -/
def restoreFids (u : Ufssrv) (data : List UInt8) : List Saved → State → List FidPtr × State
  | [], s => ([], s)
  | saved :: rest, s =>
    let (fid, s) := restoreFid u data saved s
    let (fids, s) := restoreFids u data rest s
    (fid :: fids, s)

/-! ## The files -/

/-- The text that is written to `err`, a buffer of `errsz` bytes, and the bytes that the messages
have together. -/
structure Report where
  errsz : Int
  n : ℕ
  text : List UInt8
  deriving Inhabited

/-- `n += snprintf(err + n, errsz - n, …)`, where there is room. -/
def Report.add (report : Report) (message : List UInt8) : Report :=
  if report.errsz ≤ report.n then report
  else
    { report with
      n := report.n + message.length
      text := report.text ++ message.take (report.errsz - report.n - 1).toNat }

/-- A message with a string and a number: `what`, `%s`, `: `, `%d` and the end of the line. -/
def Report.tell (report : Report) (what : String) (text : CStr) (errval : Errno) : Report :=
  report.add ((cstr what).bytes ++ text.bytes ++ (cstr ": ").bytes ++
    (cstr (toString errval.toNat)).bytes ++ (cstr "\n").bytes)

/-- What is reported of a call that names a path. -/
def Report.check {α : Type} (report : Report) (what : String) (path : CStr) :
    Except Errno α → Report
  | .ok _ => report
  | .error errval => report.tell what path errval

/-- The file of a fid that was open is opened again. -/
def reopen (fid : FidPtr) (f : Fid) (omode : UInt16) (report : Report) : Code Report :=
  if omode = Onotopen then
    return report
  else if isType S_IFDIR f.stat.mode then do
    let dir ← data (.opendir f.path)
    setAux fid { f with dir := dir.toOption.map (·.number) }
    return report.check "Can't opendir file " f.path dir
  else do
    let flags := omode2uflags omode.toUInt8 &&& ~~~(O_TRUNC ||| O_EXCL)
    let fd : Except Errno UInt64 ← sys (.open f.path flags 0)
    setAux fid { f with fd := fd.toOption }
    return report.check "Can't open file " f.path fd

/-- A turn of `restore_setup_fids`. -/
def restoreSetupFid (fid : FidPtr) (report : Report) : Code Report :=
  withAux fid fun f => do
    let (err, f) ← fidstat fid f
    let report := report.check "Can't stat file " f.path err
    let omode : UInt16 ← np (.omode fid)
    let report ← reopen fid f omode report
    np (.fidIncref fid)
    return report

/-- `restore_setup_fids`. -/
def restoreSetupFids : List FidPtr → Report → Code Report
  | [], report => return report
  | fid :: fids, report => do
    let report ← restoreSetupFid fid report
    restoreSetupFids fids report

/-- `srv->confine`, with what `pthread_create` and `np_thread_confine` return. -/
structure Confine where
  root : CStr
  started : Except Errno Unit
  rooted : Except Errno Unit

/-- `malloc(nfids * sizeof(Fid *))`.  A negative number asks for too much. -/
def mallocFids (nfids : UInt32) (host : Host) : Option (List UInt8) × Host :=
  if nfids.toNat < 2 ^ 31 then host.exec (.malloc (8 * nfids.toNat)) else (none, host.next.2)

/-- The setup, on a thread of its own if the server is confined, and what `ufs_restore` returns. -/
def restoreSetup (u : Ufssrv) (confine : Option Confine) (fids : List FidPtr) (report : Report)
    (s : State) : Int × Report × State :=
  let setup :=
    let (report, s) := (restoreSetupFids fids report).run (execOp u) s
    (if report.n > 0 then -1 else 0, report, s)
  match confine with
  | none => setup
  | some confine =>
    match confine.started, confine.rooted with
    | .error errval, _ => (-1, report.tell "Can't start the restore thread" (cstr "") errval, s)
    | .ok _, .error errval =>
      (-1, report.add ((cstr "Can't take ").bytes ++ confine.root.bytes ++
        (cstr " as the root: ").bytes ++ (cstr (toString errval.toNat)).bytes ++
          (cstr "\n").bytes), s)
    | .ok _, .ok _ => setup

/-- `ufs_restore`: what it returns, what it writes to `err`, and the state that it leaves. -/
def ufsRestore (u : Ufssrv) (confine : Option Confine) (data : List UInt8) (errsz : Int)
    (s : State) : Int × Report × State :=
  let report : Report := { errsz, n := 0, text := [] }
  let image := (getImage.run GetOp.exec (Cbuf.bufInit data 0 data.length)).1
  let (list, world) := mallocFids image.nfids s.world
  let s := { s with
    conn := { msize := image.msize, dotu := image.dotu ≠ 0, dotl := image.dotl ≠ 0 }
    world
    fault := s.fault || list.isNone && image.nfids ≠ 0 }
  let (fids, s) := restoreFids u data image.fids s
  if image.overflow then
    (-1, report.add (cstr "Unexpected end of restore data\n").bytes, s)
  else if image.extra then
    (-1, report.add (cstr "Extra data at the end of the restore buffer\n").bytes, s)
  else
    restoreSetup u confine fids report s

/-- What is rejected for every outcome of the setup is rejected. -/
theorem Rejects.result {data : List UInt8} (rejects : Rejects data) (u : Ufssrv)
    (confine : Option Confine) (errsz : Int) (s : State) :
    (ufsRestore u confine data errsz s).1 = -1 := by
  have silent := rejects (fun _ => some []) 0
  rw [restoreBuffer] at silent
  rw [ufsRestore]
  generalize (getImage.run GetOp.exec (Cbuf.bufInit data 0 data.length)).1 = image at silent ⊢
  dsimp only at silent ⊢
  cases overflow : image.overflow with
  | true => rw [if_pos rfl]
  | false =>
      cases extra : image.extra with
      | true => rw [if_neg Bool.false_ne_true, if_pos rfl]
      | false =>
          have accepted : image.finish (fun _ => some []) 0 = .restored := by
            rw [Image.finish, overflow, extra, if_neg (by decide)]
            rfl
          rw [accepted] at silent
          split_ifs at silent

/-! ## Reading what was written -/

/-- A fid of one of the kinds of `libufs`: its strings have lengths of 16 bits, a name is not empty,
and exactly the fid of an attribute has a value. -/
structure Storable (type : UInt16) (aux : Fid) : Prop where
  path : aux.path.strlen < 2 ^ 16
  name : ∀ name, aux.xattrname = some name → 0 < name.strlen ∧ name.strlen < 2 ^ 16
  plain : type &&& Ftxattr = 0 → aux.xattrsz = 0 ∧ aux.xattrdata = none
  value : type &&& Ftxattr ≠ 0 →
    ∃ value, aux.xattrdata = some value ∧ aux.xattrsz.toNat ≤ value.length

/-- The fid of a record is. -/
abbrev Record.Storable (r : Record) : Prop := Ufs.Storable r.fid.type r.aux

/-- What is read is what the record has. -/
structure Saved.Gives (data : List UInt8) (saved : Saved) (r : Record) : Prop where
  fid : saved.fid = r.fid.fid
  omode : saved.omode = r.fid.omode
  type : saved.type = r.fid.type
  diroffset : saved.diroffset = r.fid.diroffset
  uid : saved.uid = r.uid
  path : StrAt data saved.path r.aux.path.bytes
  fomode : saved.fomode = r.aux.omode
  xattrname : StrAt data saved.xattrname (CStr.bytes? r.aux.xattrname)
  xattrflags : saved.xattrflags = r.aux.xattrflags
  xattrsz : saved.xattrsz = r.aux.xattrsz
  value : DataAt data saved.value (bytesAt r.aux.xattrdata r.aux.xattrsz.toNat)

section Reading

variable {α : Type} {data bytes : List UInt8} {holds : α → Prop} {r : Record} {rs : List Record}
  {saved : Saved}

theorem reads_overflow {rest : Bool → Get α} (onward : Npfs.Reads data (rest false) bytes holds) :
    Npfs.Reads data (getOverflow >>= rest) bytes holds := by
  rw [getOverflow, bind_assoc]
  have none_asked : (0 : Int) = ([] : List UInt8).length := rfl
  refine reads_alloc none_asked fun ptr found => ?_
  obtain ⟨start, rfl, -⟩ := found
  exact onward

/-- Behind the last byte there is none. -/
theorem reads_extra {rest : Bool → Get α} (onward : Npfs.Reads data (rest false) [] holds) :
    Npfs.Reads data (getExtra >>= rest) [] holds := by
  intro front cursor split mem position window
  have whole : front.length = data.length := by rw [← split, List.append_nil]
  have atEnd : cursor.p = cursor.ep := by omega
  have missing : GetOp.exec (.alloc 1) cursor = (none, cursor) :=
    exec_at_end atEnd (by simp [GetOp.width])
  have same : (getExtra >>= rest).run GetOp.exec cursor = (rest false).run GetOp.exec cursor := by
    change run GetOp.exec (.step (.alloc 1) fun ptr => rest ptr.isSome) cursor = _
    rw [run_step, missing]
    rfl
  rw [same]
  exact onward front cursor split mem position window

/-- The fields behind the number of a fid. -/
theorem reads_saved {rest : Saved → Get α} (storable : r.Storable)
    (small : r.aux.xattrsz.toNat < 2 ^ 31)
    (onward : ∀ saved, saved.Gives data r → Npfs.Reads data (rest saved) bytes holds) :
    Npfs.Reads data (getSaved r.fid.fid >>= rest)
      (packed (r.fields.drop 1) (bytesAt r.aux.xattrdata r.aux.xattrsz.toNat ++ bytes)) holds := by
  have low : cint r.aux.xattrsz.toUInt32 = r.aux.xattrsz.toNat := by
    rw [cint_of_lt (by rw [UInt64.toNat_toUInt32]; omega), UInt64.toNat_toUInt32]
    omega
  have named : (CStr.bytes? r.aux.xattrname).length < 2 ^ 16 := by
    cases known : r.aux.xattrname with
    | none => decide
    | some name => exact (storable.name name known).2
  simp only [getSaved, bind_assoc, Record.fields, List.drop_one, List.tail_cons, packed]
  refine reads_int16 (reads_int16 (reads_int32 (reads_int32 (reads_str storable.path
    fun path pathAt => reads_int32 (reads_str named fun name nameAt => reads_int32 (reads_int64
      (reads_alloc ?_ fun value valueAt => ?_)))))))
  · rw [low, bytesAt_length]
  · exact onward _ ⟨rfl, rfl, rfl, rfl, rfl, pathAt, rfl, nameAt, rfl, rfl, valueAt⟩

/-- The records are read one after another. -/
theorem reads_getFids (rs : List Record) {rest : List Saved → Get α}
    (storable : ∀ r ∈ rs, r.Storable) (small : ∀ r ∈ rs, r.aux.xattrsz.toNat < 2 ^ 31)
    (onward : ∀ saved, List.Forall₂ (Saved.Gives data) saved rs →
      Npfs.Reads data (rest saved) bytes holds) :
    Npfs.Reads data (getFids rs.length >>= rest) (rs.flatMap Record.bytes ++ bytes) holds := by
  induction rs generalizing rest with
  | nil => exact onward [] .nil
  | cons r rs ih =>
      have split : (r :: rs).flatMap Record.bytes ++ bytes =
          bytes32 r.fid.fid ++ packed (r.fields.drop 1)
            (bytesAt r.aux.xattrdata r.aux.xattrsz.toNat ++
              (rs.flatMap Record.bytes ++ bytes)) := by
        rw [packed_tail]
        simp [Record.bytes, Record.fields, packed, PutOp.bytes]
      rw [split, List.length_cons, getFids]
      simp only [bind_assoc]
      refine reads_int32 (reads_overflow ?_)
      simp only [Bool.false_eq_true, if_false, bind_assoc, pure_bind]
      refine reads_saved (storable r (by simp)) (small r (by simp)) fun saved given => ?_
      exact ih (fun other member => storable other (by simp [member]))
        (fun other member => small other (by simp [member]))
        fun fids all => onward (saved :: fids) (.cons given all)

/-- What is read of a connection is what was written. -/
structure Image.Gives (image : Image) (data : List UInt8) (conn : Npconn) (rs : List Record) :
    Prop where
  msize : image.msize = conn.msize
  dotu : image.dotu = flag conn.dotu 1
  dotl : image.dotl = flag conn.dotl 1
  nfids : image.nfids.toNat = rs.length
  fids : List.Forall₂ (Saved.Gives data) image.fids rs
  overflow : image.overflow = false
  extra : image.extra = false

/-- The reader undoes the writer. -/
theorem getImage_gives (conn : Npconn) (storable : ∀ r ∈ rs, r.Storable)
    (small : checkpointSize rs < 2 ^ 31) (written : data = checkpointBytes conn rs) :
    (getImage.run GetOp.exec (Cbuf.bufInit data 0 data.length)).1.Gives data conn rs := by
  have less := length_le_checkpointSize rs
  have few : (UInt32.ofNat rs.length).toNat = rs.length := by
    rw [UInt32.toNat_ofNat']
    omega
  have count : (cint (.ofNat rs.length)).toNat = rs.length := by
    rw [cint_of_lt (by omega), few]
    rfl
  have reads : Npfs.Reads data getImage (checkpointBytes conn rs)
      fun image => image.Gives data conn rs := by
    rw [checkpointBytes, ← packed_tail]
    simp only [getImage, putConn, packed, PutOp.bytes]
    refine reads_int32 (reads_int8 (reads_int8 (reads_int32 ?_)))
    rw [count, ← List.append_nil (rs.flatMap Record.bytes)]
    refine reads_getFids rs storable
      (fun r member => (le_checkpointSize member).trans_lt small) fun saved all => ?_
    refine reads_overflow (reads_extra (reads_done ?_))
    exact ⟨rfl, rfl, rfl, few, all, rfl, rfl⟩
  exact (reads [] (Cbuf.bufInit data 0 data.length) written.symm rfl rfl
    (by simp [Cbuf.bufInit])).1

theorem textAt_of_dataAt {ptr : Option Int} {text : List UInt8} (found : DataAt data ptr text) :
    textAt data ptr text.length = text := by
  obtain ⟨start, rfl, -, taken⟩ := found
  exact taken

theorem inside_of_dataAt {ptr : Option Int} {text : List UInt8} (found : DataAt data ptr text) :
    inside data ptr text.length = true := by
  obtain ⟨start, rfl, bound, -⟩ := found
  have last : (start : Int) + text.length ≤ data.length := by omega
  simp [inside, last]

/-- What is read of a record is copied from the buffer. -/
theorem Saved.Gives.copies (given : saved.Gives data r) : saved.copies data = true := by
  obtain ⟨pathLength, pathAt⟩ := given.path
  obtain ⟨nameLength, nameAt⟩ := given.xattrname
  have value := inside_of_dataAt given.value
  rw [bytesAt_length, ← given.xattrsz] at value
  rw [Saved.copies, pathLength, nameLength, inside_of_dataAt pathAt, inside_of_dataAt nameAt,
    value, Bool.or_true]
  rfl

end Reading

/-! ## The host -/

/-- The attributes of the mapped id model have their sizes where a file has them. -/
structure Sized (xattrs : Xattrs) : Prop where
  uid : ∀ value ∈ xattrs.lookup VIRTFS_UID, value.length = 4
  gid : ∀ value ∈ xattrs.lookup VIRTFS_GID, value.length = 4
  mode : ∀ value ∈ xattrs.lookup VIRTFS_MODE, value.length = 4
  rdev : ∀ value ∈ xattrs.lookup VIRTFS_RDEV, value.length = 8

/-- The files are there, and no call fails. -/
structure Opens (mapped : Bool) (paths : List CStr) (host : Host) : Prop where
  willing : ∀ k, (host.fates k).error = none
  files : ∀ path ∈ paths, ∃ xattrs, host.file path = some xattrs ∧ (mapped = true → Sized xattrs)

section Files

variable {mapped : Bool} {paths : List CStr} {path name : CStr} {host : Host} {u : Ufssrv}
  {s s' : State} {xattrs : Xattrs} {n : ℕ}

theorem Opens.next (opens : Opens mapped paths host) : Opens mapped paths host.next.2 :=
  ⟨fun k => opens.willing (k + 1), opens.files⟩

/-- Only the host has gone on. -/
structure Passed (mapped : Bool) (paths : List CStr) (s s' : State) : Prop where
  opens : Opens mapped paths s'.world
  rest : s' = { s with world := s'.world }
  file : ∀ path, s'.world.file path = s.world.file path

theorem Passed.refl (opens : Opens mapped paths s.world) : Passed mapped paths s s :=
  ⟨opens, rfl, fun _ => rfl⟩

theorem Passed.trans {s'' : State} (first : Passed mapped paths s s')
    (second : Passed mapped paths s' s'') : Passed mapped paths s s'' where
  opens := second.opens
  rest := by rw [second.rest, first.rest]
  file path := (second.file path).trans (first.file path)

theorem passed_next (opens : Opens mapped paths s.world) :
    Passed mapped paths s { s with world := s.world.next.2 } := ⟨opens.next, rfl, fun _ => rfl⟩

theorem ensures_lstat (opens : Opens mapped paths s.world) (member : path ∈ paths) :
    Ensures (execOp u) (fun r s' => (∃ st, r = .ok st) ∧ Passed mapped paths s s')
      (sys (.lstat path)) s := by
  obtain ⟨xattrs, found, -⟩ := opens.files path member
  have there : (s.world.next.2.file path).isNone = false := by
    rw [show s.world.next.2.file path = some xattrs from found]
    rfl
  refine ⟨⟨(s.world.fates 0).stat, ?_⟩, passed_next opens⟩
  change (if (s.world.next.2.file path).isNone then _ else _) = _
  rw [there, if_neg Bool.false_ne_true, Host.answer]
  simp only [opens.willing 0]

/-- An attribute is not there, or has its size. -/
theorem getXattr_cases {fate : Fate} (found : host.file path = some xattrs)
    (willing : fate.error = none) (sized : ∀ value ∈ xattrs.lookup name, value.length = n)
    (positive : 0 < n) (small : n ≤ 8) :
    host.getXattr fate path name n = .error ENODATA ∨
      ∃ value, host.getXattr fate path name n = .ok (n, value) := by
  rw [Host.getXattr, found]
  cases looked : xattrs.lookup name with
  | none =>
      simp only [willing, looked]
      exact .inl rfl
  | some value =>
      obtain rfl : value.length = n := sized value looked
      have below : ¬ value.length > XATTR_MAX := by
        rw [XATTR_MAX]
        omega
      simp only [willing, looked, Option.filter_none, Host.fetch, if_neg below,
        if_neg positive.ne', if_neg (lt_irrefl _)]
      exact .inr ⟨value, rfl⟩

theorem ensures_mappedGet (opens : Opens mapped paths s.world)
    (found : s.world.file path = some xattrs)
    (sized : ∀ value ∈ xattrs.lookup name, value.length = n) (positive : 0 < n) (small : n ≤ 8) :
    Ensures (execOp u) (fun r s' => (∃ v, r = .ok v) ∧ Passed mapped paths s s')
      (mappedGet path name n) s := by
  have there : s.world.next.2.file path = some xattrs := found
  rw [mappedGet]
  have called : Ensures (execOp u) (fun r s' =>
      (r = .error ENODATA ∨ ∃ value, r = .ok (n, value)) ∧ Passed mapped paths s s')
      (sys (.lgetxattr path name n)) s :=
    ⟨getXattr_cases there (opens.willing 0) sized positive small, passed_next opens⟩
  refine called.bind ?_
  rintro r s' ⟨rfl | ⟨value, rfl⟩, passed⟩
  · exact ⟨⟨none, rfl⟩, passed⟩
  · dsimp only
    rw [if_neg (not_not.mpr rfl)]
    exact ⟨⟨_, rfl⟩, passed⟩

theorem ensures_mappedStat (opens : Opens mapped paths s.world)
    (found : s.world.file path = some xattrs) (sized : Sized xattrs) (st : Stat) :
    Ensures (execOp u) (fun r s' => r.1 = .ok () ∧ Passed mapped paths s s')
      (mappedStat path st) s := by
  have stays {s₁ : State} (passed : Passed mapped paths s s₁) :
      s₁.world.file path = some xattrs := (passed.file path).trans found
  rw [mappedStat]
  refine (ensures_mappedGet opens found sized.uid (by decide) (by decide)).bind ?_
  rintro r s₁ ⟨⟨uid, rfl⟩, passed₁⟩
  refine (ensures_mappedGet passed₁.opens (stays passed₁) sized.gid (by decide) (by decide)).bind ?_
  rintro r s₂ ⟨⟨gid, rfl⟩, passed₂⟩
  replace passed₂ := passed₁.trans passed₂
  refine (ensures_mappedGet passed₂.opens (stays passed₂) sized.mode (by decide)
    (by decide)).bind ?_
  rintro r s₃ ⟨⟨mode, rfl⟩, passed₃⟩
  replace passed₃ := passed₂.trans passed₃
  refine (ensures_mappedGet passed₃.opens (stays passed₃) sized.rdev (by decide)
    (by decide)).bind ?_
  rintro r s₄ ⟨⟨rdev, rfl⟩, passed₄⟩
  exact ⟨rfl, passed₃.trans passed₄⟩

/-- `fidstat` of a file that is there. -/
theorem ensures_fidstat {fid : FidPtr} {f : Fid} (opens : Opens f.mapped paths s.world)
    (member : f.path ∈ paths) :
    Ensures (execOp u) (fun r s' => r.1 = .ok () ∧
        ∃ stat hmode s₁, r.2 = { f with stat, hmode } ∧ Passed f.mapped paths s s₁ ∧
          s' = s₁.modify fid fun g => { g with aux := some r.2 })
      (fidstat fid f) s := by
  obtain ⟨xattrs, found, sized⟩ := opens.files f.path member
  rw [fidstat]
  refine (ensures_lstat opens member).bind ?_
  rintro r s₁ ⟨⟨st, rfl⟩, passed₁⟩
  dsimp only
  cases mapped : f.mapped with
  | false =>
      rw [if_neg Bool.false_ne_true, ← mapped]
      exact ⟨rfl, _, _, s₁, rfl, passed₁, rfl⟩
  | true =>
      rw [if_pos rfl, ← mapped]
      refine (ensures_mappedStat passed₁.opens ((passed₁.file _).trans found) (sized mapped)
        st).bind ?_
      rintro ⟨err, st'⟩ s₂ ⟨rfl, passed₂⟩
      exact ⟨rfl, _, _, s₂, rfl, passed₁.trans passed₂, rfl⟩

/-- The flags of an open file do not ask for a new one. -/
theorem reopen_flags (omode : UInt8) :
    (omode2uflags omode &&& ~~~(O_TRUNC ||| O_EXCL)) &&& O_CREAT = 0 := by
  rw [omode2uflags]
  simp only [flag]
  split_ifs <;> decide

theorem ensures_open (opens : Opens mapped paths s.world) (member : path ∈ paths)
    {flags : UInt32} (old : flags &&& O_CREAT = 0) (mode : UInt32) :
    Ensures (execOp u) (fun r s' => (∃ fd, r = .ok fd) ∧ Passed mapped paths s s')
      (sys (.open path flags mode)) s := by
  obtain ⟨xattrs, found, -⟩ := opens.files path member
  have named : (s.world.names path).isNone = false := by
    rw [Host.file] at found
    cases known : s.world.names path with
    | none =>
        rw [known] at found
        cases found
    | some file => rfl
  have answered : s.world.next.2.openFile (s.world.fates 0) path flags =
      (.ok (s.world.fates 0).returned.number, s.world.next.2) := by
    have quiet : ¬ (flags &&& O_CREAT ≠ 0 ∧ flags &&& O_PATH = 0 ∧
        (flags &&& O_EXCL ≠ 0 ∨ (s.world.next.2.names path).isNone)) := fun made => made.1 old
    rw [Host.openFile, if_neg quiet, show (s.world.next.2.names path).isNone = false from named,
      if_neg Bool.false_ne_true, Host.answer]
    simp only [opens.willing 0]
  have holds : (∃ fd, (s.world.next.2.openFile (s.world.fates 0) path flags).1 = .ok fd) ∧
      Passed mapped paths s
        { s with world := (s.world.next.2.openFile (s.world.fates 0) path flags).2 } := by
    rw [answered]
    exact ⟨⟨_, rfl⟩, passed_next opens⟩
  exact holds

/-- `reopen` for a file that is there. -/
theorem ensures_reopen {fid : FidPtr} {f : Fid} (opens : Opens f.mapped paths s.world)
    (member : f.path ∈ paths) (omode : UInt16) (report : Report) :
    Ensures (execOp u) (fun r s' => r = report ∧
        (Passed f.mapped paths s s' ∨
          ∃ fd dir s₁, Passed f.mapped paths s s₁ ∧
            s' = s₁.modify fid fun g => { g with aux := some { f with fd, dir } }))
      (reopen fid f omode report) s := by
  rw [reopen]
  split_ifs with closed directory
  · exact ⟨rfl, .inl (.refl opens)⟩
  · have called : Ensures (execOp u) (fun r s' => (∃ v, r = .ok v) ∧ Passed f.mapped paths s s')
        (data (.opendir f.path)) s := by
      refine ⟨⟨(s.world.fates 0).returned, ?_⟩, passed_next opens⟩
      change Host.answer (s.world.fates 0) _ = _
      rw [Host.answer]
      simp only [opens.willing 0]
    refine called.bind ?_
    rintro r s₁ ⟨⟨v, rfl⟩, passed⟩
    exact ⟨rfl, .inr ⟨f.fd, _, s₁, passed, rfl⟩⟩
  · refine (ensures_open opens member (reopen_flags _) 0).bind ?_
    rintro r s₁ ⟨⟨fd, rfl⟩, passed⟩
    exact ⟨rfl, .inr ⟨_, f.dir, s₁, passed, rfl⟩⟩

end Files

/-! ## Setting up the fids -/

/-- What the `Fid` of a checkpoint has is what the restored one has. -/
structure Fid.Back (mapped : Bool) (saved aux : Fid) : Prop where
  mapped : aux.mapped = mapped
  path : aux.path = saved.path
  omode : aux.omode = saved.omode
  xattrname : aux.xattrname = saved.xattrname
  xattrflags : aux.xattrflags = saved.xattrflags
  xattrsz : aux.xattrsz = saved.xattrsz
  value : aux.xattrdata.map (·.take saved.xattrsz.toNat) =
    saved.xattrdata.map (·.take saved.xattrsz.toNat)

/-- The fid of a record is back, with so many references. -/
structure Record.Back (u : Ufssrv) (refs : Int) (r : Record) (f : Npfid Fid) : Prop where
  fid : f.fid = r.fid.fid
  refcount : f.refcount = refs
  omode : f.omode = r.fid.omode
  type : f.type = r.fid.type
  diroffset : f.diroffset = r.fid.diroffset
  user : f.user = u.uid2user r.uid
  aux : ∃ aux, f.aux = some aux ∧ Fid.Back u.mapped r.aux aux

section Setup

variable {mapped : Bool} {paths : List CStr} {u : Ufssrv} {s s' s'' : State} {p q : FidPtr}
  {f : Npfid Fid} {r : Record} {refs : Int} {report : Report}

/-- All but the host and one fid are as they were. -/
structure Touched (p : FidPtr) (s s' : State) : Prop where
  pool : s'.pool = s.pool
  conn : s'.conn = s.conn
  fault : s'.fault = s.fault
  others : ∀ q, q ≠ p → s'.fids.get q = s.fids.get q

theorem Touched.trans (first : Touched p s s') (second : Touched p s' s'') : Touched p s s'' where
  pool := second.pool.trans first.pool
  conn := second.conn.trans first.conn
  fault := second.fault.trans first.fault
  others q other := (second.others q other).trans (first.others q other)

theorem Passed.touched (passed : Passed mapped paths s s') (p : FidPtr) : Touched p s s' := by
  rw [passed.rest]
  exact ⟨rfl, rfl, rfl, fun _ _ => rfl⟩

theorem Passed.live (passed : Passed mapped paths s s') (live : s.fids.get p = some f) :
    s'.fids.get p = some f := by
  rw [passed.rest]
  exact live

theorem touched_modify (live : s.fids.get p = some f) (change : Npfid Fid → Npfid Fid) :
    Touched p s (s.modify p change) where
  pool := rfl
  conn := rfl
  fault := by rw [Session.modify, live]; exact Bool.or_false _
  others q other := Cells.get_modify_ne other

theorem live_modify (live : s.fids.get p = some f) (change : Npfid Fid → Npfid Fid) :
    (s.modify p change).fids.get p = some (change f) := by
  rw [Session.modify, Cells.get_modify_self, live]
  rfl

theorem ensures_withAux_some {α : Type} [Inhabited α] {rest : Fid → Code α} {aux : Fid}
    {post : α → State → Prop} (found : auxOf s p = some aux)
    (onward : Ensures (execOp u) post (rest aux) s) :
    Ensures (execOp u) post (withAux p rest) s := by
  rw [Ensures, run_withAux found]
  exact onward

theorem ensures_omode (live : s.fids.get p = some f) :
    Ensures (execOp u) (fun omode s' => omode = f.omode ∧ s' = s) (np (.omode p)) s := by
  have loaded : s.load p (·.omode) (0 : UInt16) = (f.omode, s) := by rw [Session.load, live]
  exact ⟨congrArg Prod.fst loaded, congrArg Prod.snd loaded⟩

/-- The files of a fid are found and opened, and the fid gets its reference. -/
theorem ensures_restoreSetupFid (live : s.fids.get p = some f) (back : r.Back u refs f)
    (opens : Opens u.mapped paths s.world) (member : r.aux.path ∈ paths) (report : Report) :
    Ensures (execOp u) (fun report' s' => report' = report ∧ Opens u.mapped paths s'.world ∧
        Touched p s s' ∧ ∃ f', s'.fids.get p = some f' ∧ r.Back u (refs + 1) f')
      (restoreSetupFid p report) s := by
  obtain ⟨aux, known, restored⟩ := back.aux
  have found : auxOf s p = some aux := by
    rw [auxOf, live]
    exact known
  rw [← restored.mapped] at opens
  rw [← restored.path] at member
  rw [restoreSetupFid]
  refine ensures_withAux_some found ((ensures_fidstat opens member).bind ?_)
  rintro ⟨err, aux'⟩ s' ⟨rfl, stat, hmode, s₁, rfl, passed₁, rfl⟩
  dsimp only
  obtain ⟨aux', stated⟩ : ∃ aux', { aux with stat, hmode } = aux' := ⟨_, rfl⟩
  have restored' : Fid.Back u.mapped r.aux aux' := by
    rw [← stated]
    exact ⟨restored.mapped, restored.path, restored.omode, restored.xattrname,
      restored.xattrflags, restored.xattrsz, restored.value⟩
  rw [stated]
  have live₁ := passed₁.live live
  have live₂ := live_modify live₁ fun g => { g with aux := some aux' }
  have touched₂ := (passed₁.touched p).trans
    (touched_modify live₁ fun g => { g with aux := some aux' })
  have opens₂ : Opens aux.mapped paths (s₁.modify p fun g => { g with aux := some aux' }).world :=
    passed₁.opens
  generalize s₁.modify p (fun g => { g with aux := some aux' }) = s₂' at live₂ touched₂ opens₂ ⊢
  refine (ensures_omode live₂).bind ?_
  rintro omode s₂ ⟨rfl, rfl⟩
  rw [restored.mapped, ← restored'.mapped] at opens₂
  rw [restored.path, ← restored'.path] at member
  refine (ensures_reopen opens₂ member _ _).bind ?_
  rintro report' s₃ ⟨rfl, reopened⟩
  have again : ∃ aux'', s₃.fids.get p = some { f with aux := some aux'' } ∧
      Fid.Back u.mapped r.aux aux'' ∧ Touched p s₂ s₃ ∧ Opens u.mapped paths s₃.world := by
    rw [restored'.mapped] at reopened
    rcases reopened with passed | ⟨fd, dir, s₂', passed, rfl⟩
    · exact ⟨aux', passed.live live₂, restored', passed.touched p, passed.opens⟩
    · exact ⟨_, live_modify (passed.live live₂) _,
        ⟨rfl, restored'.path, restored'.omode, restored'.xattrname, restored'.xattrflags,
          restored'.xattrsz, restored'.value⟩,
        (passed.touched p).trans (touched_modify (passed.live live₂) _), passed.opens⟩
  obtain ⟨aux'', live₃, restored'', touched₃, opens₃⟩ := again
  refine ⟨rfl, opens₃, (touched₂.trans touched₃).trans (touched_modify live₃ (.addRef 1)), _,
    live_modify live₃ (.addRef 1), ?_⟩
  exact ⟨back.fid, congrArg (· + 1) back.refcount, back.omode, back.type, back.diroffset,
    back.user, aux'', rfl, restored''⟩

/-- So it is for all the fids. -/
theorem ensures_restoreSetupFids {rs : List Record} {fids : List FidPtr} (nodup : fids.Nodup)
    (backs : List.Forall₂ (fun p r => ∃ f, s.fids.get p = some f ∧ r.Back u refs f) fids rs)
    (opens : Opens u.mapped paths s.world) (members : ∀ r ∈ rs, r.aux.path ∈ paths)
    (report : Report) :
    Ensures (execOp u) (fun report' s' => report' = report ∧ s'.pool = s.pool ∧
        s'.conn = s.conn ∧ s'.fault = s.fault ∧ (∀ q ∉ fids, s'.fids.get q = s.fids.get q) ∧
        List.Forall₂ (fun p r => ∃ f, s'.fids.get p = some f ∧ r.Back u (refs + 1) f) fids rs)
      (restoreSetupFids fids report) s := by
  induction fids generalizing s rs report with
  | nil =>
      cases backs
      exact ⟨rfl, rfl, rfl, rfl, fun _ _ => rfl, .nil⟩
  | cons p fids ih =>
      obtain ⟨fresh, nodup⟩ := List.nodup_cons.mp nodup
      obtain ⟨r, rs, ⟨f, live, back⟩, rest, rfl⟩ := List.forall₂_cons_left_iff.mp backs
      rw [restoreSetupFids]
      refine (ensures_restoreSetupFid live back opens (members r (by simp)) report).bind ?_
      rintro report' s' ⟨rfl, opens', touched, f', live', back'⟩
      have untouched : List.Forall₂ (fun p r => ∃ f, s'.fids.get p = some f ∧ r.Back u refs f)
          fids rs := by
        obtain ⟨length, each⟩ := List.forall₂_iff_zip.mp rest
        refine List.forall₂_iff_zip.mpr ⟨length, fun {q r'} member => ?_⟩
        obtain ⟨f', live', back'⟩ := each member
        have other : q ≠ p := by
          rintro rfl
          exact fresh (List.of_mem_zip member).1
        exact ⟨f', (touched.others q other).trans live', back'⟩
      refine (ih nodup untouched opens' (fun r member => members r (by simp [member])) _).mono ?_
      rintro report'' s'' ⟨rfl, pool, conn, fault, others, backs'⟩
      refine ⟨rfl, pool.trans touched.pool, conn.trans touched.conn, fault.trans touched.fault,
        fun q other => ?_, .cons ⟨f', (others p fresh).trans live', back'⟩ backs'⟩
      rw [List.mem_cons, not_or] at other
      exact (others q other.2).trans (touched.others q other.1)

end Setup

/-! ## Making the fids -/

section Making

variable {mapped : Bool} {paths : List CStr} {u : Ufssrv} {data : List UInt8} {s s' : State}
  {saved : Saved} {r : Record} {size : ℕ}

theorem malloc_willing (opens : Opens mapped paths s.world) (small : size ≤ Host.PTRDIFF_MAX) :
    ∃ memory, s.world.exec (.malloc size) = (some memory, s.world.next.2) := by
  refine ⟨(List.range size).map fun k => (s.world.fates 0).returned.bytes.getD k 0, ?_⟩
  have bound : ¬ ((s.world.fates 0).error.isSome ∨ Host.PTRDIFF_MAX < size) := by
    rw [opens.willing 0]
    simp [small]
  change ((if (s.world.fates 0).error.isSome ∨ Host.PTRDIFF_MAX < size then none else some _),
    s.world.next.2) = _
  rw [if_neg bound]

theorem bytesAt_some {value : List UInt8} (enough : size ≤ value.length) :
    bytesAt (some value) size = value.take size := by
  refine List.ext_getElem ?_ fun k inside _ => ?_
  · rw [bytesAt_length, List.length_take]
    omega
  · have here : k < value.length := by
      rw [bytesAt_length] at inside
      omega
    simp [bytesAt, List.getD_eq_getElem?_getD, List.getElem?_eq_getElem here]

/-- The value of an attribute is back. -/
theorem restoreValue_back (given : saved.Gives data r) (storable : r.Storable)
    (small : r.aux.xattrsz.toNat < 2 ^ 31) (opens : Opens mapped paths s.world) :
    ∃ value s', restoreValue data saved s = (value, s') ∧ Passed mapped paths s s' ∧
      value.map (·.take r.aux.xattrsz.toNat) =
        r.aux.xattrdata.map (·.take r.aux.xattrsz.toNat) := by
  rw [restoreValue, given.type, given.xattrsz]
  split_ifs with plain
  · rw [(storable.plain plain).2]
    exact ⟨none, s, rfl, .refl opens, rfl⟩
  · obtain ⟨value, known, enough⟩ := storable.value plain
    rw [known]
    have stored := given.value
    rw [known, bytesAt_some enough] at stored
    have pointer : saved.value.isNone = false := by
      obtain ⟨start, is, -⟩ := stored
      rw [is]
      rfl
    have copied := textAt_of_dataAt stored
    rw [List.length_take, Nat.min_eq_left enough] at copied
    by_cases empty : r.aux.xattrsz.toNat = 0
    · obtain ⟨memory, allocated⟩ := malloc_willing opens (show 1 ≤ Host.PTRDIFF_MAX by decide)
      refine ⟨some memory, { s with world := s.world.next.2 }, ?_, passed_next opens, ?_⟩
      · dsimp only
        rw [if_pos empty, allocated, if_pos (.inl empty)]
      · rw [empty]
        rfl
    · have bound : r.aux.xattrsz.toNat ≤ Host.PTRDIFF_MAX := by
        rw [Host.PTRDIFF_MAX]
        omega
      obtain ⟨memory, allocated⟩ := malloc_willing opens bound
      have copies : ¬ (r.aux.xattrsz.toNat = 0 ∨ saved.value.isNone = true) := by
        simp [empty, pointer]
      refine ⟨some (value.take r.aux.xattrsz.toNat), { s with world := s.world.next.2 }, ?_,
        passed_next opens, ?_⟩
      · dsimp only
        rw [if_neg empty, allocated, if_neg copies, copied, Option.isNone_some, Bool.or_false]
        rfl
      · rw [Option.map_some, Option.map_some, List.take_take, Nat.min_self]

/-- The `Fid` of a record is back. -/
theorem restoredAux {value : Option (List UInt8)} (given : saved.Gives data r)
    (storable : r.Storable) (values : value.map (·.take r.aux.xattrsz.toNat) =
      r.aux.xattrdata.map (·.take r.aux.xattrsz.toNat)) :
    Fid.Back u.mapped r.aux (saved.aux u data value) := by
  obtain ⟨pathLength, pathAt⟩ := given.path
  obtain ⟨nameLength, nameAt⟩ := given.xattrname
  have path : npStrdup (textAt data saved.path.str saved.path.len.toNat) = r.aux.path := by
    rw [pathLength, textAt_of_dataAt pathAt, npStrdup_bytes]
  have name : (saved.aux u data value).xattrname = r.aux.xattrname := by
    rw [Saved.aux]
    dsimp only
    cases known : r.aux.xattrname with
    | none =>
        rw [known] at nameLength
        have empty : saved.xattrname.len = 0 := UInt16.toNat_inj.mp nameLength
        rw [if_pos empty]
    | some name =>
        rw [known] at nameLength nameAt
        have some_byte : 0 < name.bytes.length := (storable.name name known).1
        have counted : saved.xattrname.len ≠ 0 := by
          intro zero
          rw [zero] at nameLength
          exact some_byte.ne nameLength
        rw [if_neg counted, nameLength, textAt_of_dataAt nameAt]
        exact congrArg some (npStrdup_bytes name)
  exact ⟨rfl, path, given.fomode, name, given.xattrflags, given.xattrsz, values⟩

/-- A record is back in the pool. -/
theorem restoreFid_back (given : saved.Gives data r) (storable : r.Storable)
    (small : r.aux.xattrsz.toNat < 2 ^ 31) (opens : Opens mapped paths s.world)
    (absent : s.pool r.fid.fid = none) :
    ∃ s', restoreFid u data saved s = (s.fids.next, s') ∧ Opens mapped paths s'.world ∧
      s'.conn = s.conn ∧ s'.fault = s.fault ∧ s'.fids.next = s.fids.next + 1 ∧
      s'.pool = Function.update s.pool r.fid.fid (some s.fids.next) ∧
      (∀ q, q ≠ s.fids.next → s'.fids.get q = s.fids.get q) ∧
      ∃ f, s'.fids.get s.fids.next = some f ∧ r.Back u 0 f := by
  obtain ⟨value, s₁, restored, passed, values⟩ := restoreValue_back given storable small opens
  have opens₁ := passed.opens
  obtain ⟨world, rfl⟩ : ∃ world, s₁ = { s with world } := ⟨s₁.world, passed.rest⟩
  obtain ⟨f, made⟩ : ∃ f, { (Npfid.new r.fid.fid : Npfid Fid) with
    aux := some (saved.aux u data value) } = f := ⟨_, rfl⟩
  obtain ⟨s₂, grown⟩ : ∃ s₂, { s with
    world
    fids := s.fids.push f
    pool := Function.update s.pool r.fid.fid (some s.fids.next) } = s₂ := ⟨_, rfl⟩
  have created : npFidCreateWith saved.fid (saved.aux u data value) { s with world } =
      (s.fids.next, s₂) := by
    rw [npFidCreateWith, given.fid, ← grown, ← made]
    simp only [absent]
  have run : restoreFid u data saved s = (s.fids.next, s₂.modify s.fids.next (saved.fill u)) := by
    rw [restoreFid, restored]
    dsimp only
    rw [created, given.copies]
    dsimp only
    rw [Bool.not_true, Bool.or_false]
  have live : s₂.fids.get s.fids.next = some f := by
    rw [← grown]
    exact Cells.get_push_next
  have touched := touched_modify live (saved.fill u)
  refine ⟨_, run, ?_, touched.conn.trans ?_, touched.fault.trans ?_, ?_, touched.pool.trans ?_,
    fun q other => (touched.others q other).trans ?_, _, live_modify live _, ?_⟩
  · rw [← grown]
    exact opens₁
  · rw [← grown]
  · rw [← grown]
  · rw [← grown, Session.modify, Cells.next_modify, Cells.next_push]
  · rw [← grown]
  · rw [← grown, Cells.get_push, if_neg other]
  · rw [← made]
    exact ⟨rfl, rfl, given.omode, given.type, given.diroffset, congrArg u.uid2user given.uid, _,
      rfl, restoredAux given storable values⟩

/-- The records are back in a pool that has none of them. -/
theorem restoreFids_back {saves : List Saved} {rs : List Record}
    (given : List.Forall₂ (Saved.Gives data) saves rs) (storable : ∀ r ∈ rs, r.Storable)
    (small : ∀ r ∈ rs, r.aux.xattrsz.toNat < 2 ^ 31) (opens : Opens mapped paths s.world)
    (nodup : (rs.map (·.fid.fid)).Nodup) (absent : ∀ r ∈ rs, s.pool r.fid.fid = none) :
    ∃ fids s', restoreFids u data saves s = (fids, s') ∧ Opens mapped paths s'.world ∧
      s'.conn = s.conn ∧ s'.fault = s.fault ∧
      (∀ n, n ∉ rs.map (·.fid.fid) → s'.pool n = s.pool n) ∧
      (∀ p ∈ fids, s.fids.next ≤ p) ∧ fids.Nodup ∧
      (∀ q < s.fids.next, s'.fids.get q = s.fids.get q) ∧
      List.Forall₂ (fun p r => s'.pool r.fid.fid = some p ∧
        ∃ f, s'.fids.get p = some f ∧ r.Back u 0 f) fids rs := by
  induction given generalizing s with
  | nil =>
      exact ⟨[], s, rfl, opens, rfl, rfl, fun _ _ => rfl, by simp, List.nodup_nil,
        fun _ _ => rfl, .nil⟩
  | @cons saved r saves rs first given ih =>
      obtain ⟨fresh, nodup⟩ := List.nodup_cons.mp nodup
      obtain ⟨s₁, run, opens₁, conn, fault, next, pool, others, f, live, back⟩ :=
        restoreFid_back (u := u) first (storable r (by simp)) (small r (by simp)) opens
          (absent r (by simp))
      have still : ∀ r' ∈ rs, s₁.pool r'.fid.fid = none := by
        intro r' member
        have other : r'.fid.fid ≠ r.fid.fid := by
          intro same
          exact fresh (List.mem_map.mpr ⟨r', member, same⟩)
        rw [pool, Function.update_of_ne other]
        exact absent r' (by simp [member])
      obtain ⟨fids, s', rest, opens', conn', fault', pools, above, distinct, below, backs⟩ :=
        ih (fun r member => storable r (by simp [member]))
          (fun r member => small r (by simp [member])) opens₁ nodup still
      refine ⟨s.fids.next :: fids, s', ?_, opens', conn'.trans conn, fault'.trans fault, ?_, ?_, ?_,
        ?_, .cons ⟨?_, f, ?_, back⟩ backs⟩
      · rw [restoreFids, run]
        dsimp only
        rw [rest]
      · intro n outside
        rw [List.map_cons, List.mem_cons, not_or] at outside
        rw [pools n outside.2, pool, Function.update_of_ne outside.1]
      · intro p member
        rcases List.mem_cons.mp member with rfl | member
        · exact le_rfl
        · have := above p member
          omega
      · refine List.nodup_cons.mpr ⟨fun member => ?_, distinct⟩
        have := above _ member
        omega
      · intro q early
        rw [below q (by omega), others q (by omega)]
      · rw [pools _ fresh, pool, Function.update_self]
      · rw [below _ (by omega)]
        exact live

end Making

/-! ## The round trip -/

/-- The user pool finds a user by the number that it has given to one. -/
def Ufssrv.Knows (u : Ufssrv) : Prop :=
  ∀ user, ∃ user', u.uid2user (u.uid user) = some user' ∧ u.uid user' = u.uid user

/-- The thread of a confined server can be had and takes its root. -/
def Enters (confine : Option Confine) : Prop :=
  ∀ c ∈ confine, c.started = .ok () ∧ c.rooted = .ok ()

/-- What is known of a fid is the same. -/
structure SameFid (u : Ufssrv) (f f' : Npfid Fid) : Prop where
  fid : f'.fid = f.fid
  omode : f'.omode = f.omode
  type : f'.type = f.type
  diroffset : f'.diroffset = f.diroffset
  user : f'.user.map u.uid = f.user.map u.uid
  aux : ∃ aux aux', f.aux = some aux ∧ f'.aux = some aux' ∧ Fid.Back u.mapped aux aux'

section RoundTrip

variable {u : Ufssrv} {s s₀ : State} {fids : List FidPtr} {rs : List Record} {paths : List CStr}
  {confine : Option Confine} {p : FidPtr} {r : Record}

theorem record_some (given : s.fids.get p >>= record u = some r) :
    ∃ f aux user, s.fids.get p = some f ∧ f.aux = some aux ∧ f.user = some user ∧
      r = ⟨f, u.uid user, aux⟩ := by
  obtain ⟨f, live, given⟩ := Option.bind_eq_some_iff.mp given
  obtain ⟨aux, known, given⟩ := Option.bind_eq_some_iff.mp given
  obtain ⟨user, owned, given⟩ := Option.bind_eq_some_iff.mp given
  exact ⟨f, aux, user, live, known, owned, (Option.some.inj given).symm⟩

theorem records_forall₂ (known : records u fids s = some rs) :
    List.Forall₂ (fun p r => s.fids.get p >>= record u = some r) fids rs := by
  induction fids generalizing rs with
  | nil =>
      obtain rfl : [] = rs := Option.some.inj known
      exact .nil
  | cons p fids ih =>
      rw [records_cons] at known
      obtain ⟨r, read, known⟩ := Option.bind_eq_some_iff.mp known
      obtain ⟨rest, others, same⟩ := Option.bind_eq_some_iff.mp known
      obtain rfl := Option.some.inj same
      exact .cons read (ih others)

theorem exists_left {α β : Type} {R : α → β → Prop} {as : List α} {bs : List β} {b : β}
    (related : List.Forall₂ R as bs) (member : b ∈ bs) : ∃ a ∈ as, R a b := by
  induction related with
  | nil => cases member
  | @cons a b' as bs first rest ih =>
      rcases List.mem_cons.mp member with rfl | later
      · exact ⟨a, by simp, first⟩
      · obtain ⟨a', inside, holds⟩ := ih later
        exact ⟨a', by simp [inside], holds⟩

/-- The records of different fids of a pool have different numbers. -/
theorem numbers_nodup (nodup : fids.Nodup)
    (pooled : List.Forall₂ (fun p r => s.pool r.fid.fid = some p) fids rs) :
    (rs.map (·.fid.fid)).Nodup := by
  induction pooled with
  | nil => exact List.nodup_nil
  | @cons p r fids rs here pooled ih =>
      obtain ⟨fresh, nodup⟩ := List.nodup_cons.mp nodup
      refine List.nodup_cons.mpr ⟨fun member => ?_, ih nodup⟩
      obtain ⟨r', member, same⟩ := List.mem_map.mp member
      obtain ⟨p', inside, there⟩ := exists_left pooled member
      rw [same, here] at there
      obtain rfl := Option.some.inj there
      exact fresh inside

/-- What was written is restored into a connection without fids. -/
theorem ufsRestore_written (storable : ∀ r ∈ rs, r.Storable) (small : checkpointSize rs < 2 ^ 31)
    (nodup : (rs.map (·.fid.fid)).Nodup) (members : ∀ r ∈ rs, r.aux.path ∈ paths)
    (enters : Enters confine) (empty : ∀ n, s₀.pool n = none)
    (opens : Opens u.mapped paths s₀.world) (conn : Npconn) (errsz : Int) :
    ∃ fids report s', ufsRestore u confine (checkpointBytes conn rs) errsz s₀ = (0, report, s') ∧
      s'.conn = conn ∧ s'.fault = s₀.fault ∧
      (∀ n, n ∉ rs.map (·.fid.fid) → s'.pool n = none) ∧
      List.Forall₂ (fun p r => s'.pool r.fid.fid = some p ∧
        ∃ f, s'.fids.get p = some f ∧ r.Back u 1 f) fids rs := by
  obtain ⟨data, written⟩ : ∃ data, checkpointBytes conn rs = data := ⟨_, rfl⟩
  have image := getImage_gives conn storable small written.symm
  rw [written]
  obtain ⟨read, readEq⟩ :
      ∃ read, (getImage.run GetOp.exec (Cbuf.bufInit data 0 data.length)).1 = read := ⟨_, rfl⟩
  rw [readEq] at image
  have less := length_le_checkpointSize rs
  have count := image.nfids
  have bound : 8 * read.nfids.toNat ≤ Host.PTRDIFF_MAX := by
    rw [Host.PTRDIFF_MAX]
    omega
  obtain ⟨memory, allocated⟩ := malloc_willing opens bound
  have listed : mallocFids read.nfids s₀.world = (some memory, s₀.world.next.2) := by
    rw [mallocFids, if_pos (by omega), allocated]
  have settings : ({ msize := read.msize, dotu := read.dotu ≠ 0, dotl := read.dotl ≠ 0 } :
      Npconn) = conn := by
    rw [image.msize, image.dotu, image.dotl]
    obtain ⟨msize, dotu, dotl⟩ := conn
    cases dotu <;> cases dotl <;> rfl
  obtain ⟨s₁, started⟩ : ∃ s₁, { s₀ with conn := conn, world := s₀.world.next.2 } = s₁ :=
    ⟨_, rfl⟩
  have opens₁ : Opens u.mapped paths s₁.world := by
    rw [← started]
    exact opens.next
  have empty₁ : ∀ n, s₁.pool n = none := by
    rw [← started]
    exact empty
  obtain ⟨fids, s₂, made, opens₂, conn₂, fault₂, pools, -, distinct, -, backs⟩ :=
    restoreFids_back (u := u) image.fids storable
      (fun r member => (le_checkpointSize member).trans_lt small) opens₁ nodup fun r _ => empty₁ _
  have ready : List.Forall₂ (fun p r => ∃ f, s₂.fids.get p = some f ∧ r.Back u 0 f) fids rs :=
    backs.imp fun _ _ both => both.2
  obtain ⟨silent, pool₃, conn₃, fault₃, -, backs₃⟩ := ensures_restoreSetupFids distinct ready opens₂
    members { errsz, n := 0, text := [] }
  obtain ⟨s₃, setupEq⟩ : ∃ s₃, ((restoreSetupFids fids { errsz, n := 0, text := [] }).run
    (execOp u) s₂).2 = s₃ := ⟨_, rfl⟩
  have setup : restoreSetup u confine fids { errsz, n := 0, text := [] } s₂ =
      (0, { errsz, n := 0, text := [] }, s₃) := by
    have ran : (restoreSetupFids fids { errsz, n := 0, text := [] }).run (execOp u) s₂ =
        ({ errsz, n := 0, text := [] }, s₃) := Prod.ext silent setupEq
    cases confine with
    | none =>
        rw [restoreSetup, ran]
        rfl
    | some c =>
        obtain ⟨thread, root⟩ := enters c rfl
        simp only [restoreSetup, ran, thread, root]
        rfl
  refine ⟨fids, { errsz, n := 0, text := [] }, s₃, ?_, ?_, ?_, ?_, ?_⟩
  · rw [ufsRestore]
    dsimp only
    rw [readEq, listed]
    dsimp only
    rw [settings, Option.isNone_some, Bool.false_and, Bool.or_false, started, made]
    dsimp only
    rw [image.overflow, image.extra, if_neg Bool.false_ne_true, if_neg Bool.false_ne_true, setup]
  · rw [← setupEq, conn₃, conn₂, ← started]
  · rw [← setupEq, fault₃, fault₂, ← started]
  · intro n outside
    rw [← setupEq, pool₃, pools n outside, empty₁]
  · rw [setupEq] at pool₃ backs₃
    obtain ⟨length, each⟩ := List.forall₂_iff_zip.mp backs
    refine List.forall₂_iff_zip.mpr ⟨length, fun {p r} member => ?_⟩
    rw [pool₃]
    exact ⟨(each member).1, (List.forall₂_iff_zip.mp backs₃).2 member⟩

/-- The record of a fid of a connection. -/
def RecordOf (u : Ufssrv) (s : State) (p : FidPtr) (r : Record) : Prop :=
  ∃ f aux user, s.pool f.fid = some p ∧ s.fids.get p = some f ∧ f.aux = some aux ∧
    f.user = some user ∧ r = ⟨f.addRef 1, u.uid user, aux⟩

theorem recordOf_of_known {s₁ : State} (sound : Sound s) (lists : Lists s fids)
    (taken : Counted 1 fids { s with world := s.world.next.2 } s₁)
    (known : records u fids s₁ = some rs) : List.Forall₂ (RecordOf u s) fids rs := by
  obtain ⟨length, each⟩ := List.forall₂_iff_zip.mp (records_forall₂ known)
  refine List.forall₂_iff_zip.mpr ⟨length, fun {p r} member => ?_⟩
  have inside := (List.of_mem_zip member).1
  obtain ⟨n, entry⟩ := (lists.mem p).mp inside
  obtain ⟨f, live, number, -⟩ := sound.fids n p entry
  obtain ⟨f₁, aux, user, live₁, aux₁, user₁, rfl⟩ := record_some (each member)
  have counted : s₁.fids.get p = some (f.addRef 1) := by
    rw [taken.fids, if_pos inside]
    exact congrArg (Option.map _) live
  rw [counted] at live₁
  obtain rfl := Option.some.inj live₁
  exact ⟨f, aux, user, by rw [number]; exact entry, live, aux₁, user₁, rfl⟩

/-- A restored fid is the one of the record. -/
theorem sameFid_of_back {f f' : Npfid Fid} {aux : Fid} {user : UserPtr} (knows : u.Knows)
    (known : f.aux = some aux) (owned : f.user = some user)
    (back : Record.Back u 1 ⟨f.addRef 1, u.uid user, aux⟩ f') : SameFid u f f' := by
  obtain ⟨user', found, same⟩ := knows user
  obtain ⟨aux', known', restored⟩ := back.aux
  refine ⟨back.fid, back.omode, back.type, back.diroffset, ?_, aux, aux', known, known', restored⟩
  rw [back.user, found, owned, Option.map_some, Option.map_some, same]

/-- What `ufs_checkpoint` writes `ufs_restore` reads back: the same fids, with a reference each. -/
theorem ufsCheckpoint_restored (sound : Sound s) (lists : Lists s fids) (supplied : Supplied s)
    (small : ∀ rs, records u fids s = some rs → checkpointSize rs < 2 ^ 31)
    (kinds : ∀ n p f aux, s.pool n = some p → s.fids.get p = some f → f.aux = some aux →
      Storable f.type aux ∧ aux.path ∈ paths)
    (knows : u.Knows) (enters : Enters confine) (empty : ∀ n, s₀.pool n = none)
    (opens : Opens u.mapped paths s₀.world) (errsz : Int) :
    ∃ b report s', (ufsCheckpoint u fids s).1 = some b ∧
      ufsRestore u confine b errsz s₀ = (0, report, s') ∧
      s'.conn = s.conn ∧ s'.fault = s₀.fault ∧ (∀ n, s.pool n = none → s'.pool n = none) ∧
      ∀ n p f, s.pool n = some p → s.fids.get p = some f →
        ∃ p' f', s'.pool n = some p' ∧ s'.fids.get p' = some f' ∧ f'.refcount = 1 ∧
          SameFid u f f' := by
  obtain ⟨s₁, rs, taken, known, bound, made⟩ := ufsCheckpoint_eq sound lists supplied small
  have given := recordOf_of_known sound lists taken known
  have nodup : (rs.map (·.fid.fid)).Nodup := by
    refine numbers_nodup (s := s) lists.nodup (given.imp ?_)
    rintro p r ⟨f, aux, user, entry, -, -, -, rfl⟩
    exact entry
  have stored : ∀ r ∈ rs, r.Storable ∧ r.aux.path ∈ paths := by
    intro r member
    obtain ⟨p, -, f, aux, user, entry, live, aux', -, rfl⟩ := exists_left given member
    exact kinds f.fid p f aux entry live aux'
  obtain ⟨fids', report, s', run, conn, fault, pools, backs⟩ := ufsRestore_written
    (fun r member => (stored r member).1) bound nodup (fun r member => (stored r member).2) enters
      empty opens s₁.conn errsz
  refine ⟨checkpointBytes s₁.conn rs, report, s', by rw [made], run, conn.trans taken.conn, fault,
    fun n absent => pools n fun member => ?_, fun n p f entry live => ?_⟩
  · obtain ⟨r, inside, number⟩ := List.mem_map.mp member
    obtain ⟨p, -, f, aux, user, entry, -, -, -, rfl⟩ := exists_left given inside
    rw [show f.fid = n from number, absent] at entry
    cases entry
  · obtain ⟨r, member, f₁, aux, user, entry₁, live₁, known₁, owned, rfl⟩ :=
      exists_left given.flip ((lists.mem p).mpr ⟨n, entry⟩)
    rw [live] at live₁
    obtain rfl := Option.some.inj live₁
    obtain ⟨f₂, live₂, number, -⟩ := sound.fids n p entry
    rw [live] at live₂
    obtain rfl := Option.some.inj live₂
    obtain ⟨p', -, pooled, f', live', back⟩ := exists_left backs member
    exact ⟨p', f', number ▸ pooled, live', back.refcount, sameFid_of_back knows known₁ owned back⟩

/-- The client has attached and writes the value of an attribute. -/
def State.writing : State :=
  ((State.start 8192 hostSingle).after attaching).after
    { describing 5 with pkt := (cstr "user.x").bytes, name := ⟨6, some 0⟩ }

theorem sound_writing : Sound .writing := by
  have reached : State.Reached .single id 8192 hostSingle .writing :=
    .step (.step .start trivial rfl) trivial rfl
  exact State.Reached.sound reached

/-- The fid of an attribute that is written is restored. -/
theorem ufsCheckpoint_restored_writing : ∃ b report s',
    (ufsCheckpoint .single [0] .writing).1 = some b ∧
      ufsRestore .single none b 100 (.start 8192 hostSingle) = (0, report, s') ∧
      s'.conn = State.writing.conn ∧ s'.fault = (State.start 8192 hostSingle).fault ∧
      (∀ n, State.writing.pool n = none → s'.pool n = none) ∧
      ∀ n p f, State.writing.pool n = some p → State.writing.fids.get p = some f →
        ∃ p' f', s'.pool n = some p' ∧ s'.fids.get p' = some f' ∧ f'.refcount = 1 ∧
          SameFid .single f f' := by
  have lists : Lists .writing [0] := lists_single rfl
  have opens : Opens Ufssrv.single.mapped [cstr "/"] (State.start 8192 hostSingle).world :=
    ⟨fun _ => rfl, fun _ _ => ⟨∅, rfl, fun mapped => by cases mapped⟩⟩
  have knows : Ufssrv.single.Knows := fun _ => ⟨0, rfl, rfl⟩
  refine ufsCheckpoint_restored sound_writing lists ⟨rfl, rfl⟩ ?_ ?_ knows (fun _ none' => by
    cases none') (fun _ => rfl) opens 100
  · intro rs known
    have sizes : (records .single [0] .writing).map checkpointSize = some 58 := by rfl
    rw [known] at sizes
    have size : checkpointSize rs = 58 := Option.some.inj sizes
    omega
  · obtain ⟨f₀, aux₀, value, live₀, known₀, path, name, marked, data, length, size⟩ :
        ∃ f aux value, State.writing.fids.get 0 = some f ∧ f.aux = some aux ∧
          aux.path = cstr "/" ∧ aux.xattrname = some (cstr "user.x") ∧
            f.type &&& Ftxattr ≠ 0 ∧ aux.xattrdata = some value ∧ value.length = 5 ∧
              aux.xattrsz.toNat = 5 :=
      ⟨_, _, _, rfl, rfl, rfl, rfl, by decide, rfl, rfl, rfl⟩
    intro n p f aux entry live known
    obtain rfl : p = 0 := List.mem_singleton.mp ((lists.mem p).mpr ⟨n, entry⟩)
    rw [live₀] at live
    obtain rfl := Option.some.inj live
    rw [known₀] at known
    obtain rfl := Option.some.inj known
    refine ⟨⟨?_, ?_, fun plain => absurd plain marked, fun _ => ⟨value, data, ?_⟩⟩, ?_⟩
    · rw [path]
      decide
    · intro name' is
      rw [name] at is
      obtain rfl := Option.some.inj is
      decide
    · omega
    · rw [path]
      exact List.mem_singleton_self _

end RoundTrip

end Ufs

end Npfs
