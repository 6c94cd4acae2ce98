import Npfs.Complete
import Npfs.MappedIsolation
import Npfs.ReadBack

/-!
# Checkpoints

`ufs_checkpoint` of `libufs/ufs.c`, which writes the fids of a connection into a buffer. It takes a
reference to each fid of the pool, and gives all of them up again.
-/

namespace Npfs

namespace Ufs

open LittleEndian Program Serve

/-! ## The buffer -/

/-- What a checkpoint says of a fid. -/
structure Record where
  fid : Npfid Fid
  uid : UInt32
  aux : Fid

/-- The two assertions of `ufs_checkpoint`: a fid has its state and its user. -/
def record (u : Ufssrv) (fid : Npfid Fid) : Option Record := do
  let aux ← fid.aux
  let user ← fid.user
  return ⟨fid, u.uid user, aux⟩

/-- `fidsz`, with the path, the name and the value of the attribute. -/
def Record.size (r : Record) : Nat :=
  36 + r.aux.path.strlen + strlen? r.aux.xattrname + r.aux.xattrsz.toNat

/-- The number of bytes that the checkpoint takes. -/
def checkpointSize (rs : List Record) : Nat := 10 + (rs.map Record.size).sum

/-- The bytes that a `memmove` reads. -/
def bytesAt (data : Option (List UInt8)) (n : Nat) : List UInt8 :=
  (List.range n).map fun k => (data.getD []).getD k 0

/-- The fields of a record in front of the value of its attribute. -/
def Record.fields (r : Record) : List PutOp :=
  [.int32 r.fid.fid null, .int16 r.fid.omode null, .int16 r.fid.type null,
    .int32 r.fid.diroffset null, .int32 r.uid null, .str (some r.aux.path) null,
    .int32 r.aux.omode null, .str r.aux.xattrname null, .int32 r.aux.xattrflags null,
    .int64 r.aux.xattrsz null]

/-- The value of the attribute.  `buf_alloc` takes the low 32 bits of its size, and `memmove` all of
them. -/
def putValue (f : Fid) (packing : Packing) : Option Packing :=
  let packing := bufAllocData f.xattrsz.toUInt32 packing
  if packing.2.data = none then some packing
  else moveData (bytesAt f.xattrdata f.xattrsz.toNat) packing

/-- The second loop of `ufs_checkpoint`. -/
def putRecords : List Record → Packing → Option Packing
  | [], packing => some packing
  | r :: rs, packing => do
    let packing ← PutOp.execAll r.fields packing
    let packing ← putValue r.aux packing
    putRecords rs packing

/-- `msize[4] dotu[1] dotl[1] nfids[4]`. -/
def putConn (conn : Npconn) (nfids : Nat) : List PutOp :=
  [.int32 conn.msize null, .int8 (flag conn.dotu 1) null, .int8 (flag conn.dotl 1) null,
    .int32 (UInt32.ofNat nfids) null]

/-- What is written to the memory that `malloc` has returned for `sz` bytes: the data, or nothing
when they overflow; `none` when it writes elsewhere. -/
def writeCheckpoint (conn : Npconn) (rs : List Record) (sz : UInt32) (memory : List UInt8) :
    Option (Option (List UInt8)) := do
  let packing ← PutOp.execAll (putConn conn rs.length) (Cbuf.bufInit memory 0 (cint sz), default)
  let packing ← putRecords rs packing
  return if packing.1.bufCheckOverflow then none else some packing.1.mem

/-- `malloc` of an `int`.  A negative one is too large a size. -/
def mallocInt (sz : UInt32) (host : Host) : Option (List UInt8) × Host :=
  if sz.toNat < 2 ^ 31 then host.exec (.malloc sz.toNat) else (none, host.next.2)

/-! ## The fids -/

/-- The references that `np_conn_list_fids` takes. -/
def increfs : List FidPtr → Serve Unit
  | [] => return ()
  | fid :: fids => do
    npFidIncref (some fid)
    increfs fids

/-- The last loop of `ufs_checkpoint`. -/
def decrefs : List FidPtr → Serve Unit
  | [] => return ()
  | fid :: fids => do
    npFidDecref (some fid)
    decrefs fids

/-- `np_conn_list_fids`, for the list of the fids that the pool gives. -/
def npConnListFids (u : Ufssrv) (fids : List FidPtr) (s : State) : State :=
  let (fidlist, world) := s.world.exec (.malloc (8 * fids.length))
  let s := { s with world, fault := s.fault || fidlist.isNone && !fids.isEmpty }
  ((increfs fids).run (exec u) s).2

/-- What is known of the fids that the pool gives, if no assertion fails. -/
def records (u : Ufssrv) (fids : List FidPtr) (s : State) : Option (List Record) :=
  fids.mapM fun fid => s.fids.get fid >>= record u

/-- `ufs_checkpoint`.  A failed assertion, the use of a null pointer and a write past the buffer are
faults. -/
def ufsCheckpoint (u : Ufssrv) (fids : List FidPtr) (s : State) : Option (List UInt8) × State :=
  let s := npConnListFids u fids s
  match records u fids s with
  | none => (none, { s with fault := true })
  | some rs =>
    let sz := UInt32.ofNat (checkpointSize rs)
    let (memory, world) := mallocInt sz s.world
    let s := { s with world }
    match memory >>= writeCheckpoint s.conn rs sz with
    | none => (none, { s with fault := true })
    | some data => (data, ((decrefs fids).run (exec u) s).2)

/-- The list that the pool gives has each of its fids once. -/
structure Lists (s : State) (fids : List FidPtr) : Prop where
  nodup : fids.Nodup
  mem : ∀ p, p ∈ fids ↔ ∃ n, s.pool n = some p

/-- All but the host is as it was. -/
structure Unchanged (s s' : State) : Prop where
  srv : s'.srv = s.srv
  conn : s'.conn = s.conn
  pool : s'.pool = s.pool
  fids : ∀ p, s'.fids.get p = s.fids.get p
  users : s'.users = s.users
  error : s'.error = s.error
  reqFid : s'.reqFid = s.reqFid
  fault : s'.fault = s.fault

/-! ## References -/

section References

variable {u : Ufssrv} {s s' : State} {fids : List FidPtr} {p : FidPtr}

/-- An `int` has been added to the reference counts of some fids. -/
structure Counted (n : Int) (fids : List FidPtr) (s s' : State) : Prop where
  srv : s'.srv = s.srv
  conn : s'.conn = s.conn
  pool : s'.pool = s.pool
  fids : ∀ p, s'.fids.get p = (s.fids.get p).map (.addRef (if p ∈ fids then n else 0))
  users : s'.users = s.users
  error : s'.error = s.error
  reqFid : s'.reqFid = s.reqFid
  fault : s'.fault = s.fault
  world : s'.world = s.world

theorem map_addRef_zero (f : Option (Npfid Fid)) : f.map (.addRef 0) = f := by
  cases f <;> simp [Npfid.addRef]

theorem Counted.nil (n : Int) (s : State) : Counted n [] s s :=
  ⟨rfl, rfl, rfl, fun p => by simp [map_addRef_zero], rfl, rfl, rfl, rfl, rfl⟩

theorem Counted.cons {n : Int} (live : (s.fids.get p).isSome) (fresh : p ∉ fids)
    (rest : Counted n fids (s.modify p (.addRef n)) s') : Counted n (p :: fids) s s' := by
  obtain ⟨srv, conn, pool, cells, users, error, reqFid, fault, world⟩ := rest
  refine ⟨srv, conn, pool, fun q => ?_, users, error, reqFid, ?_, world⟩
  · rw [cells, Session.modify, Cells.get_modify]
    rcases eq_or_ne q p with rfl | other
    · simp only [if_pos, List.mem_cons, true_or, if_neg fresh, map_addRef_zero]
    · simp [other]
  · rw [fault, Session.modify, Option.isNone_eq_false_iff.mpr live, Bool.or_false]

/-- Every fid is given a reference. -/
theorem increfs_counted (nodup : fids.Nodup) (live : ∀ p ∈ fids, (s.fids.get p).isSome) :
    Counted 1 fids s ((increfs fids).run (exec u) s).2 := by
  induction fids generalizing s with
  | nil => exact .nil 1 s
  | cons p fids ih =>
      obtain ⟨fresh, nodup⟩ := List.nodup_cons.mp nodup
      refine .cons (live p (by simp)) fresh (ih nodup fun q member => ?_)
      have kept := live q (by simp [member])
      rw [Session.modify, Cells.get_modify_ne (by rintro rfl; exact fresh member)]
      exact kept

/-- The state in which the fids are listed: `malloc` has been called for the list. -/
def listing (fids : List FidPtr) (s : State) : State :=
  { s with
    world := (s.world.exec (.malloc (8 * fids.length))).2
    fault := s.fault || (s.world.exec (.malloc (8 * fids.length))).1.isNone && !fids.isEmpty }

theorem npConnListFids_counted (nodup : fids.Nodup) (live : ∀ p ∈ fids, (s.fids.get p).isSome) :
    Counted 1 fids (listing fids s) (npConnListFids u fids s) :=
  increfs_counted nodup live

/-- Every fid loses a reference that is not its last. -/
theorem decrefs_counted (nodup : fids.Nodup)
    (more : ∀ p ∈ fids, ∃ f, s.fids.get p = some f ∧ 2 ≤ f.refcount) :
    Counted (-1) fids s ((decrefs fids).run (exec u) s).2 := by
  induction fids generalizing s with
  | nil => exact .nil (-1) s
  | cons p fids ih =>
      obtain ⟨fresh, nodup⟩ := List.nodup_cons.mp nodup
      obtain ⟨f, live, two⟩ := more p (by simp)
      have left : (s.load p (·.refcount - 1) 1).1 ≠ 0 := by
        simp only [Session.load, live]
        omega
      have first : ((npFidDecref (some p)).run (exec u) s).2 = s.modify p (.addRef (-1)) := by
        rw [run_npFidDecref_eq, if_neg left]
      rw [decrefs, run_bind, first]
      refine .cons (by rw [live]; rfl) fresh (ih nodup fun q member => ?_)
      have kept := more q (by simp [member])
      rw [Session.modify, Cells.get_modify_ne (by rintro rfl; exact fresh member)]
      exact kept

end References

/-! ## The data -/

section Data

variable {r : Record} {rs : List Record} {size : Nat} {front : List UInt8} {packing : Packing}

/-- The bytes of a record. -/
def Record.bytes (r : Record) : List UInt8 :=
  packed r.fields [] ++ bytesAt r.aux.xattrdata r.aux.xattrsz.toNat

theorem fields_counts (r : Record) : ∀ op ∈ r.fields, op.Counts := by
  simp [Record.fields, PutOp.Counts]

theorem bytesAt_length (data : Option (List UInt8)) (n : Nat) : (bytesAt data n).length = n := by
  simp [bytesAt]

theorem fields_length (r : Record) : (packed r.fields []).length =
    36 + r.aux.path.strlen + strlen? r.aux.xattrname := by
  simp only [Record.fields, packed, PutOp.bytes, List.length_append,
    List.length_nil, bytes16_length, bytes32_length, bytes64_length, strlen?, CStr.strlen]
  simp [CStr.bytes?]
  omega

theorem length_le_checkpointSize (rs : List Record) : rs.length ≤ checkpointSize rs := by
  induction rs with
  | nil => exact Nat.zero_le _
  | cons r rs ih =>
      simp only [checkpointSize, List.map_cons, List.sum_cons, List.length_cons,
        Record.size] at ih ⊢
      omega

/-- The value of an attribute is written behind its record. -/
theorem value_holds (holds : packing.Holds size front) (small : size < 2 ^ 31)
    (room : front.length + r.aux.xattrsz.toNat ≤ size) :
    ∃ packing', putValue r.aux packing = some packing' ∧
      packing'.Holds size (front ++ bytesAt r.aux.xattrdata r.aux.xattrsz.toNat) := by
  obtain ⟨buf, fc⟩ := packing
  have low : r.aux.xattrsz.toUInt32.toNat = r.aux.xattrsz.toNat := by
    rw [UInt64.toNat_toUInt32]
    omega
  have length := bytesAt_length r.aux.xattrdata r.aux.xattrsz.toNat
  obtain ⟨value, valueEq⟩ : ∃ value, bytesAt r.aux.xattrdata r.aux.xattrsz.toNat = value := ⟨_, rfl⟩
  rw [valueEq] at length ⊢
  refine ⟨(buf.put value, { fc with data := some buf.p }), ?_, holds.put (by omega)⟩
  have counted : cint r.aux.xattrsz.toUInt32 = value.length := by
    rw [cint_of_lt (by omega), low, length]
  have bound : front.length + value.length ≤ size := by omega
  simp only [putValue, valueEq, bufAllocData, counted, bufAlloc_eq (holds.room bound)]
  rw [if_neg (by simp)]
  simp only [moveData, memmove_alloc holds bound]
  rfl

/-- Records that have room are written one after another. -/
theorem putRecords_holds (rs : List Record) (holds : packing.Holds size front)
    (small : size < 2 ^ 31) (room : front.length + (rs.map Record.size).sum ≤ size) :
    ∃ packing', putRecords rs packing = some packing' ∧
      packing'.Holds size (front ++ rs.flatMap Record.bytes) := by
  induction rs generalizing front packing with
  | nil => exact ⟨packing, rfl, by simpa using holds⟩
  | cons r rs ih =>
      simp only [List.map_cons, List.sum_cons] at room
      have sized : r.size = 36 + r.aux.path.strlen + strlen? r.aux.xattrname +
        r.aux.xattrsz.toNat := rfl
      have fields := fields_length r
      obtain ⟨named, stored, holds⟩ := execAll_stores holds (fields_counts r) (by omega)
      obtain ⟨valued, copied, holds⟩ := value_holds (r := r) holds small (by
        rw [List.length_append]
        omega)
      obtain ⟨last, rest, holds⟩ := ih holds (by
        simp only [List.length_append, bytesAt_length]
        omega)
      refine ⟨last, ?_, by simpa [Record.bytes, List.append_assoc] using holds⟩
      simp only [putRecords, stored, Option.bind_eq_bind, Option.bind_some, copied]
      exact rest

/-- The checkpoint of a connection starts with ten bytes. -/
theorem putConn_holds (conn : Npconn) (nfids : Nat) (sz : UInt32) {memory : List UInt8}
    (length : memory.length = sz.toNat) (small : sz.toNat < 2 ^ 31) (room : 10 ≤ sz.toNat) :
    ∃ packing, PutOp.execAll (putConn conn nfids)
        (Cbuf.bufInit memory 0 (cint sz), default) = some packing ∧
      packing.Holds sz.toNat (packed (putConn conn nfids) []) ∧
      (packed (putConn conn nfids) []).length = 10 := by
  have start : Packing.Holds sz.toNat [] (Cbuf.bufInit memory 0 (cint sz), default) := by
    refine ⟨length, ?_, rfl, List.nil_prefix⟩
    rw [cint_of_lt small]
    simp [Cbuf.bufInit]
  have ten : (packed (putConn conn nfids) []).length = 10 := by
    simp [putConn, packed, PutOp.bytes, LittleEndian.bytes32_length]
  have counts : ∀ op ∈ putConn conn nfids, op.Counts := by
    simp [putConn, PutOp.Counts]
  obtain ⟨packing, stored, holds⟩ := execAll_stores start counts (by
    rw [ten, List.length_nil]
    omega)
  exact ⟨packing, stored, holds, ten⟩

/-- The bytes of a checkpoint. -/
def checkpointBytes (conn : Npconn) (rs : List Record) : List UInt8 :=
  packed (putConn conn rs.length) [] ++ rs.flatMap Record.bytes

theorem checkpointBytes_length (conn : Npconn) (rs : List Record) :
    (checkpointBytes conn rs).length = checkpointSize rs := by
  have ten : (packed (putConn conn rs.length) []).length = 10 := by
    simp [putConn, packed, PutOp.bytes, LittleEndian.bytes32_length]
  rw [checkpointBytes, checkpointSize, List.length_append, ten, List.length_flatMap]
  congr 3
  funext r
  rw [Record.bytes, List.length_append, fields_length, bytesAt_length, Record.size]

/-- The buffer that the size formula asks for takes the whole checkpoint. -/
theorem writeCheckpoint_eq (conn : Npconn) (small : checkpointSize rs < 2 ^ 31)
    {memory : List UInt8} (length : memory.length = checkpointSize rs) :
    writeCheckpoint conn rs (.ofNat (checkpointSize rs)) memory =
      some (some (checkpointBytes conn rs)) := by
  have low : (UInt32.ofNat (checkpointSize rs)).toNat = checkpointSize rs := by
    rw [UInt32.toNat_ofNat']
    omega
  have whole : checkpointSize rs = 10 + (rs.map Record.size).sum := rfl
  obtain ⟨opened, stored, holds, ten⟩ := putConn_holds conn rs.length
    (.ofNat (checkpointSize rs)) (length.trans low.symm) (by omega) (by omega)
  rw [low] at holds
  obtain ⟨last, rest, holds⟩ := putRecords_holds rs holds small (by omega)
  have inside : last.1.bufCheckOverflow = false := by
    refine decide_eq_false ?_
    rw [holds.position, holds.window]
    have length := holds.placed.length_le
    have total := holds.length
    omega
  have written : last.1.mem = checkpointBytes conn rs :=
    (holds.placed.eq_of_length ((checkpointBytes_length conn rs).trans holds.length.symm)).symm
  simp [writeCheckpoint, stored, rest, inside, written]

/-- The low bits of a size say that there is room for a value, and there is none. -/
theorem putValue_overrun (holds : packing.Holds size front) (low : r.aux.xattrsz.toUInt32 = 0)
    (large : size < r.aux.xattrsz.toNat) : putValue r.aux packing = none := by
  obtain ⟨buf, fc⟩ := packing
  have length := bytesAt_length r.aux.xattrdata r.aux.xattrsz.toNat
  obtain ⟨value, valueEq⟩ : ∃ value, bytesAt r.aux.xattrdata r.aux.xattrsz.toNat = value := ⟨_, rfl⟩
  rw [valueEq] at length
  have inside := holds.placed.length_le
  have whole := holds.length
  have window := holds.window
  have position := holds.position
  simp only at inside whole window position
  have room : buf.p + 0 ≤ buf.ep := by omega
  have nonempty : value ≠ [] := List.ne_nil_of_length_pos (by omega)
  simp only [putValue, valueEq, bufAllocData, low, cint_of_lt (show (0 : UInt32).toNat < 2 ^ 31 by
    decide), UInt32.toNat_zero, Nat.cast_zero, bufAlloc_eq room]
  rw [if_neg (by simp)]
  have past : ¬ (0 ≤ buf.p ∧ buf.p + value.length ≤ buf.mem.length) := by omega
  simp [moveData, Cbuf.memmove, Cbuf.advance, nonempty]
  omega

/-- A value of 2^32 bytes does not fit into the buffer that is allocated for it. -/
theorem writeCheckpoint_overrun (conn : Npconn) (large : r.aux.xattrsz.toNat = 2 ^ 32)
    (path : r.aux.path.strlen < 2 ^ 29) (name : strlen? r.aux.xattrname < 2 ^ 29)
    {memory : List UInt8}
    (length : memory.length = (UInt32.ofNat (checkpointSize [r])).toNat) :
    writeCheckpoint conn [r] (.ofNat (checkpointSize [r])) memory = none := by
  have whole : checkpointSize [r] =
      10 + (36 + r.aux.path.strlen + strlen? r.aux.xattrname + 2 ^ 32) := by
    simp only [checkpointSize, List.map_singleton, List.sum_singleton, Record.size, large]
  have low : (UInt32.ofNat (checkpointSize [r])).toNat =
      10 + (36 + r.aux.path.strlen + strlen? r.aux.xattrname) := by
    rw [UInt32.toNat_ofNat', whole]
    omega
  have fields := fields_length r
  obtain ⟨opened, stored, holds, ten⟩ := putConn_holds conn 1 _ length (by omega) (by omega)
  obtain ⟨named, put, holds⟩ := execAll_stores holds (fields_counts r) (by omega)
  have none_left : putValue r.aux named = none := by
    refine putValue_overrun holds ?_ (by omega)
    rw [← UInt32.toNat_inj, UInt64.toNat_toUInt32, large]
    rfl
  simp [writeCheckpoint, putRecords, stored, put, none_left]

end Data

/-! ## The connection afterwards -/

section Result

variable {u : Ufssrv} {s s' : State} {fids : List FidPtr}

/-- A fid of the pool passes both assertions. -/
theorem record_of_complete {n : UInt32} {f : Npfid Fid} (complete : Complete n f) :
    ∃ r, record u f = some r := by
  obtain ⟨aux, known⟩ := Option.isSome_iff_exists.mp complete.aux
  obtain ⟨user, owned⟩ := Option.isSome_iff_exists.mp complete.user
  exact ⟨⟨f, u.uid user, aux⟩, by simp [record, known, owned]⟩

theorem Lists.complete (lists : Lists s fids) (sound : Sound s) {p : FidPtr} (member : p ∈ fids) :
    ∃ f, s.fids.get p = some f ∧ Complete f.fid f := by
  obtain ⟨n, entry⟩ := (lists.mem p).mp member
  obtain ⟨f, found, number, complete⟩ := sound.fids n p entry
  exact ⟨f, found, number ▸ complete (Set.notMem_empty p)⟩

theorem records_cons (p : FidPtr) :
    records u (p :: fids) s = (s.fids.get p >>= record u).bind fun r =>
      (records u fids s).bind fun rs => some (r :: rs) := by
  simp only [records, List.mapM_cons]
  rfl

/-- The assertions do not fail for fids that are complete. -/
theorem records_some (complete : ∀ p ∈ fids, ∃ f, s.fids.get p = some f ∧ Complete f.fid f) :
    ∃ rs, records u fids s = some rs := by
  induction fids with
  | nil => exact ⟨[], rfl⟩
  | cons p fids ih =>
      obtain ⟨f, found, whole⟩ := complete p (by simp)
      obtain ⟨r, known⟩ := record_of_complete (u := u) whole
      obtain ⟨rs, rest⟩ := ih fun q member => complete q (by simp [member])
      refine ⟨r :: rs, ?_⟩
      rw [records_cons, found, Option.bind_eq_bind, Option.bind_some, known, rest]
      rfl

theorem records_length {rs : List Record} (known : records u fids s = some rs) :
    rs.length = fids.length := by
  induction fids generalizing rs with
  | nil =>
      obtain rfl : [] = rs := Option.some.inj known
      rfl
  | cons p fids ih =>
      rw [records_cons] at known
      obtain ⟨r, -, known⟩ := Option.bind_eq_some_iff.mp known
      obtain ⟨rest, read, same⟩ := Option.bind_eq_some_iff.mp known
      obtain rfl := Option.some.inj same
      rw [List.length_cons, List.length_cons, ih read]

/-- What a checkpoint says of the fids does not depend on references. -/
theorem records_counted {β : Type} (view : Record → β)
    (blind : ∀ r n, view { r with fid := r.fid.addRef n } = view r) {n : Int}
    {counted : List FidPtr} (fids : List FidPtr) (given : Counted n counted s s') :
    (records u fids s').map (·.map view) = (records u fids s).map (·.map view) := by
  have one (p : FidPtr) : (s'.fids.get p >>= record u).map view =
      (s.fids.get p >>= record u).map view := by
    rw [given.fids]
    cases s.fids.get p with
    | none => rfl
    | some f =>
        have same (n : Int) : (record u (f.addRef n)).map view = (record u f).map view := by
          cases aux : f.aux with
          | none => simp [record, Npfid.addRef, aux]
          | some aux' =>
              cases user : f.user with
              | none => simp [record, Npfid.addRef, user]
              | some user' =>
                  have counted := blind ⟨f, u.uid user', aux'⟩ n
                  simpa [record, Npfid.addRef, aux, user] using counted
        exact same _
  induction fids with
  | nil => rfl
  | cons p fids ih =>
      have views (first : Option Record) (rest : Option (List Record)) :
          (first.bind fun r => rest.bind fun rs => some (r :: rs)).map (·.map view) =
            (first.map view).bind fun n =>
              (rest.map (·.map view)).bind fun ns => some (n :: ns) := by
        cases first <;> cases rest <;> rfl
      rw [records_cons, records_cons, views, views, one, ih]

/-- `malloc` has had memory for the list of the fids and for the checkpoint. -/
def Supplied (s : State) : Prop := (s.world.fates 0).error = none ∧ (s.world.fates 1).error = none

theorem listing_supplied (supplied : Supplied s) (few : fids.length < 2 ^ 31) :
    listing fids s = { s with world := s.world.next.2 } := by
  have fidlist : (s.world.exec (.malloc (8 * fids.length))).1.isNone = false := by
    have small : ¬ Host.PTRDIFF_MAX < 8 * fids.length := by
      rw [Host.PTRDIFF_MAX]
      omega
    simp [Host.exec, Host.next, supplied.1, small]
  rw [listing, fidlist, Bool.false_and, Bool.or_false]
  rfl

theorem mallocInt_some (host : Host) (sz : UInt32) (small : sz.toNat < 2 ^ 31)
    (supplied : (host.fates 0).error = none) :
    ∃ memory, mallocInt sz host = (some memory, host.next.2) := by
  refine ⟨(List.range sz.toNat).map fun k => (host.fates 0).returned.bytes.getD k 0, ?_⟩
  have bound : ¬ Host.PTRDIFF_MAX < sz.toNat := by
    rw [Host.PTRDIFF_MAX]
    omega
  rw [mallocInt, if_pos small]
  simp [Host.exec, Host.next, supplied, bound]

theorem mallocInt_length {host : Host} {sz : UInt32} {memory : List UInt8}
    (allocated : (mallocInt sz host).1 = some memory) : memory.length = sz.toNat := by
  unfold mallocInt at allocated
  split at allocated
  · simp only [Host.exec] at allocated
    split at allocated
    · cases allocated
    · obtain rfl := Option.some.inj allocated
      simp
  · cases allocated

/-- The references that are taken are given up. -/
theorem Counted.undone {s₁ s₂ s₃ : State} (taken : Counted 1 fids s s₁)
    (world : s₂ = { s₁ with world := s₂.world }) (given : Counted (-1) fids s₂ s₃) :
    Unchanged s s₃ where
  srv := by rw [given.srv, world, taken.srv]
  conn := by rw [given.conn, world, taken.conn]
  pool := by rw [given.pool, world, taken.pool]
  fids p := by
    have same : s₂.fids = s₁.fids := by rw [world]
    rw [given.fids, same, taken.fids]
    cases s.fids.get p with
    | none => rfl
    | some f => by_cases member : p ∈ fids <;> simp [member, Npfid.addRef]
  users := by rw [given.users, world, taken.users]
  error := by rw [given.error, world, taken.error]
  reqFid := by rw [given.reqFid, world, taken.reqFid]
  fault := by rw [given.fault, world, taken.fault]

/-- A checkpoint of less than 2^31 bytes is made of the fids with a reference more. -/
theorem ufsCheckpoint_eq (sound : Sound s) (lists : Lists s fids) (supplied : Supplied s)
    (small : ∀ rs, records u fids s = some rs → checkpointSize rs < 2 ^ 31) :
    ∃ s₁ rs, Counted 1 fids { s with world := s.world.next.2 } s₁ ∧
      records u fids s₁ = some rs ∧ checkpointSize rs < 2 ^ 31 ∧
      ufsCheckpoint u fids s = (some (checkpointBytes s₁.conn rs),
        ((decrefs fids).run (exec u) { s₁ with world := s₁.world.next.2 }).2) := by
  obtain ⟨s₁, listed⟩ : ∃ s₁, npConnListFids u fids s = s₁ := ⟨_, rfl⟩
  obtain ⟨rs, known⟩ := records_some (u := u) (s := s) fun p => lists.complete sound
  have few : fids.length < 2 ^ 31 := by
    have each := length_le_checkpointSize rs
    have bound := small rs known
    rw [← records_length known]
    omega
  have taken : Counted 1 fids { s with world := s.world.next.2 } s₁ := by
    rw [← listing_supplied supplied few, ← listed]
    refine npConnListFids_counted lists.nodup fun p member => ?_
    obtain ⟨f, found, -⟩ := lists.complete sound member
    exact Option.isSome_of_eq_some found
  have sizes := records_counted (u := u) Record.size (fun _ _ => rfl) fids taken
  have same : records u fids { s with world := s.world.next.2 } = some rs := known
  rw [same] at sizes
  obtain ⟨rs₁, known₁, equal⟩ := Option.map_eq_some_iff.mp sizes
  have length : checkpointSize rs₁ = checkpointSize rs := by rw [checkpointSize, equal]; rfl
  have bound : checkpointSize rs₁ < 2 ^ 31 := by rw [length]; exact small rs known
  have low : (UInt32.ofNat (checkpointSize rs₁)).toNat = checkpointSize rs₁ := by
    rw [UInt32.toNat_ofNat']
    omega
  obtain ⟨memory, allocated⟩ := mallocInt_some s₁.world
    (.ofNat (checkpointSize rs₁)) (by omega) (by rw [taken.world]; exact supplied.2)
  have room := mallocInt_length (by rw [allocated])
  have written := writeCheckpoint_eq s₁.conn bound (room.trans low)
  refine ⟨s₁, rs₁, taken, known₁, bound, ?_⟩
  simp only [ufsCheckpoint, listed, known₁, allocated, Option.bind_eq_bind, Option.bind_some,
    written]

/-- Unless a checkpoint takes 2^31 bytes, it leaves all as it was. -/
theorem ufsCheckpoint_unchanged (sound : Sound s) (lists : Lists s fids) (supplied : Supplied s)
    (small : ∀ rs, records u fids s = some rs → checkpointSize rs < 2 ^ 31) :
    Unchanged s (ufsCheckpoint u fids s).2 := by
  obtain ⟨s₁, rs, taken, -, -, made⟩ := ufsCheckpoint_eq sound lists supplied small
  have given : Counted (-1) fids { s₁ with world := s₁.world.next.2 } _ :=
    decrefs_counted (u := u) lists.nodup fun p member => by
      obtain ⟨f, found, complete⟩ := lists.complete sound member
      have held : s₁.fids.get p = some (f.addRef 1) := by
        rw [taken.fids, if_pos member]
        exact congrArg (Option.map _) found
      exact ⟨f.addRef 1, held, by have := complete.refcount; simp only [Npfid.addRef]; omega⟩
  rw [made]
  have result := taken.undone rfl given
  exact ⟨result.srv, result.conn, result.pool, result.fids, result.users, result.error,
    result.reqFid, result.fault⟩

/-- The only fid has a value whose size has no low bits: it is written past the checkpoint. -/
theorem ufsCheckpoint_overrun {p : FidPtr} {f : Npfid Fid} {aux : Fid}
    (live : s.fids.get p = some f) (known : f.aux = some aux) (low : aux.xattrsz.toNat = 2 ^ 32)
    (path : aux.path.strlen < 2 ^ 29) (name : strlen? aux.xattrname < 2 ^ 29) :
    (ufsCheckpoint u [p] s).2.fault = true := by
  obtain ⟨s₁, listed⟩ : ∃ s₁, npConnListFids u [p] s = s₁ := ⟨_, rfl⟩
  have taken : Counted 1 [p] (listing [p] s) s₁ := by
    rw [← listed]
    exact npConnListFids_counted (List.nodup_singleton p) (by simp [live])
  have held : s₁.fids.get p = some (f.addRef 1) := by
    rw [taken.fids, if_pos (List.mem_singleton_self p)]
    exact congrArg (Option.map _) live
  simp only [ufsCheckpoint, listed, records_cons, held, Option.bind_eq_bind, Option.bind_some]
  cases read : record u (f.addRef 1) with
  | none => rfl
  | some r =>
      have same : r.aux = aux := by
        simp only [record, Npfid.addRef, known, Option.bind_eq_bind, Option.bind_some] at read
        cases user : f.user with
        | none => simp [user] at read
        | some user' =>
            rw [user] at read
            exact (congrArg Record.aux (Option.some.inj read)).symm
      obtain ⟨sz, szEq⟩ : ∃ sz, UInt32.ofNat (checkpointSize [r]) = sz := ⟨_, rfl⟩
      have fails : ((mallocInt sz s₁.world).1.bind fun memory =>
          writeCheckpoint s₁.conn [r] sz memory) = none := by
        cases allocated : (mallocInt sz s₁.world).1 with
        | none => rfl
        | some memory =>
            have length := mallocInt_length allocated
            subst szEq same
            rw [Option.bind_some]
            exact writeCheckpoint_overrun _ low path name length
      simp [records, szEq, fails]

end Result

/-! ## Checkpoints between two requests -/

section Runs

variable {u : Ufssrv} {npErrnoToLinux : UInt32 → UInt32} {msize : UInt32} {host : Host} {s : State}

/-- Between two requests no assertion can fail, and a checkpoint of less than 2^31 bytes for which
there is memory leaves all as it was. -/
theorem State.Reached.checkpoint (reached : State.Reached u npErrnoToLinux msize host s) :
    (∀ n p, s.pool n = some p → ∃ f aux user,
      s.fids.get p = some f ∧ f.aux = some aux ∧ f.user = some user) ∧
    ∀ fids, Lists s fids → Supplied s →
      (∀ rs, records u fids s = some rs → checkpointSize rs < 2 ^ 31) →
      Unchanged s (ufsCheckpoint u fids s).2 := by
  have sound := State.Reached.sound reached
  refine ⟨fun n p entry => ?_, fun fids lists supplied small =>
    ufsCheckpoint_unchanged sound lists supplied small⟩
  obtain ⟨f, found, number, complete⟩ := sound.fids n p entry
  obtain ⟨fid, refcount, user, aux⟩ := complete (Set.notMem_empty p)
  obtain ⟨aux, known⟩ := Option.isSome_iff_exists.mp aux
  obtain ⟨user, owned⟩ := Option.isSome_iff_exists.mp user
  exact ⟨f, aux, user, found, known, owned⟩

/-- The client has attached and declares the value of an attribute. -/
def State.described (asize : UInt64) : State :=
  ((State.start 8192 hostSingle).after attaching).after (describing asize)

theorem reached_described (asize : UInt64) :
    State.Reached .single id 8192 hostSingle (.described asize) :=
  .step (.step .start trivial rfl) trivial rfl

theorem lists_single (pool : s.pool = Function.update (fun _ => none) 1 (some 0)) :
    Lists s [0] where
  nodup := List.nodup_singleton 0
  mem p := by
    rw [List.mem_singleton, pool]
    constructor
    · rintro rfl
      exact ⟨1, Function.update_self ..⟩
    · rintro ⟨n, entry⟩
      rw [Function.update_apply] at entry
      split at entry
      · exact (Option.some.inj entry).symm
      · cases entry

theorem reached_checkpoint_five :
    Unchanged (.described 5) (ufsCheckpoint .single [0] (.described 5)).2 := by
  refine (State.Reached.checkpoint (reached_described 5)).2 [0] (lists_single rfl) ⟨rfl, rfl⟩ ?_
  intro rs known
  have sizes : (records .single [0] (.described 5)).map checkpointSize = some 52 := by rfl
  rw [known] at sizes
  have size : checkpointSize rs = 52 := Option.some.inj sizes
  omega

/-- A client can have the server write a value past the end of a checkpoint. -/
theorem not_checkpoint : ¬ ∀ (u : Ufssrv) (npErrnoToLinux : UInt32 → UInt32) (msize : UInt32)
    (host : Host) (s : State), State.Reached u npErrnoToLinux msize host s →
    (∀ n p, s.pool n = some p → ∃ f aux user,
      s.fids.get p = some f ∧ f.aux = some aux ∧ f.user = some user) ∧
    ∀ fids, Lists s fids → Unchanged s (ufsCheckpoint u fids s).2 := by
  intro always
  have run := reached_described (.ofNat (2 ^ 32))
  have lists : Lists (.described (.ofNat (2 ^ 32))) [0] := lists_single rfl
  have fine : (State.described (.ofNat (2 ^ 32))).fault = false := rfl
  have live : ∃ f aux, (State.described (.ofNat (2 ^ 32))).fids.get 0 = some f ∧
      f.aux = some aux ∧ aux.xattrsz = .ofNat (2 ^ 32) ∧ aux.path = cstr "/" ∧
      aux.xattrname = some (npStrdup []) :=
    ⟨_, _, rfl, rfl, rfl, rfl, rfl⟩
  generalize State.described (.ofNat (2 ^ 32)) = s at run lists fine live
  obtain ⟨f, aux, found, known, large, path, name⟩ := live
  have unchanged := (always .single id 8192 hostSingle s run).2 [0] lists
  have overrun : (ufsCheckpoint .single [0] s).2.fault = true :=
    ufsCheckpoint_overrun found known ((congrArg UInt64.toNat large).trans (by decide))
      (by rw [path]; decide) (by rw [name]; decide)
  rw [unchanged.fault, fine] at overrun
  cases overrun

end Runs

end Ufs

end Npfs
