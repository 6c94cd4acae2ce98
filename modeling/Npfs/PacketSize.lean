import Npfs.CreateCall
import Npfs.RoundTripDotl

/-!
# The announced size of a packet

A constructor computes the size of its packet by a formula of its own. The packet is filled when its
header announces its length and is followed by the fields of the message, all of them complete, and
by nothing else.
-/

namespace Npfs

open LittleEndian

/-- The packet starts with its own length, which is also in `fc->size`, and holds the fields. -/
structure Filled (type : MsgType) (wire : List UInt8) (fc : Npfcall) : Prop where
  size : fc.size.toNat = fc.pkt.length
  pkt : fc.pkt = header fc.size type NOTAG ++ wire

/-- Whatever memory `malloc` hands out, the constructor returns a packet that the fields fill. -/
def Fills (create : Malloc → Option Npfcall) (type : MsgType) (wire : List UInt8) : Prop :=
  ∀ heap, ∃ fc, create heap = some fc ∧ Filled type wire fc

theorem Filled.length {type : MsgType} {wire : List UInt8} {fc : Npfcall}
    (filled : Filled type wire fc) : fc.pkt.length = 7 + wire.length := by
  rw [filled.pkt, List.length_append, header_length]

/-! ## Fields of the record that a statement leaves alone -/

section Keeps

variable {β : Type} {view : Npfcall → β} {packing packing' : Packing}

/-- The statement leaves a part of the record alone. -/
def PutOp.Keeps (view : Npfcall → β) : PutOp → Prop
  | .int8 _ pval => ∀ fc val, view (pval fc val) = view fc
  | .int16 _ pval => ∀ fc val, view (pval fc val) = view fc
  | .int32 _ pval => ∀ fc val, view (pval fc val) = view fc
  | .int64 _ pval => ∀ fc val, view (pval fc val) = view fc
  | .str _ ps => ∀ fc s, view (ps fc s) = view fc
  | .alloc _ | .data .. => ∀ fc data, view { fc with data } = view fc
  | .assign change => ∀ fc, view (change fc) = view fc

namespace PutOp

@[simp] theorem keeps_int8 {val pval} : (int8 val pval).Keeps view ↔
    ∀ fc val, view (pval fc val) = view fc := Iff.rfl

@[simp] theorem keeps_int16 {val pval} : (int16 val pval).Keeps view ↔
    ∀ fc val, view (pval fc val) = view fc := Iff.rfl

@[simp] theorem keeps_int32 {val pval} : (int32 val pval).Keeps view ↔
    ∀ fc val, view (pval fc val) = view fc := Iff.rfl

@[simp] theorem keeps_int64 {val pval} : (int64 val pval).Keeps view ↔
    ∀ fc val, view (pval fc val) = view fc := Iff.rfl

@[simp] theorem keeps_str {s ps} : (str s ps).Keeps view ↔ ∀ fc s, view (ps fc s) = view fc :=
  Iff.rfl

@[simp] theorem keeps_alloc {count} : (alloc count).Keeps view ↔
    ∀ fc data, view { fc with data } = view fc := Iff.rfl

@[simp] theorem keeps_data {count src guarded} : (data count src guarded).Keeps view ↔
    ∀ fc data, view { fc with data } = view fc := Iff.rfl

@[simp] theorem keeps_assign {change} : (assign change).Keeps view ↔
    ∀ fc, view (change fc) = view fc := Iff.rfl

end PutOp

theorem bufPut_keeps {γ : Type} {bytes : List UInt8} {val : γ} {pval : Npfcall → γ → Npfcall}
    (keeps : ∀ fc val, view (pval fc val) = view fc) (packing : Packing) :
    view (bufPut bytes val pval packing).2 = view packing.2 := by
  unfold bufPut
  split
  · exact keeps _ _
  · rfl

theorem bufPutStr_keeps {s : Option CStr} {ps : Npfcall → Npstr → Npfcall}
    (keeps : ∀ fc s, view (ps fc s) = view fc) (stored : bufPutStr s ps packing = some packing') :
    view packing'.2 = view packing.2 := by
  unfold bufPutStr at stored
  simp only at stored
  split at stored
  · rename_i buf checked
    obtain ⟨moved, move, result⟩ := Option.bind_eq_some_iff.mp stored
    obtain rfl := Option.some.inj result
    exact (keeps _ _).trans (bufPut_keeps (fun _ _ => rfl) (buf, packing.2))
  · obtain rfl := Option.some.inj stored
    rfl

theorem moveData_keeps {src : List UInt8} (moved : moveData src packing = some packing') :
    packing'.2 = packing.2 := by
  obtain ⟨buf, move, result⟩ := Option.bind_eq_some_iff.mp moved
  obtain rfl := Option.some.inj result
  rfl

theorem exec_keeps {op : PutOp} (keeps : op.Keeps view)
    (run : op.exec packing = some packing') : view packing'.2 = view packing.2 := by
  cases op with
  | int8 | int16 | int32 | int64 =>
      obtain rfl := Option.some.inj run
      exact bufPut_keeps keeps packing
  | str s ps => exact bufPutStr_keeps keeps run
  | alloc count =>
      obtain rfl := Option.some.inj run
      exact keeps _ _
  | data count src guarded =>
      simp only [PutOp.exec] at run
      split at run
      · obtain rfl := Option.some.inj run
        exact keeps _ _
      · rw [moveData_keeps run]
        exact keeps _ _
  | assign change =>
      obtain rfl := Option.some.inj run
      exact keeps packing.2

theorem execAll_keeps {ops : List PutOp} (keeps : ∀ op ∈ ops, op.Keeps view)
    (run : PutOp.execAll ops packing = some packing') : view packing'.2 = view packing.2 := by
  induction ops generalizing packing with
  | nil =>
      obtain rfl := Option.some.inj run
      rfl
  | cons op ops ih =>
      obtain ⟨next, step, rest⟩ := Option.bind_eq_some_iff.mp run
      rw [ih (fun op member => keeps op (by simp [member])) rest,
        exec_keeps (keeps op (by simp)) step]

theorem npPostCheck_keeps {fc : Npfcall} (keeps : ∀ fc pkt, view { fc with pkt } = view fc)
    (passed : npPostCheck packing = some fc) : view fc = view packing.2 := by
  unfold npPostCheck at passed
  split at passed
  · cases passed
  · obtain rfl := Option.some.inj passed
    exact keeps _ _

theorem npCreate_keeps {type : MsgType} {size : UInt32} {fields : List PutOp} {heap : Malloc}
    {fc : Npfcall} (keeps : ∀ op ∈ fields, op.Keeps view)
    (packet : ∀ fc pkt, view { fc with pkt } = view fc)
    (created : npCreate type size fields heap = some fc) :
    view fc = view (npCreateCommon heap size type).2 := by
  obtain ⟨packing, run, passed⟩ := Option.bind_eq_some_iff.mp created
  rw [npPostCheck_keeps packet passed, execAll_keeps keeps run]

end Keeps

/-! ## The size in the record -/

theorem npCreate_size {type : MsgType} {size : UInt32} {fields : List PutOp} {heap : Malloc}
    {fc : Npfcall} (keeps : ∀ op ∈ fields, op.Keeps Npfcall.size)
    (created : npCreate type size fields heap = some fc) :
    fc.size = (npCreateCommon heap size type).2.size :=
  npCreate_keeps keeps (fun _ _ => rfl) created

theorem bufPutHeader_size (size : UInt32) (type : MsgType) (packing : Packing) :
    (bufPutHeader size type packing).2.size =
      (bufPutInt32 size (fun fc size => { fc with size }) packing).2.size := by
  simp only [bufPutHeader, bufPutInt16, bufPutInt8]
  rw [@bufPut_keeps _ Npfcall.size _ _ _ _ fun _ _ => by simp only,
    @bufPut_keeps _ Npfcall.size _ _ _ _ fun _ _ => by simp only]

/-- A packet that a C `int` can count gets its size. -/
theorem npCreateCommon_size (heap : Malloc) {size : UInt32} (type : MsgType)
    (small : size.toNat + 7 < 2 ^ 31) : (npCreateCommon heap size type).2.size = size + 7 := by
  have total : (size + 7).toNat = size.toNat + 7 := by
    rw [UInt32.toNat_add]
    exact Nat.mod_eq_of_lt (by simpa using by omega)
  have room : (blankPacket heap (size + 7)).p + (bytes32 (size + 7)).length ≤
      (blankPacket heap (size + 7)).ep := by
    simp only [blankPacket, Cbuf.bufInit, cint_of_lt (by omega : (size + 7).toNat < 2 ^ 31), total,
      bytes32_length]
    push_cast
    omega
  have sized := bufPutHeader_size (size + 7) type (blankPacket heap (size + 7), heap.fc)
  rw [bufPutInt32, bufPut_eq room] at sized
  exact sized

theorem npCreateCommon_type (heap : Malloc) {size : UInt32} (type : MsgType)
    (small : size.toNat + 7 < 2 ^ 31) : (npCreateCommon heap size type).2.type = type.code := by
  have total : (size + 7).toNat = size.toNat + 7 := by
    rw [UInt32.toNat_add]
    exact Nat.mod_eq_of_lt (by simpa using by omega)
  have window : (blankPacket heap (size + 7)).ep = size.toNat + 7 := by
    simp only [blankPacket, Cbuf.bufInit, cint_of_lt (by omega : (size + 7).toNat < 2 ^ 31), total]
    push_cast
    omega
  have start : (blankPacket heap (size + 7)).p = 0 := rfl
  change (bufPutHeader (size + 7) type (blankPacket heap (size + 7), heap.fc)).2.type = _
  rw [bufPutHeader, bufPutInt16, @bufPut_keeps _ Npfcall.type _ _ _ _ fun _ _ => by simp only,
    bufPutInt32, bufPut_eq (by rw [start, window, bytes32_length]; omega), bufPutInt8,
    bufPut_eq]
  simp only [Cbuf.put, start, window, bytes32_length, List.length_singleton]
  omega

/-- A packet that a C `int` cannot count keeps the size that the memory held. -/
theorem npCreateCommon_size_of_large (heap : Malloc) {size : UInt32} (type : MsgType)
    (large : 2 ^ 31 ≤ (size + 7).toNat) :
    (npCreateCommon heap size type).2.size = heap.fc.size := by
  have behind : (blankPacket heap (size + 7)).ep < (blankPacket heap (size + 7)).p := by
    have bound := (size + 7).toNat_lt
    simp only [blankPacket, Cbuf.bufInit, cint_of_ge large]
    omega
  have sized := bufPutHeader_size (size + 7) type (blankPacket heap (size + 7), heap.fc)
  rw [bufPutInt32, bufPut_behind behind] at sized
  exact sized

/-! ## Packets that are filled -/

/-- A size formula that counts the fields exactly. -/
theorem fills_of_exact {type : MsgType} {size : UInt32} {fields : List PutOp} {wire : List UInt8}
    (fits : ∀ op ∈ fields, op.Fits) (keeps : ∀ op ∈ fields, op.Keeps Npfcall.size)
    (bytes : packed fields [] = wire) (counted : wire.length = size.toNat)
    (small : size.toNat + 7 < 2 ^ 31) : Fills (npCreate type size fields) type wire := by
  intro heap
  obtain ⟨fc, tail, created, content, length⟩ :=
    created_packet heap type fits (by rw [bytes, counted]) small
  have total : (size + 7).toNat = size.toNat + 7 := by
    rw [UInt32.toNat_add]
    exact Nat.mod_eq_of_lt (by simpa using by omega)
  have size : fc.size = _ := (npCreate_size keeps created).trans
    (npCreateCommon_size heap type small)
  have nothing : tail = [] := by
    rw [packed_tail, bytes] at content
    rw [content] at length
    simp only [List.length_append, header_length] at length
    exact List.length_eq_zero_iff.mp (by omega)
  refine ⟨fc, created, by rw [size, total, length], ?_⟩
  rw [size, content, nothing, bytes]

theorem fills_ofNat {type : MsgType} {n : Nat} {fields : List PutOp} {wire : List UInt8}
    (fits : ∀ op ∈ fields, op.Fits) (keeps : ∀ op ∈ fields, op.Keeps Npfcall.size)
    (bytes : packed fields [] = wire) (counted : wire.length = n) (small : n + 7 < 2 ^ 31) :
    Fills (npCreate type (.ofNat n) fields) type wire := by
  have size := toNat_ofNat32 small
  exact fills_of_exact fits keeps bytes (by omega) (by omega)

/-! ## Packets that are not filled -/

/-- The packet is of another length than the fields. -/
theorem not_fills_of_length {create : Malloc → Option Npfcall} {type : MsgType}
    {wire : List UInt8} (heap : Malloc)
    (other : ∀ fc, create heap = some fc → fc.pkt.length ≠ 7 + wire.length) :
    ¬ Fills create type wire := by
  intro fills
  obtain ⟨fc, created, filled⟩ := fills heap
  exact other fc created filled.length

/-- The size is the one that the memory held. -/
theorem not_fills_of_size {create : Malloc → Option Npfcall} {type : MsgType} {wire : List UInt8}
    (kept : ∀ heap fc, create heap = some fc → fc.size = heap.fc.size) :
    ¬ Fills create type wire := by
  intro fills
  obtain ⟨fc, created, filled⟩ := fills ⟨{ (default : Npfcall) with size := 0 }, fun _ => 0⟩
  have size := filled.size
  rw [kept _ fc created, filled.length] at size
  simp only [UInt32.toNat_zero] at size
  omega

/-! ## The calls -/

/-- The strings of a stat record are short enough for their counts. -/
structure Npwstat.TextsFit (wstat : Npwstat) : Prop where
  name : strlen? wstat.name < 2 ^ 16
  uid : strlen? wstat.uid < 2 ^ 16
  gid : strlen? wstat.gid < 2 ^ 16
  muid : strlen? wstat.muid < 2 ^ 16
  extension : strlen? wstat.extension < 2 ^ 16

/-- Strings have at most 65535 bytes, a buffer holds as many bytes as its count says, and a walk is
short enough for a packet to be allocated. -/
def BaseCall.Given : BaseCall → Prop
  | .tversion _ version | .rversion _ version => version.strlen < 2 ^ 16
  | .rerror ename _ => ename.strlen < 2 ^ 16
  | .tattach _ _ uname aname _ => strlen? uname < 2 ^ 16 ∧ strlen? aname < 2 ^ 16
  | .twalk _ _ wnames => wnames.length ≤ MAXWELEM ∧ ∀ wname ∈ wnames, wname.strlen < 2 ^ 16
  | .rwalk wqids => wqids.length ≤ MAXWELEM
  | .tcreate _ name _ _ => name.strlen < 2 ^ 16
  | .rread count data | .twrite _ _ count data => data.length = count.toNat
  | .rstat wstat | .twstat _ wstat => wstat.TextsFit
  | _ => True

/-- Strings have at most 65535 bytes, a buffer holds as many bytes as its count says, and a walk is
short enough for a packet to be allocated. -/
def CreateCall.Given : CreateCall → Prop
  | .base call => call.Given
  | .dotl call => call.InRange
  | .tauth _ uname aname _ => strlen? uname < 2 ^ 16 ∧ strlen? aname < 2 ^ 16
  | .rerror1 ename _ => ename.length < 2 ^ 16
  | .lerror _ => True
  | .rgetlock _ _ _ _ clientid => strlen? clientid < 2 ^ 16

/-- The size formula counts the fields, and a C `int` can hold what it counts. -/
def BaseCall.Sized : BaseCall → Prop
  | .rread count _ => count.toNat + 11 < 2 ^ 31
  | .twrite _ _ count _ => count.toNat + 23 < 2 ^ 31
  | _ => True

/-- The size formula counts the fields, and a C `int` can hold what it counts. -/
def DotlCall.Sized : DotlCall → Prop
  | .rreaddir count _ => count.toNat + 11 < 2 ^ 31
  | .rstatfs _ | .tsetattr .. => False
  | _ => True

/-- The size formula counts the fields, and a C `int` can hold what it counts. -/
def CreateCall.Sized (dotu : Bool) : CreateCall → Prop
  | .base call => call.Sized
  | .dotl call => call.Sized
  | .tauth .. => dotu = false
  | .rerror1 .. => False
  | .lerror _ => True
  | .rgetlock _ _ _ _ clientid => clientid ≠ none

/-- The call returns a packet that its fields fill. -/
def CreateCall.Fills (npErrnoToLinux : UInt32 → UInt32) (dotu : Bool) (call : CreateCall) : Prop :=
  Npfs.Fills (call.run npErrnoToLinux dotu) call.type (call.wire npErrnoToLinux dotu)

/-! ## 9P2000 and 9P2000.u -/

theorem packed_putWnames (wnames : List CStr) (i : Nat) :
    packed (putWnames i wnames) [] = wnames.flatMap fun wname => wireStr wname.bytes := by
  induction wnames generalizing i with
  | nil => rfl
  | cons wname wnames ih =>
      rw [putWnames, packed, ih, List.flatMap_cons]
      rfl

theorem keeps_putWnames (wnames : List CStr) (i : Nat) :
    ∀ op ∈ putWnames i wnames, op.Keeps Npfcall.size := by
  induction wnames generalizing i with
  | nil => simp [putWnames]
  | cons wname wnames ih =>
      intro op member
      rcases List.mem_cons.mp member with rfl | member
      · exact fun fc s => rfl
      · exact ih (i + 1) op member

theorem keeps_bufPutQid {β : Type} {view : Npfcall → β} {qid : Npqid}
    {pqid : (Npqid → Npqid) → Npfcall → Npfcall}
    (keeps : ∀ change fc, view (pqid change fc) = view fc) :
    ∀ op ∈ bufPutQid qid pqid, op.Keeps view := by
  simp [bufPutQid, keeps]

theorem packed_bufPutQid (qid : Npqid) (pqid : (Npqid → Npqid) → Npfcall → Npfcall)
    (tail : List UInt8) : packed (bufPutQid qid pqid) tail = wireQid qid ++ tail := by
  simp [bufPutQid, packed, PutOp.bytes, wireQid]

theorem packed_putWqids (wqids : List Npqid) (i : Nat) :
    packed (putWqids i wqids) [] = wqids.flatMap wireQid := by
  induction wqids generalizing i with
  | nil => rfl
  | cons wqid wqids ih =>
      rw [putWqids, packed_append, ih, packed_bufPutQid, List.flatMap_cons]

theorem keeps_putWqids {β : Type} {view : Npfcall → β}
    (keeps : ∀ fc wqids, view { fc with wqids } = view fc) (wqids : List Npqid) (i : Nat) :
    ∀ op ∈ putWqids i wqids, op.Keeps view := by
  have stored (i : Nat) (change : Npqid → Npqid) (fc : Npfcall) :
      view (fcWqid i change fc) = view fc := by
    unfold fcWqid
    split
    · rfl
    · exact keeps _ _
  induction wqids generalizing i with
  | nil => simp [putWqids]
  | cons wqid wqids ih =>
      intro op member
      rcases List.mem_append.mp member with first | rest
      · exact keeps_bufPutQid (stored i) op first
      · exact ih (i + 1) op rest

theorem wireStatBody_length (wstat : Npwstat) (dotu : Bool) :
    (wireStatBody wstat dotu).length = sizeWstat wstat dotu := by
  cases dotu <;> simp [wireStatBody, wireStr, wireQid, sizeWstat, strlen?] <;> omega

theorem packed_bufPutWstat (wstat : Npwstat) (dotu : Bool) :
    packed (.int16 (.ofNat (sizeWstat wstat dotu + 2)) null ::
      bufPutWstat wstat (.ofNat (sizeWstat wstat dotu)) dotu) [] = wireStat wstat dotu := by
  rw [wireStat, wireStatBody_length]
  cases dotu <;>
    simp [bufPutWstat, bufPutQid, packed, PutOp.bytes, wireStatBody, wireStr, wireQid]

theorem keeps_bufPutWstat (wstat : Npwstat) (statsz : UInt16) (dotu : Bool) :
    ∀ op ∈ bufPutWstat wstat statsz dotu, op.Keeps Npfcall.size := by
  cases dotu <;> simp [bufPutWstat, bufPutQid, fcStat]

theorem Npwstat.TextsFit.fits {wstat : Npwstat} (texts : wstat.TextsFit) (statsz : UInt16)
    (dotu : Bool) : ∀ op ∈ bufPutWstat wstat statsz dotu, op.Fits := by
  obtain ⟨name, uid, gid, muid, extension⟩ := texts
  cases dotu <;> simpa [bufPutWstat, bufPutQid] using by omega

theorem Npwstat.TextsFit.small {wstat : Npwstat} (texts : wstat.TextsFit) (dotu : Bool) :
    sizeWstat wstat dotu < 2 ^ 19 := by
  obtain ⟨name, uid, gid, muid, extension⟩ := texts
  cases dotu <;> simp [sizeWstat] <;> omega

theorem fills_rstat {wstat : Npwstat} {dotu : Bool} (texts : wstat.TextsFit) :
    Fills (npCreateRstat wstat dotu) .rstat (wireStat wstat dotu) := by
  have small := texts.small dotu
  refine fills_ofNat ?_ ?_ (packed_bufPutWstat wstat dotu) ?_ (by omega)
  · simpa using texts.fits _ dotu
  · simpa [null] using keeps_bufPutWstat wstat _ dotu
  · simp [wireStat, wireStatBody_length]
    omega

theorem fills_twstat {fid : UInt32} {wstat : Npwstat} {dotu : Bool} (texts : wstat.TextsFit) :
    Fills (npCreateTwstat fid wstat dotu) .twstat (bytes32 fid ++ wireStat wstat dotu) := by
  have small := texts.small dotu
  refine fills_ofNat ?_ ?_ ?_ ?_ (by omega)
  · simpa [putFid] using texts.fits _ dotu
  · simpa [putFid, null] using keeps_bufPutWstat wstat _ dotu
  · rw [packed_append, packed_bufPutWstat]
    rfl
  · simp [wireStat, wireStatBody_length]
    omega

theorem fills_twalk {fid newfid : UInt32} {wnames : List CStr} (few : wnames.length ≤ MAXWELEM)
    (fits : ∀ wname ∈ wnames, wname.strlen < 2 ^ 16) :
    Fills (npCreateTwalk fid newfid wnames) .twalk
      (bytes32 fid ++ bytes32 newfid ++ bytes16 (.ofNat wnames.length) ++
        wnames.flatMap fun wname => wireStr wname.bytes) := by
  have total := sum_strlen_le fits
  have names := packed_putWnames_length wnames 0
  intro heap
  simp only [npCreateTwalk, if_neg (Nat.not_lt.mpr few)]
  refine fills_ofNat ?_ ?_ ?_ ?_ (by simp only [MAXWELEM] at few; omega) heap
  · simpa using fits_putWnames fits 0
  · simpa using keeps_putWnames wnames 0
  · simp [packed, PutOp.bytes, packed_putWnames]
  · rw [packed_putWnames] at names
    simp only [List.length_append, bytes32_length, bytes16_length, names]
    omega

theorem fills_rwalk {wqids : List Npqid} (few : wqids.length ≤ MAXWELEM) :
    Fills (npCreateRwalk wqids) .rwalk
      (bytes16 (.ofNat wqids.length) ++ wqids.flatMap wireQid) := by
  have qids := packed_putWqids_length wqids 0
  intro heap
  simp only [npCreateRwalk, if_neg (Nat.not_lt.mpr few)]
  refine fills_ofNat ?_ ?_ ?_ ?_ (by simp only [MAXWELEM] at few; omega) heap
  · simpa using fits_putWqids wqids 0
  · simpa using @keeps_putWqids _ Npfcall.size (fun _ _ => rfl) wqids 0
  · simp [packed, PutOp.bytes, packed_putWqids]
  · rw [packed_putWqids] at qids
    simp only [List.length_append, bytes16_length, qids]

theorem fills_twrite {fid : UInt32} {offset : UInt64} {count : UInt32} {data : List UInt8}
    (length : data.length = count.toNat) (small : count.toNat + 23 < 2 ^ 31) :
    Fills (npCreateTwrite fid offset count data) .twrite
      (bytes32 fid ++ bytes64 offset ++ bytes32 count ++ data) := by
  have size : (4 + 8 + 4 + count : UInt32).toNat = 16 + count.toNat := by
    rw [UInt32.toNat_add]
    exact Nat.mod_eq_of_lt (by simpa using by omega)
  refine fills_of_exact ?_ ?_ ?_ ?_ (by omega)
  · simpa [putFidRange] using ⟨length, by omega⟩
  · simp [putFidRange]
  · simp [putFidRange, packed, PutOp.bytes]
  · simp only [List.length_append, bytes32_length, bytes64_length, size, length]

theorem fills_rread {count : UInt32} {data : List UInt8} (length : data.length = count.toNat)
    (small : count.toNat + 11 < 2 ^ 31) :
    Fills (npCreateRread count data) .rread (bytes32 count ++ data) := by
  have size : (4 + count : UInt32).toNat = 4 + count.toNat := by
    rw [UInt32.toNat_add]
    exact Nat.mod_eq_of_lt (by simpa using by omega)
  have total : (4 + count + 7 : UInt32).toNat = count.toNat + 11 := by
    rw [rreaddir_total]
    omega
  intro heap
  obtain ⟨fc, alloc, created⟩ := @npCreateRread_eq heap count data length small
  have announced : fc.size = 4 + count + 7 :=
    (npCreate_size (by simp) alloc).trans
      (npCreateCommon_size heap .rread (by omega))
  refine ⟨_, created, ?_, ?_⟩
  · simp only [announced, total, List.length_append, header_length, bytes32_length, length]
    omega
  · simp only [announced, List.append_assoc]

/-- The calls whose packets the size formula counts. -/
theorem BaseCall.fills_of_sized (dotu : Bool) (call : BaseCall) (given : call.Given)
    (sized : call.Sized) : Fills (call.run dotu) call.type (call.wire dotu) := by
  cases call with
  | twalk fid newfid wnames => exact fills_twalk given.1 given.2
  | rwalk wqids => exact fills_rwalk given
  | rread count data => exact fills_rread given sized
  | twrite fid offset count data => exact fills_twrite given sized
  | rstat wstat => exact fills_rstat given
  | twstat fid wstat => exact fills_twstat given
  | tversion msize version | rversion msize version | tcreate fid version perm mode =>
      simp only [BaseCall.Given] at given
      refine fills_ofNat ?_ ?_ ?_ ?_ (by omega)
      · simpa using given
      · simp
      · simp [packed, PutOp.bytes, BaseCall.wire, wireStr, CStr.bytes?]
      · simp [BaseCall.wire, wireStr, CStr.strlen]
        omega
  | rerror ename ecode =>
      simp only [BaseCall.Given] at given
      cases dotu
      all_goals
        refine fills_ofNat ?_ ?_ ?_ ?_ (by simp; omega)
        · simpa using given
        · simp
        · simp [packed, PutOp.bytes, BaseCall.wire, wireStr, CStr.bytes?]
        · simp [BaseCall.wire, wireStr, CStr.strlen, Nat.add_assoc]
  | tattach fid afid uname aname nUname =>
      obtain ⟨fitsUname, fitsAname⟩ := given
      cases dotu
      all_goals
        refine fills_ofNat ?_ ?_ ?_ ?_ (by simp; omega)
        · simpa using ⟨fitsUname, fitsAname⟩
        · simp
        · simp [packed, PutOp.bytes, BaseCall.wire, wireStr]
        · simp [BaseCall.wire, wireStr, strlen?]
          omega
  | _ =>
      refine fills_of_exact ?_ ?_ rfl rfl (by decide)
      · simp [putFid, putFidRange, putQidIounit, bufPutQid]
      · simp [putFid, putFidRange, putQidIounit, bufPutQid, fcQid]

/-! ## 9P2000.L -/

/-- `Rread` and `Rreaddir` announce a size that can wrap around. -/
theorem fills_rreaddir {count : UInt32} {data : List UInt8} (length : data.length = count.toNat)
    (small : count.toNat + 11 < 2 ^ 31) :
    Fills (npCreateRreaddir count data) .rreaddir (bytes32 count ++ data) := by
  have size : (4 + count : UInt32).toNat = 4 + count.toNat := by
    rw [UInt32.toNat_add]
    exact Nat.mod_eq_of_lt (by simpa using by omega)
  refine fills_of_exact ?_ ?_ ?_ ?_ (by omega)
  · simpa using ⟨length, by omega⟩
  · simp
  · simp [packed, PutOp.bytes]
  · simp only [List.length_append, bytes32_length, size, length]

/-- The calls whose packets the size formula counts. -/
theorem DotlCall.fills_of_sized (npErrnoToLinux : UInt32 → UInt32) (call : DotlCall)
    (given : call.InRange) (sized : call.Sized) :
    Fills (call.run npErrnoToLinux) call.type (call.wire npErrnoToLinux) := by
  cases call with
  | rstatfs stfs => exact sized.elim
  | tsetattr fid mask attrs => exact sized.elim
  | rreaddir count data => exact fills_rreaddir given sized
  | tlcreate | tmknod | trename | rreadlink | txattrwalk | txattrcreate | tlock | tgetlock
  | rgetlock | tlink | tmkdir | tunlinkat =>
      simp only [DotlCall.InRange] at given
      refine fills_ofNat ?_ ?_ ?_ ?_ (by omega)
      · simpa using given
      · simp
      · simp [packed, PutOp.bytes, DotlCall.wire, wireStr, CStr.bytes?]
      · simp [DotlCall.wire, wireStr, CStr.strlen]
        try omega
  | tsymlink | trenameat =>
      obtain ⟨fitsFirst, fitsSecond⟩ := given
      refine fills_ofNat ?_ ?_ ?_ ?_ (by omega)
      · simpa using ⟨fitsFirst, fitsSecond⟩
      · simp
      · simp [packed, PutOp.bytes, DotlCall.wire, wireStr, CStr.bytes?]
      · simp [DotlCall.wire, wireStr, CStr.strlen]
        omega
  | rgetattr mask attrs qid =>
      refine fills_of_exact ?_ ?_ ?_ ?_ (by decide)
      · simp [bufPutQid]
      · simp [bufPutQid, fcQid, fcAttrs]
      · simp only [DotlCall.wire]
        delta wireAttrs
        simp [bufPutQid, packed, PutOp.bytes, wireQid]
      · simp only [DotlCall.wire]
        delta wireAttrs
        simp [wireQid]
  | _ =>
      refine fills_of_exact ?_ ?_ rfl rfl (by decide)
      · simp [putFid, putFidRange, putQidIounit, bufPutQid]
      · simp [putFid, putFidRange, putQidIounit, bufPutQid, fcQid]

/-! ## Counts beyond a C `int` -/

/-- The size that `np_create_common` announces for a header, `n` bytes and `count` bytes of data,
when the addition wraps around or its result is negative as a C `int`. -/
theorem not_fills_of_large {create : Malloc → Option Npfcall} {type : MsgType} {size : UInt32}
    {wire : List UInt8} (total : (size + 7).toNat = (7 + wire.length) % 2 ^ 32)
    (large : 2 ^ 31 ≤ 7 + wire.length)
    (announced : ∀ heap fc, create heap = some fc →
      fc.size = (npCreateCommon heap size type).2.size) : ¬ Fills create type wire := by
  intro fills
  have bounded : 7 + wire.length < 2 ^ 32 := by
    obtain ⟨fc, created, filled⟩ := fills ⟨default, fun _ => 0⟩
    have size := filled.size
    have bound := fc.size.toNat_lt
    rw [filled.length] at size
    omega
  refine not_fills_of_size (fun heap fc created => ?_) fills
  rw [announced heap fc created]
  exact npCreateCommon_size_of_large heap type
    (by rw [total, Nat.mod_eq_of_lt bounded]; exact large)

theorem npCreateRread_size {count : UInt32} {data : List UInt8} {heap : Malloc} {fc : Npfcall}
    (created : npCreateRread count data heap = some fc) :
    fc.size = (npCreateCommon heap (4 + count) .rread).2.size := by
  obtain ⟨blank, alloc, rest⟩ := Option.bind_eq_some_iff.mp created
  have announced : blank.size = _ := npCreate_size (by simp) alloc
  rw [← announced]
  cases pointer : blank.data with
  | none =>
      simp only [pointer] at rest
      obtain rfl := Option.some.inj rest
      rfl
  | some ptr =>
      simp only [pointer] at rest
      obtain ⟨buf, move, result⟩ := Option.bind_eq_some_iff.mp rest
      obtain rfl := Option.some.inj result
      rfl

theorem not_fills_rread {count : UInt32} {data : List UInt8} (length : data.length = count.toNat)
    (large : ¬ count.toNat + 11 < 2 ^ 31) :
    ¬ Fills (npCreateRread count data) .rread (bytes32 count ++ data) := by
  refine not_fills_of_large ?_ ?_ fun heap fc created => npCreateRread_size created
  · rw [rreaddir_total]
    simp only [List.length_append, bytes32_length, length]
    omega
  · simp only [List.length_append, bytes32_length, length]
    omega

theorem not_fills_rreaddir {count : UInt32} {data : List UInt8}
    (length : data.length = count.toNat) (large : ¬ count.toNat + 11 < 2 ^ 31) :
    ¬ Fills (npCreateRreaddir count data) .rreaddir (bytes32 count ++ data) := by
  refine not_fills_of_large ?_ ?_ fun heap fc created =>
    npCreate_size (by simp) created
  · rw [rreaddir_total]
    simp only [List.length_append, bytes32_length, length]
    omega
  · simp only [List.length_append, bytes32_length, length]
    omega

theorem not_fills_twrite {fid : UInt32} {offset : UInt64} {count : UInt32} {data : List UInt8}
    (length : data.length = count.toNat) (large : ¬ count.toNat + 23 < 2 ^ 31) :
    ¬ Fills (npCreateTwrite fid offset count data) .twrite
      (bytes32 fid ++ bytes64 offset ++ bytes32 count ++ data) := by
  have total : (4 + 8 + 4 + count + 7 : UInt32).toNat = (count.toNat + 23) % 2 ^ 32 := by
    rw [UInt32.toNat_add, UInt32.toNat_add]
    simp
    omega
  refine not_fills_of_large ?_ ?_ fun heap fc created =>
    npCreate_size (by simp [putFidRange]) created
  · rw [total]
    simp only [List.length_append, bytes32_length, bytes64_length, length]
    omega
  · simp only [List.length_append, bytes32_length, bytes64_length, length]
    omega

/-! ## The formulas that count wrong -/

/-- `size_statfs` counts `bsize[4]` as eight bytes. -/
theorem not_fills_rstatfs (stfs : Npstatfs) :
    ¬ Fills (npCreateRstatfs stfs) .rstatfs (wireStatfs stfs) := by
  refine not_fills_of_length ⟨default, fun _ => 0⟩ fun fc created => ?_
  obtain ⟨packet, tail, made, content, length⟩ :=
    created_packet ⟨default, fun _ => 0⟩ .rstatfs
      (show ∀ op ∈ bufPutStatfs stfs, op.Fits by simp [bufPutStatfs])
      (show _ ≤ (UInt32.ofNat sizeStatfs).toNat by
        simp [bufPutStatfs, packed, PutOp.bytes, sizeStatfs])
      (by decide)
  obtain rfl := Option.some.inj (created.symm.trans made)
  rw [length]
  simp [sizeStatfs, wireStatfs]

/-- `np_create_tsetattr` returns `NULL`. -/
theorem not_fills_tsetattr (fid mask : UInt32) (attrs : Npattrs) (wire : List UInt8) :
    ¬ Fills (npCreateTsetattr fid mask attrs) .tsetattr wire := by
  intro fills
  obtain ⟨fc, created, filled⟩ := fills ⟨default, fun _ => 0⟩
  rw [npCreateTsetattr_eq_none] at created
  cases created

section Tauth

variable {fid nUname : UInt32} {uname aname : Option CStr}

theorem fills_tauth (fitsUname : strlen? uname < 2 ^ 16) (fitsAname : strlen? aname < 2 ^ 16) :
    Fills (npCreateTauth fid uname aname nUname false) .tauth
      (bytes32 fid ++ wireStr (CStr.bytes? uname) ++ wireStr (CStr.bytes? aname)) := by
  refine fills_ofNat ?_ ?_ ?_ ?_ (by omega)
  · simpa using ⟨fitsUname, fitsAname⟩
  · simp
  · simp [packed, PutOp.bytes, wireStr]
  · simp [wireStr, strlen?]
    omega

/-- With `dotu` there is no room for `n_uname`, which is dropped. -/
theorem not_fills_tauth (fitsUname : strlen? uname < 2 ^ 16) (fitsAname : strlen? aname < 2 ^ 16) :
    ¬ Fills (npCreateTauth fid uname aname nUname true) .tauth
      (bytes32 fid ++ wireStr (CStr.bytes? uname) ++ wireStr (CStr.bytes? aname) ++
        bytes32 nUname) := by
  obtain ⟨n, counted⟩ : ∃ n, 4 + 2 + 2 + strlen? uname + strlen? aname = n := ⟨_, rfl⟩
  have size := @toNat_ofNat32 n (by omega)
  refine not_fills_of_length ⟨default, fun _ => 0⟩ fun fc created => ?_
  obtain ⟨⟨buf, record⟩, stored, holds⟩ := execAll_holds
    (npCreateCommon_holds ⟨default, fun _ => 0⟩ .tauth
    (show (UInt32.ofNat n).toNat + 7 < 2 ^ 31 by omega))
    (show ∀ op ∈ [PutOp.int32 fid fun fc fid => { fc with fid },
      .str uname fun fc uname => { fc with uname },
      .str aname fun fc aname => { fc with aname }], op.Fits by
        simpa using ⟨fitsUname, fitsAname⟩)
    (by
      simp only [strlen?] at counted
      simp [packed, PutOp.bytes, size]
      omega)
  obtain ⟨length, window, position, placed⟩ := holds
  simp only at length window position
  have full : buf.p = buf.ep := by
    simp only [strlen?] at counted
    rw [window, position]
    simp [packed, PutOp.bytes, size]
    omega
  have dropped : bufPutInt32 nUname (fun fc nUname => { fc with nUname }) (buf, record) =
      (buf, record) := by
    rw [bufPutInt32, bufPut_missing (by simp only [bytes32_length]; omega), Cbuf.spoil,
      if_neg (by omega)]
  have passed : buf.bufCheckOverflow = false := decide_eq_false (by omega)
  rw [npCreateTauth, counted, if_pos rfl, npCreate, execAll_append, stored] at created
  simp only [Option.bind_eq_bind, Option.bind_some, PutOp.execAll, PutOp.exec, dropped, npPostCheck,
    passed] at created
  obtain rfl := Option.some.inj created
  simp only [strlen?] at counted
  simp [length, size, wireStr]
  omega

end Tauth

/-- Behind the cursor the packet is what it was before. -/
structure Cbuf.Untouched (before after : Cbuf) : Prop where
  onward : before.p ≤ after.p
  rest : ∀ k : Nat, after.p ≤ k → after.mem.drop k = before.mem.drop k

theorem Cbuf.Untouched.trans {before between after : Cbuf} (first : before.Untouched between)
    (second : between.Untouched after) : before.Untouched after :=
  ⟨first.onward.trans second.onward, fun k behind =>
    (second.rest k behind).trans (first.rest k (second.onward.trans behind))⟩

theorem put_untouched {buf : Cbuf} {bytes : List UInt8} (lower : 0 ≤ buf.p)
    (inside : buf.p ≤ buf.mem.length) : buf.Untouched (buf.put bytes) := by
  refine ⟨by simp only [Cbuf.put]; omega, fun k behind => ?_⟩
  simp only [Cbuf.put] at behind ⊢
  exact drop_store (by omega) (by omega)

theorem bufPut_untouched {β : Type} {bytes : List UInt8} {val : β} {pval : Npfcall → β → Npfcall}
    {packing : Packing} {size : Nat} (near : packing.Near size) :
    packing.1.Untouched (bufPut bytes val pval packing).1 := by
  obtain ⟨buf, fc⟩ := packing
  obtain ⟨length, window, lower, upper⟩ := near
  simp only at length window lower upper
  by_cases room : buf.p + bytes.length ≤ buf.ep
  · rw [bufPut_eq room]
    exact put_untouched lower (show buf.p ≤ buf.mem.length by omega)
  · rw [bufPut_missing (not_le.mp room), Cbuf.spoil]
    split
    · exact ⟨by simp only; omega, fun k behind => rfl⟩
    · exact ⟨le_refl _, fun k behind => rfl⟩

theorem bufPutHeader_untouched {size : UInt32} {type : MsgType} {packing : Packing} {n : Nat}
    (near : packing.Near n) : packing.1.Untouched (bufPutHeader size type packing).1 :=
  (bufPut_untouched near).trans
    ((bufPut_untouched (bufPut_near near)).trans
    (bufPut_untouched (bufPut_near (bufPut_near near))))

theorem blankPacket_near (heap : Malloc) {size : UInt32} (small : size.toNat < 2 ^ 31) :
    Packing.Near size.toNat (blankPacket heap size, heap.fc) := by
  refine ⟨by simp [blankPacket, Cbuf.bufInit], ?_, le_refl _, ?_⟩
  · simp [blankPacket, Cbuf.bufInit, cint_of_lt small]
  · simp [blankPacket, Cbuf.bufInit]
    omega

/-- A constructor that stops in front of the last byte leaves there what the memory held. -/
theorem last_untouched {heap : Malloc} {size : UInt32} {packing : Packing} {fc : Npfcall}
    (small : size.toNat + 7 < 2 ^ 31)
    (untouched : (blankPacket heap (size + 7)).Untouched packing.1)
    (position : packing.1.p ≤ size.toNat + 6) (passed : npPostCheck packing = some fc) :
    fc.pkt.drop (size.toNat + 6) = [heap.byte (size.toNat + 6)] := by
  have total : (size + 7).toNat = size.toNat + 6 + 1 := by
    rw [UInt32.toNat_add]
    exact Nat.mod_eq_of_lt (by simpa using by omega)
  have pkt : fc.pkt = packing.1.mem := by
    unfold npPostCheck at passed
    split at passed
    · cases passed
    · obtain rfl := Option.some.inj passed
      rfl
  rw [pkt, untouched.rest _ (by omega)]
  simp only [blankPacket, Cbuf.bufInit, total, ← List.map_drop]
  rw [List.range_succ, List.drop_left' List.length_range]
  rfl

/-- `np_create_rerror1` leaves out the length of the name, and so the last byte of the packet. -/
theorem npCreateRerror1_last {ename : List UInt8} {ecode : UInt32} {dotu : Bool} {heap : Malloc}
    {fc : Npfcall} {n : Nat} (fits : ename.length < 2 ^ 16)
    (counted : (2 + ename.length + if dotu then 4 else 0) = n)
    (created : npCreateRerror1 ename ecode dotu heap = some fc) :
    fc.pkt.drop (n + 6) = [heap.byte (n + 6)] := by
  have most : n < 2 ^ 17 := by
    split at counted <;> omega
  have size := @toNat_ofNat32 n (by omega)
  rw [npCreateRerror1, counted] at created
  have holds := @npCreateCommon_holds heap (.ofNat n) .rerror (by omega)
  have start : (blankPacket heap (.ofNat n + 7)).Untouched
      (npCreateCommon heap (.ofNat n) .rerror).1 := by
    refine bufPutHeader_untouched (blankPacket_near heap ?_)
    rw [UInt32.toNat_add, size]
    exact lt_of_le_of_lt (Nat.mod_le _ _) (by simpa using by omega)
  obtain ⟨⟨buf, record⟩, packingEq⟩ : ∃ packing, npCreateCommon heap (.ofNat n) .rerror = packing :=
    ⟨_, rfl⟩
  rw [packingEq] at created holds start
  have room : (header (.ofNat n + 7) .rerror NOTAG).length + ename.length ≤
      (UInt32.ofNat n).toNat + 7 := by
    simp only [header_length]
    omega
  have position : buf.p = 7 := holds.position
  have memLength : buf.mem.length = n + 7 := by rw [holds.length, size]
  have named : buf.Untouched (buf.put ename) := put_untouched (by omega) (by omega)
  simp only [bufAlloc_eq (holds.room room), memmove_alloc holds room, Option.bind_eq_bind,
    Option.bind_some] at created
  rw [← size]
  cases dotu with
  | false =>
      refine last_untouched (by omega) (start.trans named) ?_ created
      simp only [Cbuf.put, Bool.false_eq_true, if_false] at counted ⊢
      omega
  | true =>
      have window : buf.ep = n + 7 := by
        rw [holds.window, size]
        rfl
      simp only [if_true] at counted created
      have space : (buf.put ename).p + (bytes32 ecode).length ≤ (buf.put ename).ep := by
        simp only [Cbuf.put, bytes32_length]
        omega
      rw [bufPutInt32, bufPut_eq space] at created
      have namedLength : (buf.put ename).mem.length = n + 7 := by
        rw [← size]
        exact (@Packing.Holds.put _ _ _ buf record record holds room).length
      have coded : (buf.put ename).Untouched ((buf.put ename).put (bytes32 ecode)) := by
        refine put_untouched (by simp only [Cbuf.put]; omega) ?_
        rw [namedLength]
        simp only [Cbuf.put]
        omega
      refine last_untouched (by omega) ((start.trans named).trans coded) ?_ created
      simp only [Cbuf.put, bytes32_length]
      omega

theorem not_fills_rerror1 {ename : List UInt8} {ecode : UInt32} {dotu : Bool}
    (fits : ename.length < 2 ^ 16) :
    ¬ Fills (npCreateRerror1 ename ecode dotu) .rerror
      (wireStr ename ++ if dotu then bytes32 ecode else []) := by
  obtain ⟨n, counted⟩ : ∃ n, (2 + ename.length + if dotu then 4 else 0) = n := ⟨_, rfl⟩
  obtain ⟨wire, wireEq⟩ : ∃ wire, (wireStr ename ++ if dotu then bytes32 ecode else []) = wire :=
    ⟨_, rfl⟩
  have least : 2 ≤ n := by omega
  rw [wireEq]
  intro fills
  -- The last byte of the packet is the last byte of the fields, and also that of any memory.
  have last : ∀ byte : UInt8, wire.drop (n - 1) = [byte] := by
    intro byte
    obtain ⟨fc, created, filled⟩ := fills ⟨default, fun _ => byte⟩
    have behind : (header fc.size .rerror NOTAG).length ≤ n + 6 := by
      simp only [header_length]
      omega
    have ending := npCreateRerror1_last fits counted created
    rw [filled.pkt, List.drop_append, List.drop_eq_nil_of_le behind, List.nil_append] at ending
    rw [← ending, header_length]
    exact congrArg (wire.drop ·) (by omega)
  have same := (last 0).symm.trans (last 1)
  simp at same

/-! ## All calls -/

/-- A constructor fills its packet exactly when its size formula counts the fields. -/
theorem CreateCall.fills_iff (npErrnoToLinux : UInt32 → UInt32) (dotu : Bool) (call : CreateCall)
    (given : call.Given) : call.Fills npErrnoToLinux dotu ↔ call.Sized dotu := by
  cases call with
  | base call =>
      refine ⟨fun fills => ?_, fun sized => call.fills_of_sized dotu given sized⟩
      cases call with
      | rread count data => exact not_not.mp fun large => not_fills_rread given large fills
      | twrite fid offset count data =>
          exact not_not.mp fun large => not_fills_twrite given large fills
      | _ => exact trivial
  | dotl call =>
      refine ⟨fun fills => ?_, fun sized => call.fills_of_sized npErrnoToLinux given sized⟩
      cases call with
      | rreaddir count data => exact not_not.mp fun large => not_fills_rreaddir given large fills
      | rstatfs stfs => exact not_fills_rstatfs stfs fills
      | tsetattr fid mask attrs => exact not_fills_tsetattr fid mask attrs _ fills
      | _ => exact trivial
  | tauth fid uname aname nUname =>
      obtain ⟨fitsUname, fitsAname⟩ := given
      cases dotu with
      | false =>
          refine iff_of_true ?_ rfl
          change Npfs.Fills _ _ (_ ++ [])
          rw [List.append_nil]
          exact fills_tauth fitsUname fitsAname
      | true =>
          refine iff_of_false (not_fills_tauth fitsUname fitsAname) fun legacy => ?_
          cases legacy
  | rerror1 ename ecode => exact iff_of_false (not_fills_rerror1 given) id
  | lerror ecode =>
      refine iff_of_true (fills_of_exact ?_ ?_ rfl rfl (by decide)) trivial
      · simp
      · simp
  | rgetlock type offset length procid clientid =>
      cases clientid with
      | none =>
          refine iff_of_false (fun fills => ?_) fun given => given rfl
          obtain ⟨fc, created, filled⟩ := fills ⟨default, fun _ => 0⟩
          cases created
      | some clientid =>
          refine iff_of_true (DotlCall.fills_of_sized npErrnoToLinux
            (.rgetlock type offset length procid clientid) given trivial) fun missing => ?_
          cases missing

theorem CreateCall.fills_iff_tread :
    (CreateCall.base (.tread 1 0 100)).Fills id true ↔
      (CreateCall.base (.tread 1 0 100)).Sized true :=
  CreateCall.fills_iff id true _ trivial

/-- `np_create_rstatfs` leaves four bytes of its packet unwritten. -/
theorem CreateCall.not_fills_all : ¬ ∀ (npErrnoToLinux : UInt32 → UInt32) (dotu : Bool)
    (call : CreateCall), call.Given → call.Fills npErrnoToLinux dotu := by
  intro fills
  exact not_fills_rstatfs default (fills id false (.dotl (.rstatfs default)) trivial)

end Npfs
