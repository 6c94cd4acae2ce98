import Npfs.CreateDotl
import Npfs.RoundTrip

/-!
# Round trip of 9P2000.L

Every constructor of `Npfs.CreateDotl` builds a packet that `np_deserialize` reads back, except
three: `np_create_tsetattr` counts twelve bytes too few and returns `NULL`, `np_create_rgetlock`
stores no fid where the parser reads one, and `np_create_rreaddir` cannot count beyond a C `int`.
-/

namespace Npfs

open LittleEndian Program

namespace DotlCall

/-- The arguments that the wire can carry. -/
def InRange : DotlCall → Prop
  | .tlcreate _ name _ _ _ | .tmknod _ name _ _ _ _ | .trename _ _ name | .rreadlink name
  | .txattrwalk _ _ name | .txattrcreate _ name _ _ | .tlock _ _ _ _ _ _ name
  | .tgetlock _ _ _ _ _ name | .rgetlock _ _ _ _ name | .tlink _ _ name | .tmkdir _ name _ _
  | .tunlinkat _ name _ => name.strlen < 2 ^ 16
  | .tsymlink _ name symtgt _ => name.strlen < 2 ^ 16 ∧ symtgt.strlen < 2 ^ 16
  | .trenameat _ oname _ nname => oname.strlen < 2 ^ 16 ∧ nname.strlen < 2 ^ 16
  | .rreaddir count data => data.length = count.toNat
  | _ => True

/-- The message carries the arguments of the call, in the fields in which they are looked for. -/
def Carried (npErrnoToLinux : UInt32 → UInt32) (call : DotlCall) (pkt : List UInt8)
    (fc : Npfcall) : Prop :=
  match call with
  | .rlerror ecode => fc.ecode = npErrnoToLinux ecode
  | .tstatfs fid | .treadlink fid | .tfsync fid => fc.fid = fid
  | .rstatfs stfs => fc.stfs = stfs
  | .tlopen fid flags => fc.fid = fid ∧ fc.flags = flags
  | .rlopen qid iounit | .rlcreate qid iounit => fc.qid = qid ∧ fc.iounit = iounit
  | .tlcreate fid name flags mode gid =>
    fc.fid = fid ∧ StrAt pkt fc.name name.bytes ∧ fc.flags = flags ∧ fc.perm = mode ∧ fc.gid = gid
  | .tsymlink dfid name symtgt gid =>
    fc.dfid = dfid ∧ StrAt pkt fc.name name.bytes ∧ StrAt pkt fc.symtgt symtgt.bytes ∧ fc.gid = gid
  | .rsymlink qid | .rmknod qid | .rmkdir qid => fc.qid = qid
  | .tmknod dfid name mode major minor gid =>
    fc.fid = dfid ∧ StrAt pkt fc.name name.bytes ∧ fc.perm = mode ∧ fc.major = major ∧
      fc.minor = minor ∧ fc.gid = gid
  | .trename fid dfid name => fc.fid = fid ∧ fc.dfid = dfid ∧ StrAt pkt fc.name name.bytes
  | .rreadlink target => StrAt pkt fc.symtgt target.bytes
  | .tgetattr fid mask => fc.fid = fid ∧ fc.mask = mask
  | .rgetattr mask attrs qid =>
    fc.mask = mask ∧ fc.qid = qid ∧ fc.attrs = { attrs with mask := fc.attrs.mask }
  | .tsetattr fid mask attrs =>
    fc.fid = fid ∧ fc.attrs.mask = mask.toUInt64 ∧ fc.attrs.mode = attrs.mode ∧
      fc.attrs.uid = attrs.uid ∧ fc.attrs.gid = attrs.gid ∧ fc.attrs.size = attrs.size ∧
      fc.attrs.atimeSec = attrs.atimeSec ∧ fc.attrs.atimeNsec = attrs.atimeNsec ∧
      fc.attrs.mtimeSec = attrs.mtimeSec ∧ fc.attrs.mtimeNsec = attrs.mtimeNsec
  | .txattrwalk fid newfid name =>
    fc.fid = fid ∧ fc.newfid = newfid ∧ StrAt pkt fc.name name.bytes
  | .rxattrwalk asize => fc.asize = asize
  | .txattrcreate fid name asize flags =>
    fc.fid = fid ∧ StrAt pkt fc.name name.bytes ∧ fc.asize = asize ∧ fc.flags = flags
  | .treaddir fid offset count => fc.fid = fid ∧ fc.offset = offset ∧ fc.count = count
  | .rreaddir count data => fc.count = count ∧ DataAt pkt fc.data data
  | .tlock fid type flags offset length procid clientid =>
    fc.fid = fid ∧ fc.locktype = type ∧ fc.flags = flags ∧ fc.offset = offset ∧
      fc.locklength = length ∧ fc.procid = procid ∧ StrAt pkt fc.clientid clientid.bytes
  | .rlock status => fc.lockstatus = status
  | .tgetlock fid type offset length procid clientid =>
    fc.fid = fid ∧ fc.locktype = type ∧ fc.offset = offset ∧ fc.locklength = length ∧
      fc.procid = procid ∧ StrAt pkt fc.clientid clientid.bytes
  | .rgetlock type offset length procid clientid =>
    fc.locktype = type ∧ fc.offset = offset ∧ fc.locklength = length ∧ fc.procid = procid ∧
      StrAt pkt fc.clientid clientid.bytes
  | .tlink dfid fid name => fc.dfid = dfid ∧ fc.fid = fid ∧ StrAt pkt fc.name name.bytes
  | .tmkdir dfid name mode gid =>
    fc.fid = dfid ∧ StrAt pkt fc.name name.bytes ∧ fc.perm = mode ∧ fc.gid = gid
  | .trenameat odfid oname ndfid nname =>
    fc.fid = odfid ∧ StrAt pkt fc.oname oname.bytes ∧ fc.newfid = ndfid ∧
      StrAt pkt fc.name nname.bytes
  | .tunlinkat dfid name flags =>
    fc.fid = dfid ∧ StrAt pkt fc.name name.bytes ∧ fc.flags = flags
  | .rrename | .rsetattr | .rxattrcreate | .rfsync | .rlink | .rrenameat | .runlinkat => True

/-- The calls whose arguments come back. -/
def Recoverable : DotlCall → Prop
  | .tsetattr .. | .rgetlock .. => False
  | .rreaddir count _ => count.toNat + 11 < 2 ^ 31
  | _ => True

/-- The call builds a packet that is read back with its arguments. -/
def RoundTrips (npErrnoToLinux : UInt32 → UInt32) (dotu : Bool) (call : DotlCall) : Prop :=
  RoundTrip (call.run npErrnoToLinux) dotu call.type (call.Carried npErrnoToLinux)

end DotlCall

section Strings

variable {npErrnoToLinux : UInt32 → UInt32} {dotu : Bool} {fid flags mode gid : UInt32}
  {name : CStr}

theorem roundTrip_tlcreate (fits : name.strlen < 2 ^ 16) :
    (DotlCall.tlcreate fid name flags mode gid).RoundTrips npErrnoToLinux dotu := by
  refine roundTrip_ofNat (by simpa using fits) ?_ (by omega) fun pkt fc => ?_
  · simp [packed, PutOp.bytes, CStr.bytes?, CStr.strlen]
    omega
  · exact reads_int32 (reads_str fits fun s stored => reads_int32 (reads_int32 (reads_int32
      (reads_parsed ⟨rfl, rfl, rfl⟩ ⟨rfl, stored, rfl, rfl, rfl⟩))))

theorem roundTrip_tsymlink {symtgt : CStr} (fitsName : name.strlen < 2 ^ 16)
    (fitsSymtgt : symtgt.strlen < 2 ^ 16) :
    (DotlCall.tsymlink fid name symtgt gid).RoundTrips npErrnoToLinux dotu := by
  refine roundTrip_ofNat (by simpa using ⟨fitsName, fitsSymtgt⟩) ?_ (by omega)
    fun pkt fc => ?_
  · simp [packed, PutOp.bytes, CStr.bytes?, CStr.strlen]
    omega
  · exact reads_int32 (reads_str fitsName fun s nameAt => reads_str fitsSymtgt fun t symtgtAt =>
      reads_int32 (reads_parsed ⟨rfl, rfl, rfl⟩ ⟨rfl, nameAt, symtgtAt, rfl⟩))

theorem roundTrip_tmknod {major minor : UInt32} (fits : name.strlen < 2 ^ 16) :
    (DotlCall.tmknod fid name mode major minor gid).RoundTrips npErrnoToLinux dotu := by
  refine roundTrip_ofNat (by simpa using fits) ?_ (by omega) fun pkt fc => ?_
  · simp [packed, PutOp.bytes, CStr.bytes?, CStr.strlen]
    omega
  · exact reads_int32 (reads_str fits fun s stored => reads_int32 (reads_int32 (reads_int32
      (reads_int32 (reads_parsed ⟨rfl, rfl, rfl⟩ ⟨rfl, stored, rfl, rfl, rfl, rfl⟩)))))

theorem roundTrip_trename {dfid : UInt32} (fits : name.strlen < 2 ^ 16) :
    (DotlCall.trename fid dfid name).RoundTrips npErrnoToLinux dotu := by
  refine roundTrip_ofNat (by simpa using fits) ?_ (by omega) fun pkt fc => ?_
  · simp [packed, PutOp.bytes, CStr.bytes?, CStr.strlen]
    omega
  · exact reads_int32 (reads_int32 (reads_str fits fun s stored =>
      reads_parsed ⟨rfl, rfl, rfl⟩ ⟨rfl, rfl, stored⟩))

theorem roundTrip_rreadlink (fits : name.strlen < 2 ^ 16) :
    (DotlCall.rreadlink name).RoundTrips npErrnoToLinux dotu := by
  refine roundTrip_ofNat (by simpa using fits) ?_ (by omega) fun pkt fc => ?_
  · simp [packed, PutOp.bytes, CStr.bytes?, CStr.strlen]
  · exact reads_str fits fun s stored => reads_parsed ⟨rfl, rfl, rfl⟩ stored

theorem roundTrip_txattrwalk {newfid : UInt32} (fits : name.strlen < 2 ^ 16) :
    (DotlCall.txattrwalk fid newfid name).RoundTrips npErrnoToLinux dotu := by
  refine roundTrip_ofNat (by simpa using fits) ?_ (by omega) fun pkt fc => ?_
  · simp [packed, PutOp.bytes, CStr.bytes?, CStr.strlen]
    omega
  · exact reads_int32 (reads_int32 (reads_str fits fun s stored =>
      reads_parsed ⟨rfl, rfl, rfl⟩ ⟨rfl, rfl, stored⟩))

theorem roundTrip_txattrcreate {asize : UInt64} (fits : name.strlen < 2 ^ 16) :
    (DotlCall.txattrcreate fid name asize flags).RoundTrips npErrnoToLinux dotu := by
  refine roundTrip_ofNat (by simpa using fits) ?_ (by omega) fun pkt fc => ?_
  · simp [packed, PutOp.bytes, CStr.bytes?, CStr.strlen]
    omega
  · exact reads_int32 (reads_str fits fun s stored => reads_int64 (reads_int32
      (reads_parsed ⟨rfl, rfl, rfl⟩ ⟨rfl, stored, rfl, rfl⟩)))

theorem roundTrip_tlock {type : UInt8} {offset length : UInt64} {procid : UInt32}
    (fits : name.strlen < 2 ^ 16) :
    (DotlCall.tlock fid type flags offset length procid name).RoundTrips npErrnoToLinux dotu := by
  refine roundTrip_ofNat (by simpa using fits) ?_ (by omega) fun pkt fc => ?_
  · simp [packed, PutOp.bytes, CStr.bytes?, CStr.strlen]
    omega
  · exact reads_int32 (reads_int8 (reads_int32 (reads_int64 (reads_int64 (reads_int32
      (reads_str fits fun s stored =>
        reads_parsed ⟨rfl, rfl, rfl⟩ ⟨rfl, rfl, rfl, rfl, rfl, rfl, stored⟩))))))

theorem roundTrip_tgetlock {type : UInt8} {offset length : UInt64} {procid : UInt32}
    (fits : name.strlen < 2 ^ 16) :
    (DotlCall.tgetlock fid type offset length procid name).RoundTrips npErrnoToLinux dotu := by
  refine roundTrip_ofNat (by simpa using fits) ?_ (by omega) fun pkt fc => ?_
  · simp [packed, PutOp.bytes, CStr.bytes?, CStr.strlen]
    omega
  · exact reads_int32 (reads_int8 (reads_int64 (reads_int64 (reads_int32
      (reads_str fits fun s stored =>
        reads_parsed ⟨rfl, rfl, rfl⟩ ⟨rfl, rfl, rfl, rfl, rfl, stored⟩)))))

theorem roundTrip_tlink {dfid : UInt32} (fits : name.strlen < 2 ^ 16) :
    (DotlCall.tlink dfid fid name).RoundTrips npErrnoToLinux dotu := by
  refine roundTrip_ofNat (by simpa using fits) ?_ (by omega) fun pkt fc => ?_
  · simp [packed, PutOp.bytes, CStr.bytes?, CStr.strlen]
    omega
  · exact reads_int32 (reads_int32 (reads_str fits fun s stored =>
      reads_parsed ⟨rfl, rfl, rfl⟩ ⟨rfl, rfl, stored⟩))

theorem roundTrip_tmkdir (fits : name.strlen < 2 ^ 16) :
    (DotlCall.tmkdir fid name mode gid).RoundTrips npErrnoToLinux dotu := by
  refine roundTrip_ofNat (by simpa using fits) ?_ (by omega) fun pkt fc => ?_
  · simp [packed, PutOp.bytes, CStr.bytes?, CStr.strlen]
    omega
  · exact reads_int32 (reads_str fits fun s stored => reads_int32 (reads_int32
      (reads_parsed ⟨rfl, rfl, rfl⟩ ⟨rfl, stored, rfl, rfl⟩)))

theorem roundTrip_trenameat {newfid : UInt32} {nname : CStr} (fitsOname : name.strlen < 2 ^ 16)
    (fitsNname : nname.strlen < 2 ^ 16) :
    (DotlCall.trenameat fid name newfid nname).RoundTrips npErrnoToLinux dotu := by
  refine roundTrip_ofNat (by simpa using ⟨fitsOname, fitsNname⟩) ?_ (by omega)
    fun pkt fc => ?_
  · simp [packed, PutOp.bytes, CStr.bytes?, CStr.strlen]
    omega
  · exact reads_int32 (reads_str fitsOname fun s onameAt => reads_int32
      (reads_str fitsNname fun t nnameAt =>
        reads_parsed ⟨rfl, rfl, rfl⟩ ⟨rfl, onameAt, rfl, nnameAt⟩))

theorem roundTrip_tunlinkat (fits : name.strlen < 2 ^ 16) :
    (DotlCall.tunlinkat fid name flags).RoundTrips npErrnoToLinux dotu := by
  refine roundTrip_ofNat (by simpa using fits) ?_ (by omega) fun pkt fc => ?_
  · simp [packed, PutOp.bytes, CStr.bytes?, CStr.strlen]
    omega
  · exact reads_int32 (reads_str fits fun s stored => reads_int32
      (reads_parsed ⟨rfl, rfl, rfl⟩ ⟨rfl, stored, rfl⟩))

end Strings

theorem roundTrip_rgetattr {npErrnoToLinux : UInt32 → UInt32} {dotu : Bool} {mask : UInt64}
    {attrs : Npattrs} {qid : Npqid} :
    (DotlCall.rgetattr mask attrs qid).RoundTrips npErrnoToLinux dotu := by
  refine @roundTrip_ofNat .rgetattr 153 _ _ _ (by simp [bufPutQid]) rfl (by omega)
    fun pkt fc => ?_
  exact reads_int64 (reads_qid (reads_int32 (reads_int32 (reads_int32 (reads_int64 (reads_int64
    (reads_int64 (reads_int64 (reads_int64 (reads_int64 (reads_int64 (reads_int64 (reads_int64
      (reads_int64 (reads_int64 (reads_int64 (reads_int64 (reads_int64 (reads_int64
        (reads_parsed ⟨rfl, rfl, rfl⟩ ⟨rfl, rfl, rfl⟩))))))))))))))))))))

/-- The size formula counts four bytes too many; they stay behind the fields. -/
theorem roundTrip_rstatfs {npErrnoToLinux : UInt32 → UInt32} {dotu : Bool} {stfs : Npstatfs} :
    (DotlCall.rstatfs stfs).RoundTrips npErrnoToLinux dotu := by
  refine roundTrip_of_reads (by simp [bufPutStatfs]) ?_ ?_ fun tail pkt fc _ => ?_
  · simp [packed, bufPutStatfs, PutOp.bytes, sizeStatfs]
  · simp [sizeStatfs]
  · exact reads_statfs (reads_parsed ⟨rfl, rfl, rfl⟩ rfl)

theorem roundTrip_rreaddir {npErrnoToLinux : UInt32 → UInt32} {dotu : Bool} {count : UInt32}
    {data : List UInt8} (length : data.length = count.toNat)
    (small : count.toNat + 11 < 2 ^ 31) :
    (DotlCall.rreaddir count data).RoundTrips npErrnoToLinux dotu := by
  have size : (4 + count : UInt32).toNat = 4 + count.toNat := by
    rw [UInt32.toNat_add]
    exact Nat.mod_eq_of_lt (by simpa using by omega)
  refine roundTrip_of_reads (by simpa using ⟨length, by omega⟩) ?_ (by omega)
    fun tail pkt fc _ => ?_
  · simp [packed, PutOp.bytes, size, length]
  · exact reads_int32 (reads_alloc (by rw [cint_of_lt (by omega), ← length]; rfl) fun ptr stored =>
      reads_parsed ⟨rfl, rfl, rfl⟩ ⟨rfl, stored⟩)

/-! ## The three constructors that fail -/

theorem execAll_append (first second : List PutOp) (packing : Packing) :
    PutOp.execAll (first ++ second) packing =
      PutOp.execAll first packing >>= PutOp.execAll second := by
  induction first generalizing packing with
  | nil => rfl
  | cons op ops ih =>
      simp only [List.cons_append, PutOp.execAll, bind_assoc]
      exact congrArg _ (funext ih)

theorem bufPut_missing {β : Type} {bytes : List UInt8} {val : β} {pval : Npfcall → β → Npfcall}
    {buf : Cbuf} {fc : Npfcall} (missing : buf.ep < buf.p + bytes.length) :
    bufPut bytes val pval (buf, fc) = (buf.spoil, fc) := by
  simp [bufPut, Cbuf.bufCheckSize, missing, Cbuf.spoil]

/-- Two words at the end of the fields, of which the first is cut off, make the constructor
return `NULL`. -/
theorem post_overrun {front : List UInt8} {size : Nat} {packing : Packing} {first second : UInt64}
    {set set' : Npfcall → UInt64 → Npfcall} (holds : packing.Holds size front)
    (inside : front.length < size) (cut : size < front.length + 8) :
    (PutOp.execAll [.int64 first set, .int64 second set'] packing >>= npPostCheck) = none := by
  obtain ⟨buf, fc⟩ := packing
  obtain ⟨length, window, position, placed⟩ := holds
  simp only at window position
  have spoiled : buf.spoil = { buf with p := buf.ep + 1 } := if_pos (by omega)
  have missing : bufPutInt64 first set (buf, fc) = (buf.spoil, fc) :=
    bufPut_missing (by simp only [bytes64_length]; omega)
  have again : bufPutInt64 second set' (buf.spoil, fc) = (buf.spoil, fc) := by
    rw [spoiled]
    exact (bufPut_missing (by simp only [bytes64_length]; omega)).trans
      (by simp [Cbuf.spoil])
  have overflow : buf.spoil.bufCheckOverflow = true := by
    rw [spoiled]
    exact decide_eq_true (by simp)
  simp [PutOp.execAll, PutOp.exec, missing, again, npPostCheck, overflow]

/-- `np_create_tsetattr` runs over its own size formula and returns `NULL`. -/
theorem npCreateTsetattr_eq_none (fid mask : UInt32) (attrs : Npattrs) (heap : Malloc) :
    npCreateTsetattr fid mask attrs heap = none := by
  obtain ⟨packing, stored, holds⟩ := execAll_holds
    (npCreateCommon_holds heap .tsetattr
      (show (4 + 4 + 4 + 4 + 8 + 8 + 8 + 8 : UInt32).toNat + 7 < 2 ^ 31 by decide))
    (show ∀ op ∈ putSetattr fid mask attrs, op.Fits by simp [putSetattr])
    (by simp [putSetattr, packed, PutOp.bytes])
  rw [npCreateTsetattr, npCreate, execAll_append, stored]
  exact post_overrun holds (by simp [putSetattr, packed, PutOp.bytes])
    (by simp [putSetattr, packed, PutOp.bytes])

/-- Behind its end a packet takes no more fields. -/
theorem bufPut_behind {β : Type} {bytes : List UInt8} {val : β} {pval : Npfcall → β → Npfcall}
    {buf : Cbuf} {fc : Npfcall} (behind : buf.ep < buf.p) :
    bufPut bytes val pval (buf, fc) = (buf, fc) := by
  rw [bufPut_missing (by omega), Cbuf.spoil, if_neg (by omega)]

/-- The cursor of a packet of `size` bytes is at most one byte behind its end. -/
structure Packing.Near (size : Nat) (packing : Packing) : Prop where
  length : packing.1.mem.length = size
  window : packing.1.ep = size
  lower : 0 ≤ packing.1.p
  upper : packing.1.p ≤ size + 1

theorem bufPut_near {β : Type} {bytes : List UInt8} {val : β} {pval : Npfcall → β → Npfcall}
    {size : Nat} {packing : Packing} (near : packing.Near size) :
    (bufPut bytes val pval packing).Near size := by
  obtain ⟨buf, fc⟩ := packing
  obtain ⟨length, window, lower, upper⟩ := near
  simp only at length window lower upper
  by_cases room : buf.p + bytes.length ≤ buf.ep
  · rw [bufPut_eq room]
    refine ⟨?_, window, ?_, ?_⟩
    · simp [Cbuf.put, store]
      omega
    · simp only [Cbuf.put]
      omega
    · simp only [Cbuf.put]
      omega
  · rw [bufPut_missing (not_le.mp room)]
    by_cases inside : buf.p < buf.ep
    · rw [Cbuf.spoil, if_pos inside]
      exact ⟨length, window, by simp only; omega, by simp only; omega⟩
    · rw [Cbuf.spoil, if_neg inside]
      exact ⟨length, window, lower, upper⟩

theorem rreaddir_total {count : UInt32} : (4 + count + 7 : UInt32).toNat =
    (count.toNat + 11) % 2 ^ 32 := by
  rw [UInt32.toNat_add, UInt32.toNat_add]
  simp
  omega

/-- The frame of `np_create_rreaddir` when the packet is too large for a C `int`. -/
theorem npCreateRreaddir_negative {count : UInt32} {data : List UInt8} (heap : Malloc)
    (large : 2 ^ 31 ≤ count.toNat + 11) (small : count.toNat + 11 < 2 ^ 32) :
    ∃ buf : Cbuf, buf.mem.length = count.toNat + 11 ∧ buf.p = 0 ∧
      buf.ep = (count.toNat + 11 : Int) - 2 ^ 32 ∧
      npCreateRreaddir count data heap =
        ((PutOp.data count data false).exec (buf, heap.fc) >>= npPostCheck) := by
  have total : (4 + count + 7 : UInt32).toNat = count.toNat + 11 := by
    rw [rreaddir_total, Nat.mod_eq_of_lt small]
  have window : cint (4 + count + 7) = (count.toNat + 11 : Int) - 2 ^ 32 := by
    rw [cint_of_ge (by omega), total]
    push_cast
    rfl
  have behind : (blankPacket heap (4 + count + 7)).ep < (blankPacket heap (4 + count + 7)).p := by
    simp only [blankPacket, Cbuf.bufInit, window]
    omega
  have untouched : npCreateCommon heap (4 + count) .rreaddir =
      (blankPacket heap (4 + count + 7), heap.fc) := by
    change bufPutHeader (4 + count + 7) .rreaddir (blankPacket heap (4 + count + 7), heap.fc) = _
    simp only [bufPutHeader, bufPutInt32, bufPutInt8, bufPutInt16, bufPut_behind behind]
  refine ⟨blankPacket heap (4 + count + 7), by simp [blankPacket, Cbuf.bufInit, total], rfl,
    by simp [blankPacket, Cbuf.bufInit, window], ?_⟩
  rw [npCreateRreaddir, npCreate, untouched]
  simp only [PutOp.execAll, PutOp.exec, bufPutInt32, bufPut_behind behind]
  simp

theorem bufAlloc_missing {buf : Cbuf} {len : Int} (missing : buf.ep < buf.p + len) :
    buf.bufAlloc len = (none, buf.spoil) := @GetOp.exec_of_missing (.alloc len) buf missing

theorem bufAlloc_mem (buf : Cbuf) (len : Int) : (buf.bufAlloc len).2.mem = buf.mem := by
  by_cases room : buf.p + len ≤ buf.ep
  · rw [bufAlloc_eq room]
    rfl
  · rw [bufAlloc_missing (not_le.mp room), Cbuf.spoil]
    split <;> rfl

/-- Copying more bytes than there is room for writes outside the packet. -/
theorem data_overflow {count : UInt32} {src : List UInt8} {buf : Cbuf} {fc : Npfcall}
    (counted : src.length = count.toNat) (positive : 0 < count.toNat)
    (outside : ∀ ptr : Int, (buf.bufAlloc (cint count)).1 = some ptr →
      (buf.mem.length : Int) < ptr + count.toNat) :
    (PutOp.data count src false).exec (buf, fc) = none := by
  have whole : src.take count.toNat = src := List.take_of_length_le (by omega)
  have nonempty : src ≠ [] := fun empty => by simp [empty] at counted; omega
  simp only [PutOp.exec, bufAllocData, whole, moveData]
  rw [if_neg (by simp)]
  simp only [Cbuf.memmove, if_neg nonempty, bufAlloc_mem]
  cases pointer : (buf.bufAlloc (cint count)).1 with
  | none => rfl
  | some ptr =>
      have := outside ptr pointer
      simp only
      rw [if_neg (by omega)]
      rfl

/-- `np_create_rreaddir` on a count beyond a C `int` builds nothing that `np_deserialize` accepts.
-/
theorem rreaddir_none_or_huge (count : UInt32) {data : List UInt8}
    (length : data.length = count.toNat) (large : 2 ^ 31 ≤ count.toNat + 11) (heap : Malloc) :
    npCreateRreaddir count data heap = none ∨ ∃ fc, npCreateRreaddir count data heap = some fc ∧
      2 ^ 31 + 4 ≤ fc.pkt.length := by
  have bound := count.toNat_lt
  by_cases small : count.toNat + 11 < 2 ^ 32
  · obtain ⟨buf, memLength, position, window, created⟩ :=
      @npCreateRreaddir_negative count data heap large small
    by_cases negative : count.toNat < 2 ^ 31
    · -- The window is negative and the count is not: there is no room, and `memmove` gets `NULL`.
      left
      rw [created, data_overflow length (by omega)]
      · rfl
      · intro ptr pointer
        have missing : buf.ep < buf.p + cint count := by
          rw [cint_of_lt negative]
          omega
        simp [bufAlloc_missing missing] at pointer
    · -- Both are negative: the data lands where the header should be.
      right
      have room : buf.p + cint count ≤ buf.ep := by
        rw [cint_of_ge (by omega)]
        omega
      have whole : data.take count.toNat = data := List.take_of_length_le (by omega)
      have nonempty : data ≠ [] := fun empty => by simp [empty] at length; omega
      refine ⟨{ heap.fc with data := some 0, pkt := store buf.mem 0 data }, ?_, ?_⟩
      · rw [created]
        simp only [PutOp.exec, bufAllocData, bufAlloc_eq room, whole, moveData, position,
          Cbuf.memmove, if_neg nonempty, Cbuf.advance, memLength]
        rw [if_neg (by simp), if_pos (by omega)]
        simpa [npPostCheck, Cbuf.bufCheckOverflow, position] using room
      · simp [store, length, memLength]
        omega
  · left
    have total : (4 + count + 7 : UInt32).toNat = count.toNat + 11 - 2 ^ 32 := by
      rw [rreaddir_total]
      omega
    obtain ⟨rest, restEq⟩ : ∃ rest, count.toNat + 11 - 2 ^ 32 = rest := ⟨_, rfl⟩
    rw [restEq] at total
    have start : Packing.Near rest (blankPacket heap (4 + count + 7), heap.fc) := by
      refine ⟨by simp [blankPacket, Cbuf.bufInit, total], ?_, le_refl _, ?_⟩
      · simp [blankPacket, Cbuf.bufInit, cint_of_lt (by omega : (4 + count + 7).toNat < 2 ^ 31),
          total]
      · simp [blankPacket, Cbuf.bufInit]
        omega
    have framed : Packing.Near rest (npCreateCommon heap (4 + count) .rreaddir) := by
      change Packing.Near rest
        (bufPutHeader (4 + count + 7) .rreaddir (blankPacket heap (4 + count + 7), heap.fc))
      simp only [bufPutHeader, bufPutInt32, bufPutInt8, bufPutInt16]
      exact bufPut_near (bufPut_near (bufPut_near start))
    have counted : Packing.Near rest (bufPutInt32 count (fun fc count => { fc with count })
        (npCreateCommon heap (4 + count) .rreaddir)) := bufPut_near framed
    change ((some (bufPutInt32 count (fun fc count => { fc with count })
      (npCreateCommon heap (4 + count) .rreaddir)) >>=
        PutOp.execAll [.data count data false]) >>= npPostCheck) = none
    obtain ⟨⟨buf, fc⟩, packingEq⟩ : ∃ packing, bufPutInt32 count
      (fun fc count => { fc with count }) (npCreateCommon heap (4 + count) .rreaddir) = packing :=
      ⟨_, rfl⟩
    rw [packingEq] at counted ⊢
    obtain ⟨memLength, window, lower, upper⟩ := counted
    simp only at memLength window lower upper
    have room : buf.p + cint count ≤ buf.ep := by
      rw [cint_of_ge (by omega)]
      omega
    have overflow : (PutOp.data count data false).exec (buf, fc) = none := by
      refine data_overflow length (by omega) fun ptr pointer => ?_
      rw [bufAlloc_eq room] at pointer
      obtain rfl := Option.some.inj pointer
      omega
    simp [PutOp.execAll, overflow]

theorem run_fits {α : Type} {op : GetOp} {next : op.Reply → Get α} {buf : Cbuf}
    (fits : buf.p + op.width ≤ buf.ep) :
    run GetOp.exec (.step op next) buf =
      run GetOp.exec (next (op.value buf)) (buf.advance op.width) := by
  rw [run_step, GetOp.exec_of_fits fits]

/-- The string at the end of an `Rgetlock`, read four bytes too late, is not the one of `n` bytes
that was written. -/
theorem rgetlock_str (make : Npstr → Npfcall) {buf : Cbuf} {n : Nat} (least : 2 ≤ n)
    (position : buf.p = 32) (window : buf.ep = (30 + n : Nat)) {message : Npfcall}
    (parsed : (run GetOp.exec (bufGetStr >>= fun s => pure (some (make s))) buf).1 = some message)
    (accepts : Accepts (run GetOp.exec (bufGetStr >>= fun s => pure (some (make s))) buf)) :
    ∃ clientid, message = make clientid ∧ (clientid.len.toNat = n → clientid.str = none) := by
  change (run GetOp.exec (.step .int16 fun len => .step (.alloc len.toNat) fun str =>
    .done (some (make ⟨len, str⟩))) buf).1 = some message at parsed
  change Accepts (run GetOp.exec (.step .int16 fun len => .step (.alloc len.toNat) fun str =>
    .done (some (make ⟨len, str⟩))) buf) at accepts
  by_cases ended : n = 2
  · -- There is no length any more: the string is empty.
    rw [run_step, exec_at_end (by omega) (by simp [GetOp.width]), run_step, run_done] at parsed
    exact ⟨_, (Option.some.inj parsed).symm, fun same => by
      simp [GetOp.blank] at same
      omega⟩
  by_cases cut : n = 3
  · -- The cut goes through the length.
    refine absurd accepts (not_accepts_of_cut (by omega) (by simp only [GetOp.width]; omega)
      fun _ behind => ?_)
    exact @not_accepts_alloc_behind_end _ _ .done _ (by simp) ⟨_, rfl⟩ _ behind
  rw [run_fits (by simp only [GetOp.width]; omega)] at parsed
  rw [run_step, run_done] at parsed
  refine ⟨_, (Option.some.inj parsed).symm, fun same => ?_⟩
  have missing : (buf.advance 2).ep <
      (buf.advance 2).p + (GetOp.alloc (UInt16.toNat (GetOp.int16.value buf))).width := by
    simp only [Cbuf.advance, GetOp.width]
    simp only at same
    omega
  exact congrArg Prod.fst (GetOp.exec_of_missing missing)

/-- The last two fields of an `Rgetlock`, read four bytes too late. -/
theorem rgetlock_tail (make : UInt32 → Npstr → Npfcall) {buf : Cbuf} {n : Nat}
    (position : buf.p = 28) (window : buf.ep = (30 + n : Nat)) {message : Npfcall}
    (parsed : (run GetOp.exec (getInt32 >>= fun procid =>
      bufGetStr >>= fun s => pure (some (make procid s))) buf).1 = some message)
    (accepts : Accepts (run GetOp.exec (getInt32 >>= fun procid =>
      bufGetStr >>= fun s => pure (some (make procid s))) buf)) :
    ∃ procid clientid, message = make procid clientid ∧
      (clientid.len.toNat = n → clientid.str = none) := by
  change (run GetOp.exec (.step .int32 fun procid =>
    bufGetStr >>= fun s => pure (some (make procid s))) buf).1 = some message at parsed
  change Accepts (run GetOp.exec (.step .int32 fun procid =>
    bufGetStr >>= fun s => pure (some (make procid s))) buf) at accepts
  by_cases short : n < 2
  · -- The cut goes through `procid`.
    have follows : Follows (.str .done)
        (bufGetStr >>= fun s => (pure (some (make GetOp.int32.blank s)) : Get (Option Npfcall))) :=
      follows_str fun _ => follows_done _
    exact absurd accepts (not_accepts_of_cut (by omega) (by simp only [GetOp.width]; omega)
      fun _ => not_accepts_behind_end follows)
  rw [run_fits (by simp only [GetOp.width]; omega)] at parsed accepts
  have tailPosition : (buf.advance GetOp.int32.width).p = 32 := by
    simp only [Cbuf.advance, GetOp.width, position]
    rfl
  obtain ⟨clientid, same, lost⟩ := rgetlock_str (make (GetOp.int32.value buf)) (by omega)
    tailPosition window parsed accepts
  exact ⟨_, clientid, same, lost⟩

theorem run_fits_bind {α : Type} {op : GetOp} {rest : op.Reply → Get α} {buf : Cbuf}
    (fits : buf.p + op.width ≤ buf.ep) :
    run GetOp.exec (perform op >>= rest) buf =
      run GetOp.exec (rest (op.value buf)) (buf.advance op.width) := run_fits fits

/-- The fields of an `Rgetlock` in front of `procid`. -/
theorem rgetlock_front (dotu : Bool) (fc : Npfcall) {buf : Cbuf} (room : buf.p + 21 ≤ buf.ep) :
    ∃ make : UInt32 → Npstr → Npfcall, (∀ procid s, (make procid s).clientid = s) ∧
      run GetOp.exec (getBody dotu fc .rgetlock) buf =
        run GetOp.exec (getInt32 >>= fun procid =>
          bufGetStr >>= fun s => pure (some (make procid s))) (buf.advance 21) := by
  have whole : (((buf.advance 4).advance 1).advance 8).advance 8 = buf.advance 21 := by
    simp only [Cbuf.advance]
    congr 1
    omega
  simp only [getBody]
  rw [getInt32, run_fits_bind (by simp only [GetOp.width]; omega), getInt8,
    run_fits_bind (by simp only [GetOp.width, Cbuf.advance]; omega), getInt64,
    run_fits_bind (by simp only [GetOp.width, Cbuf.advance]; omega),
    run_fits_bind (by simp only [GetOp.width, Cbuf.advance]; omega), ← whole]
  exact ⟨_, fun _ _ => rfl, rfl⟩

/-- The header of a packet is read whatever follows it. -/
theorem run_header (old : Npfcall) (dotu : Bool) {pkt body : List UInt8} {size : UInt32}
    {type : MsgType} {tag : UInt16} (content : pkt = header size type tag ++ body)
    (window : (packetBody pkt).ep = pkt.length) :
    ∃ fc, run GetOp.exec (packetParser old pkt dotu) (packetBody pkt) =
      run GetOp.exec (getBody dotu fc type) ((packetBody pkt).advance 3) := by
  have least : 7 ≤ pkt.length := by
    rw [content]
    simp
  have start : (packetBody pkt).p = 4 := rfl
  have code : GetOp.int8.value (packetBody pkt) = type.code := by
    rw [content]
    rfl
  have whole : ((packetBody pkt).advance 1).advance 2 = (packetBody pkt).advance 3 := by
    simp only [Cbuf.advance]
    congr 1
  rw [packetParser, getFcall_eq, run_fits (by simp only [GetOp.width]; omega), code, afterType,
    getInt16, run_fits_bind (by simp only [GetOp.width, Cbuf.advance]; omega), ← whole]
  simp only [MsgType.ofCode?_code]
  exact ⟨_, rfl⟩

theorem not_roundTrip_rgetlock {npErrnoToLinux : UInt32 → UInt32} {dotu : Bool} {type : UInt8}
    {offset length : UInt64} {procid : UInt32} {clientid : CStr}
    (fits : clientid.strlen < 2 ^ 16) :
    ¬(DotlCall.rgetlock type offset length procid clientid).RoundTrips npErrnoToLinux dotu := by
  intro roundTrips
  have sized : (UInt32.ofNat (1 + 8 + 8 + 4 + 2 + clientid.strlen)).toNat =
      23 + clientid.strlen := by
    rw [toNat_ofNat32 (by omega)]
  obtain ⟨fc, created, message, accepted, -, -, size, carried⟩ := roundTrips ⟨default, fun _ => 0⟩
    default none
  obtain ⟨fc', tail, created', content, pktLength⟩ := created_packet ⟨default, fun _ => 0⟩ .rgetlock
    (show ∀ op ∈ [PutOp.int8 type fun fc locktype => { fc with locktype },
      .int64 offset fun fc offset => { fc with offset },
      .int64 length fun fc locklength => { fc with locklength },
      .int32 procid fun fc procid => { fc with procid },
      .str clientid fun fc clientid => { fc with clientid }], op.Fits by
        simpa using fits)
    (show _ ≤ (UInt32.ofNat (1 + 8 + 8 + 4 + 2 + clientid.strlen)).toNat by
      rw [sized]
      simp [packed, PutOp.bytes, CStr.bytes?, CStr.strlen]
      omega) (by omega)
  obtain rfl : fc = fc' := Option.some.inj (created.symm.trans created')
  rw [sized] at pktLength
  have announced : announcedSize fc.pkt = message.size := by
    obtain ⟨_, parsed⟩ := parsed_of_some accepted
    exact parsed.size_eq.symm
  have window : (packetBody fc.pkt).ep = fc.pkt.length := by
    rw [packetBody_window (by rw [announced]; omega) (by rw [announced]; omega), announced, size]
  obtain ⟨start, header⟩ := run_header default dotu content window
  have room : ((packetBody fc.pkt).advance 3).p + 21 ≤ ((packetBody fc.pkt).advance 3).ep := by
    have position : ((packetBody fc.pkt).advance 3).p = 7 := rfl
    have same : ((packetBody fc.pkt).advance 3).ep = fc.pkt.length := window
    omega
  obtain ⟨make, field, front⟩ := rgetlock_front dotu start room
  change npDeserialize default fc.pkt dotu = some message at accepted
  rw [npDeserialize_eq, header, front] at accepted
  obtain ⟨parsed, accepts⟩ := overflowTest_eq_some.mp accepted
  have tailWindow : (((packetBody fc.pkt).advance 3).advance 21).ep =
      (30 + clientid.strlen : Nat) := by
    have same : (((packetBody fc.pkt).advance 3).advance 21).ep = fc.pkt.length := window
    omega
  obtain ⟨procid, s, rfl, lost⟩ := rgetlock_tail make rfl tailWindow parsed accepts
  obtain ⟨-, -, -, -, same, start, pointer, -⟩ := carried
  rw [field] at same pointer
  exact absurd pointer (by simp [lost same])

/-! ## All constructors -/

theorem not_roundTrip_rreaddir {npErrnoToLinux : UInt32 → UInt32} {dotu : Bool} {count : UInt32}
    {data : List UInt8} (length : data.length = count.toNat)
    (large : 2 ^ 31 ≤ count.toNat + 11) :
    ¬(DotlCall.rreaddir count data).RoundTrips npErrnoToLinux dotu := by
  intro roundTrips
  obtain ⟨fc, created, message, accepted, -, -, size, -⟩ := roundTrips ⟨default, fun _ => 0⟩
    default none
  rcases rreaddir_none_or_huge count length large ⟨default, fun _ => 0⟩ with none | ⟨fc', created',
    huge⟩
  · exact absurd (none.symm.trans created) (by simp)
  · obtain rfl : fc = fc' := Option.some.inj (created.symm.trans created')
    obtain ⟨_, parsed⟩ := parsed_of_some accepted
    have explained := explains_packet default (retag none fc).pkt dotu
    have refused : Layout.packetStop (retag none fc).pkt dotu = .refused := by
      have sizes := parsed.size_eq
      simp only [Layout.packetStop]
      exact if_pos (Or.inr (by rw [← sizes, size]; exact huge))
    rw [refused] at explained
    exact explained (overflowTest_eq_some.mp accepted).2

theorem not_roundTrip_tsetattr {npErrnoToLinux : UInt32 → UInt32} {dotu : Bool}
    {fid mask : UInt32} {attrs : Npattrs} :
    ¬(DotlCall.tsetattr fid mask attrs).RoundTrips npErrnoToLinux dotu := by
  intro roundTrips
  obtain ⟨fc, created, -⟩ := roundTrips ⟨default, fun _ => 0⟩ default none
  exact absurd ((npCreateTsetattr_eq_none fid mask attrs _).symm.trans created) (by simp)

/-- The calls whose arguments come back, one constructor after the other. -/
theorem roundTrips_of_recoverable (npErrnoToLinux : UInt32 → UInt32) (dotu : Bool)
    (call : DotlCall) (inRange : call.InRange) (recoverable : call.Recoverable) :
    call.RoundTrips npErrnoToLinux dotu := by
  cases call with
  | rlerror ecode =>
      refine @roundTrip_ofNat .rlerror 4 _ _ _ (by simp) rfl (by omega)
        fun pkt fc => ?_
      exact reads_int32 (reads_parsed ⟨rfl, rfl, rfl⟩ rfl)
  | tstatfs fid => exact roundTrip_fid fun _ => rfl
  | rstatfs stfs => exact roundTrip_rstatfs
  | tlopen fid flags =>
      refine @roundTrip_ofNat .tlopen 8 _ _ _ (by simp) rfl (by omega)
        fun pkt fc => ?_
      exact reads_int32 (reads_int32 (reads_parsed ⟨rfl, rfl, rfl⟩ ⟨rfl, rfl⟩))
  | rlopen qid iounit => exact roundTrip_qidIounit fun _ => rfl
  | tlcreate fid name flags mode gid => exact roundTrip_tlcreate inRange
  | rlcreate qid iounit => exact roundTrip_qidIounit fun _ => rfl
  | tsymlink dfid name symtgt gid => exact roundTrip_tsymlink inRange.1 inRange.2
  | rsymlink qid => exact roundTrip_qid fun _ => rfl
  | tmknod dfid name mode major minor gid => exact roundTrip_tmknod inRange
  | rmknod qid => exact roundTrip_qid fun _ => rfl
  | trename fid dfid name => exact roundTrip_trename inRange
  | rrename => exact roundTrip_empty fun _ => rfl
  | treadlink fid => exact roundTrip_fid fun _ => rfl
  | rreadlink target => exact roundTrip_rreadlink inRange
  | tgetattr fid mask =>
      refine @roundTrip_ofNat .tgetattr 12 _ _ _ (by simp) rfl (by omega)
        fun pkt fc => ?_
      exact reads_int32 (reads_int64 (reads_parsed ⟨rfl, rfl, rfl⟩ ⟨rfl, rfl⟩))
  | rgetattr mask attrs qid => exact roundTrip_rgetattr
  | tsetattr fid mask attrs => exact recoverable.elim
  | rsetattr => exact roundTrip_empty fun _ => rfl
  | txattrwalk fid newfid name => exact roundTrip_txattrwalk inRange
  | rxattrwalk asize =>
      refine @roundTrip_ofNat .rxattrwalk 8 _ _ _ (by simp) rfl (by omega)
        fun pkt fc => ?_
      exact reads_int64 (reads_parsed ⟨rfl, rfl, rfl⟩ rfl)
  | txattrcreate fid name asize flags => exact roundTrip_txattrcreate inRange
  | rxattrcreate => exact roundTrip_empty fun _ => rfl
  | treaddir fid offset count => exact roundTrip_fidRange fun _ => rfl
  | rreaddir count data => exact roundTrip_rreaddir inRange recoverable
  | tfsync fid => exact roundTrip_fid fun _ => rfl
  | rfsync => exact roundTrip_empty fun _ => rfl
  | tlock fid type flags offset length procid clientid => exact roundTrip_tlock inRange
  | rlock status =>
      refine @roundTrip_ofNat .rlock 1 _ _ _ (by simp) rfl (by omega)
        fun pkt fc => ?_
      exact reads_int8 (reads_parsed ⟨rfl, rfl, rfl⟩ rfl)
  | tgetlock fid type offset length procid clientid => exact roundTrip_tgetlock inRange
  | rgetlock type offset length procid clientid => exact recoverable.elim
  | tlink dfid fid name => exact roundTrip_tlink inRange
  | rlink => exact roundTrip_empty fun _ => rfl
  | tmkdir dfid name mode gid => exact roundTrip_tmkdir inRange
  | rmkdir qid => exact roundTrip_qid fun _ => rfl
  | trenameat odfid oname ndfid nname => exact roundTrip_trenameat inRange.1 inRange.2
  | rrenameat => exact roundTrip_empty fun _ => rfl
  | tunlinkat dfid name flags => exact roundTrip_tunlinkat inRange
  | runlinkat => exact roundTrip_empty fun _ => rfl

/-- A 9P2000.L constructor builds a packet that is read back with every argument in its field,
exactly if it is neither `np_create_tsetattr` nor `np_create_rgetlock` nor an `np_create_rreaddir`
whose packet is longer than a C `int` can count. -/
theorem DotlCall.roundTrips_iff (npErrnoToLinux : UInt32 → UInt32) (dotu : Bool) (call : DotlCall)
    (inRange : call.InRange) : call.RoundTrips npErrnoToLinux dotu ↔ call.Recoverable := by
  refine ⟨fun trip => ?_, roundTrips_of_recoverable npErrnoToLinux dotu call inRange⟩
  cases call with
  | tsetattr fid mask attrs => exact not_roundTrip_tsetattr trip
  | rgetlock type offset length procid clientid => exact not_roundTrip_rgetlock inRange trip
  | rreaddir count data =>
      exact Nat.lt_of_not_le fun large => not_roundTrip_rreaddir inRange large trip
  | _ => trivial

/-- A `Tsetattr` is never built and an `Rlock` is read back. -/
theorem DotlCall.roundTrips_tsetattr_rlock :
    ¬(DotlCall.tsetattr 1 1 default).RoundTrips id true ∧ (DotlCall.rlock 0).RoundTrips id true :=
  ⟨fun trip => (DotlCall.roundTrips_iff id true (.tsetattr 1 1 default) trivial).mp trip,
    (DotlCall.roundTrips_iff id true (.rlock 0) trivial).mpr trivial⟩

theorem DotlCall.not_roundTrips_tsetattr :
    ¬∀ (npErrnoToLinux : UInt32 → UInt32) (dotu : Bool) (call : DotlCall),
      call.InRange → call.RoundTrips npErrnoToLinux dotu :=
  fun all => not_roundTrip_tsetattr (all id true (.tsetattr 1 1 default) trivial)

end Npfs
