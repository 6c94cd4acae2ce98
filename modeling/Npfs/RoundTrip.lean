import Npfs.ReadBack

/-!
# Round trip of 9P2000 and 9P2000.u

Every constructor of `Npfs.CreateBase` builds a packet that `np_deserialize` reads back under the
same `dotu`, with every argument that the layout carries in the field where it belongs.
-/

namespace Npfs

open LittleEndian

namespace BaseCall

/-- The arguments that the wire can carry. -/
def InRange (dotu : Bool) : BaseCall → Prop
  | .tversion _ version | .rversion _ version => version.strlen < 2 ^ 16
  | .rerror ename _ => ename.strlen < 2 ^ 16
  | .tattach _ _ uname aname _ => strlen? uname < 2 ^ 16 ∧ strlen? aname < 2 ^ 16
  | .twalk _ _ wnames => wnames.length ≤ MAXWELEM ∧ ∀ wname ∈ wnames, wname.strlen < 2 ^ 16
  | .rwalk wqids => wqids.length ≤ MAXWELEM
  | .tcreate _ name _ _ => name.strlen < 2 ^ 16
  | .rread count data => data.length = count.toNat ∧ count.toNat + 11 < 2 ^ 31
  | .twrite _ _ count data => data.length = count.toNat ∧ count.toNat + 23 < 2 ^ 31
  | .rstat wstat | .twstat _ wstat => sizeWstat wstat dotu < 2 ^ 16
  | _ => True

/-- The message carries the arguments of the call. -/
def Carried (dotu : Bool) (call : BaseCall) (pkt : List UInt8) (fc : Npfcall) : Prop :=
  match call with
  | .tversion msize version | .rversion msize version =>
    fc.msize = msize ∧ StrAt pkt fc.version version.bytes
  | .rauth qid | .rattach qid => fc.qid = qid
  | .rerror ename ecode => StrAt pkt fc.ename ename.bytes ∧ (dotu = true → fc.ecode = ecode)
  | .tflush oldtag => fc.oldtag = oldtag
  | .tattach fid afid uname aname nUname =>
    fc.fid = fid ∧ fc.afid = afid ∧ StrAt pkt fc.uname (CStr.bytes? uname) ∧
      StrAt pkt fc.aname (CStr.bytes? aname) ∧ (dotu = true → fc.nUname = nUname)
  | .twalk fid newfid wnames =>
    fc.fid = fid ∧ fc.newfid = newfid ∧ fc.nwname.toNat = wnames.length ∧
      List.Forall₂ (fun s wname => StrAt pkt s wname.bytes)
        (fc.wnames.toList.take wnames.length) wnames
  | .rwalk wqids =>
    fc.nwqid.toNat = wqids.length ∧ fc.wqids.toList.take wqids.length = wqids
  | .topen fid mode => fc.fid = fid ∧ fc.mode = mode
  | .ropen qid iounit | .rcreate qid iounit => fc.qid = qid ∧ fc.iounit = iounit
  | .tcreate fid name perm mode =>
    fc.fid = fid ∧ StrAt pkt fc.name name.bytes ∧ fc.perm = perm ∧ fc.mode = mode
  | .tread fid offset count => fc.fid = fid ∧ fc.offset = offset ∧ fc.count = count
  | .rread count data => fc.count = count ∧ DataAt pkt fc.data data
  | .twrite fid offset count data =>
    fc.fid = fid ∧ fc.offset = offset ∧ fc.count = count ∧ DataAt pkt fc.data data
  | .rwrite count => fc.count = count
  | .tclunk fid | .tremove fid | .tstat fid => fc.fid = fid
  | .rstat wstat => StatAt pkt dotu fc.stat wstat
  | .twstat fid wstat => fc.fid = fid ∧ StatAt pkt dotu fc.stat wstat
  | .rflush | .rclunk | .rremove | .rwstat => True

end BaseCall

theorem toNat_ofNat32 {n : Nat} (small : n + 7 < 2 ^ 31) : (UInt32.ofNat n).toNat = n :=
  UInt32.toNat_ofNat_of_lt' (by simp only [UInt32.size]; omega)

theorem roundTrip_ofNat {type : MsgType} {n : Nat} {fields : List PutOp} {dotu : Bool}
    {carried : List UInt8 → Npfcall → Prop} (fits : ∀ op ∈ fields, op.Fits)
    (length : (packed fields []).length = n) (small : n + 7 < 2 ^ 31)
    (reads : ∀ pkt fc, Reads pkt (getBody dotu fc type) (packed fields [])
      (Parsed fc (carried pkt))) :
    RoundTrip (npCreate type (.ofNat n) fields) dotu type carried := by
  have size := toNat_ofNat32 small
  refine roundTrip_of_reads fits (by omega) (by omega) fun tail pkt fc whole => ?_
  have empty : tail = [] := List.length_eq_zero_iff.mp (by omega)
  exact empty ▸ reads pkt fc

/-- A message that carries a single fid. -/
theorem roundTrip_fid {type : MsgType} {fid : UInt32} {dotu : Bool}
    (parser : ∀ fc, getBody dotu fc type = do
      let fid ← getInt32
      return some { fc with fid }) :
    RoundTrip (npCreate type 4 (putFid fid)) dotu type fun _ fc => fc.fid = fid := by
  refine @roundTrip_ofNat type 4 _ _ _ (by simp [putFid]) rfl (by omega)
    fun pkt fc => ?_
  rw [parser]
  exact reads_int32 (reads_parsed ⟨rfl, rfl, rfl⟩ rfl)

/-- A message without fields. -/
theorem roundTrip_empty {type : MsgType} {dotu : Bool}
    (parser : ∀ fc, getBody dotu fc type = pure (some fc)) :
    RoundTrip (npCreate type 0 []) dotu type fun _ _ => True := by
  refine @roundTrip_ofNat type 0 _ _ _ (by simp) rfl (by omega) fun pkt fc => ?_
  rw [parser]
  exact reads_parsed ⟨rfl, rfl, rfl⟩ trivial

/-- A message that carries a single qid. -/
theorem roundTrip_qid {type : MsgType} {qid : Npqid} {dotu : Bool}
    (parser : ∀ fc, getBody dotu fc type = do
      let qid ← bufGetQid
      return some { fc with qid }) :
    RoundTrip (npCreate type 13 (bufPutQid qid fcQid)) dotu type fun _ fc => fc.qid = qid := by
  refine @roundTrip_ofNat type 13 _ _ _ (by simp [bufPutQid]) rfl (by omega)
    fun pkt fc => ?_
  rw [parser]
  exact reads_qid (reads_parsed ⟨rfl, rfl, rfl⟩ rfl)

/-- A message that carries a qid and an `iounit`. -/
theorem roundTrip_qidIounit {type : MsgType} {qid : Npqid} {iounit : UInt32} {dotu : Bool}
    (parser : ∀ fc, getBody dotu fc type = do
      let qid ← bufGetQid
      let iounit ← getInt32
      return some { fc with qid, iounit }) :
    RoundTrip (npCreate type (13 + 4) (putQidIounit qid iounit)) dotu type
      fun _ fc => fc.qid = qid ∧ fc.iounit = iounit := by
  refine @roundTrip_ofNat type (13 + 4) _ _ _ (by simp [putQidIounit, bufPutQid]) rfl
    (by omega) fun pkt fc => ?_
  rw [parser]
  exact reads_qid (reads_int32 (reads_parsed ⟨rfl, rfl, rfl⟩ ⟨rfl, rfl⟩))

/-- A message that asks for a range of a file. -/
theorem roundTrip_fidRange {type : MsgType} {fid : UInt32} {offset : UInt64} {count : UInt32}
    {dotu : Bool} (parser : ∀ fc, getBody dotu fc type = do
      let fid ← getInt32
      let offset ← getInt64
      let count ← getInt32
      return some { fc with fid, offset, count }) :
    RoundTrip (npCreate type (4 + 8 + 4) (putFidRange fid offset count)) dotu type
      fun _ fc => fc.fid = fid ∧ fc.offset = offset ∧ fc.count = count := by
  refine @roundTrip_ofNat type (4 + 8 + 4) _ _ _ (by simp [putFidRange]) rfl (by omega)
    fun pkt fc => ?_
  rw [parser]
  exact reads_int32 (reads_int64 (reads_int32 (reads_parsed ⟨rfl, rfl, rfl⟩ ⟨rfl, rfl, rfl⟩)))

/-- A version message, of the client or of the server. -/
theorem roundTrip_version {type : MsgType} {msize : UInt32} {version : CStr} {dotu : Bool}
    (fits : version.strlen < 2 ^ 16) (parser : ∀ fc, getBody dotu fc type = do
      let msize ← getInt32
      let version ← bufGetStr
      return some { fc with msize, version }) :
    RoundTrip (npCreate type (.ofNat (4 + 2 + version.strlen))
      [.int32 msize fun fc msize => { fc with msize },
        .str version fun fc version => { fc with version }]) dotu type
      fun pkt fc => fc.msize = msize ∧ StrAt pkt fc.version version.bytes := by
  refine roundTrip_ofNat (by simpa using fits) ?_ (by omega) fun pkt fc => ?_
  · simp [packed, PutOp.bytes, CStr.bytes?, CStr.strlen]
    omega
  · rw [parser]
    exact reads_int32 (reads_str fits fun s stored => reads_parsed ⟨rfl, rfl, rfl⟩ ⟨rfl, stored⟩)

theorem roundTrip_rerror {ename : CStr} {ecode : UInt32} {dotu : Bool}
    (fits : ename.strlen < 2 ^ 16) :
    RoundTrip (npCreateRerror ename ecode dotu) dotu .rerror
      fun pkt fc => StrAt pkt fc.ename ename.bytes ∧ (dotu = true → fc.ecode = ecode) := by
  cases dotu with
  | false =>
      refine roundTrip_ofNat (by simpa using fits) ?_ (by simp; omega) fun pkt fc => ?_
      · simp [packed, PutOp.bytes, CStr.bytes?, CStr.strlen]
      · exact reads_str fits fun s stored => reads_parsed ⟨rfl, rfl, rfl⟩
          ⟨stored, fun extended => by cases extended⟩
  | true =>
      refine roundTrip_ofNat (by simpa using fits) ?_ (by simp; omega) fun pkt fc => ?_
      · simp [packed, PutOp.bytes, CStr.bytes?, CStr.strlen]
        omega
      · exact reads_str fits fun s stored => reads_int32
          (reads_parsed ⟨rfl, rfl, rfl⟩ ⟨stored, fun _ => rfl⟩)

theorem roundTrip_tattach {fid afid : UInt32} {uname aname : Option CStr} {nUname : UInt32}
    {dotu : Bool} (fitsUname : strlen? uname < 2 ^ 16) (fitsAname : strlen? aname < 2 ^ 16) :
    RoundTrip (npCreateTattach fid afid uname aname nUname dotu) dotu .tattach
      ((BaseCall.tattach fid afid uname aname nUname).Carried dotu) := by
  cases dotu with
  | false =>
      refine roundTrip_ofNat (by simpa using ⟨fitsUname, fitsAname⟩) ?_
        (by simp; omega) fun pkt fc => ?_
      · simp [packed, PutOp.bytes, strlen?]
        omega
      · exact reads_int32 (reads_int32 (reads_str fitsUname fun uname unameAt =>
          reads_str fitsAname fun aname anameAt =>
            reads_parsed ⟨rfl, rfl, rfl⟩
              ⟨rfl, rfl, unameAt, anameAt, fun extended => by cases extended⟩))
  | true =>
      refine roundTrip_ofNat (by simpa using ⟨fitsUname, fitsAname⟩) ?_
        (by simp; omega) fun pkt fc => ?_
      · simp [packed, PutOp.bytes, strlen?]
        omega
      · exact reads_int32 (reads_int32 (reads_str fitsUname fun uname unameAt =>
          reads_str fitsAname fun aname anameAt =>
            reads_int32 (reads_parsed ⟨rfl, rfl, rfl⟩ ⟨rfl, rfl, unameAt, anameAt, fun _ => rfl⟩)))

theorem roundTrip_tcreate {fid : UInt32} {name : CStr} {perm : UInt32} {mode : UInt8}
    {dotu : Bool} (fits : name.strlen < 2 ^ 16) :
    RoundTrip (npCreateTcreate fid name perm mode) dotu .tcreate
      ((BaseCall.tcreate fid name perm mode).Carried dotu) := by
  refine roundTrip_ofNat (by simpa using fits) ?_ (by omega) fun pkt fc => ?_
  · simp [packed, PutOp.bytes, CStr.bytes?, CStr.strlen]
    omega
  · refine reads_int32 (reads_str fits fun s stored => reads_int32 (reads_int8 ?_))
    cases dotu with
    | false => exact reads_parsed ⟨rfl, rfl, rfl⟩ ⟨rfl, stored, rfl, rfl⟩
    | true =>
        -- The constructor stores no extension; its length is read at the end of the packet.
        exact reads_str_at_end fun _ _ => reads_parsed ⟨rfl, rfl, rfl⟩ ⟨rfl, stored, rfl, rfl⟩

theorem fits_putWnames {wnames : List CStr} (fits : ∀ wname ∈ wnames, wname.strlen < 2 ^ 16)
    (i : Nat) : ∀ op ∈ putWnames i wnames, op.Fits := by
  induction wnames generalizing i with
  | nil => simp [putWnames]
  | cons wname wnames ih =>
      intro op member
      rcases List.mem_cons.mp member with rfl | member
      · exact fits wname (by simp)
      · exact ih (fun other known => fits other (by simp [known])) (i + 1) op member

theorem packed_putWnames_length (wnames : List CStr) (i : Nat) :
    (packed (putWnames i wnames) []).length =
      wnames.length * 2 + (wnames.map CStr.strlen).sum := by
  induction wnames generalizing i with
  | nil => rfl
  | cons wname wnames ih =>
      simp [putWnames, packed, PutOp.bytes, ih, CStr.bytes?, CStr.strlen]
      omega

theorem sum_strlen_le {wnames : List CStr} (fits : ∀ wname ∈ wnames, wname.strlen < 2 ^ 16) :
    (wnames.map CStr.strlen).sum ≤ wnames.length * 2 ^ 16 := by
  induction wnames with
  | nil => simp
  | cons wname wnames ih =>
      have first := fits wname (by simp)
      have rest := ih fun other known => fits other (by simp [known])
      simp only [List.map_cons, List.sum_cons, List.length_cons]
      omega

theorem roundTrip_twalk {fid newfid : UInt32} {wnames : List CStr} {dotu : Bool}
    (few : wnames.length ≤ MAXWELEM) (fits : ∀ wname ∈ wnames, wname.strlen < 2 ^ 16) :
    RoundTrip (npCreateTwalk fid newfid wnames) dotu .twalk
      ((BaseCall.twalk fid newfid wnames).Carried dotu) := by
  have count : (UInt16.ofNat wnames.length).toNat = wnames.length :=
    UInt16.toNat_ofNat_of_lt' (by simp only [UInt16.size, MAXWELEM] at *; omega)
  have total := sum_strlen_le fits
  intro heap
  simp only [npCreateTwalk, if_neg (Nat.not_lt.mpr few)]
  refine roundTrip_ofNat ?_ ?_ (by simp only [MAXWELEM] at few; omega) (fun pkt fc => ?_) heap
  · simpa using fits_putWnames fits 0
  · simp [packed, PutOp.bytes, packed_putWnames_length]
    omega
  · refine reads_int32 (reads_int32 (reads_int16 ?_))
    rw [count, if_neg (Nat.not_lt.mpr few)]
    refine reads_getWnames (by omega) fits fun strs stored strsAt same => ?_
    simp only [Nat.zero_add, List.take_zero, List.nil_append] at same
    exact reads_parsed ⟨rfl, rfl, rfl⟩ ⟨rfl, rfl, count, by rw [same]; exact strsAt⟩

theorem packed_putWqids_length (wqids : List Npqid) (i : Nat) :
    (packed (putWqids i wqids) []).length = wqids.length * 13 := by
  induction wqids generalizing i with
  | nil => rfl
  | cons wqid wqids ih =>
      simp [putWqids, bufPutQid, packed, PutOp.bytes, ih]
      omega

theorem fits_putWqids (wqids : List Npqid) (i : Nat) : ∀ op ∈ putWqids i wqids, op.Fits := by
  induction wqids generalizing i with
  | nil => simp [putWqids]
  | cons wqid wqids ih => simpa [putWqids, bufPutQid] using ih (i + 1)

theorem roundTrip_rwalk {wqids : List Npqid} {dotu : Bool} (few : wqids.length ≤ MAXWELEM) :
    RoundTrip (npCreateRwalk wqids) dotu .rwalk ((BaseCall.rwalk wqids).Carried dotu) := by
  have count : (UInt16.ofNat wqids.length).toNat = wqids.length :=
    UInt16.toNat_ofNat_of_lt' (by simp only [UInt16.size, MAXWELEM] at *; omega)
  intro heap
  simp only [npCreateRwalk, if_neg (Nat.not_lt.mpr few)]
  refine roundTrip_ofNat ?_ ?_ (by simp only [MAXWELEM] at few; omega) (fun pkt fc => ?_) heap
  · simpa using fits_putWqids wqids 0
  · simp [packed, PutOp.bytes, packed_putWqids_length]
  · refine reads_int16 ?_
    rw [count, if_neg (Nat.not_lt.mpr few)]
    refine reads_getWqids (by omega) fun stored same => ?_
    simp only [Nat.zero_add, List.take_zero, List.nil_append] at same
    exact reads_parsed ⟨rfl, rfl, rfl⟩ ⟨count, same⟩

theorem roundTrip_twrite {fid : UInt32} {offset : UInt64} {count : UInt32} {data : List UInt8}
    {dotu : Bool} (length : data.length = count.toNat) (small : count.toNat + 23 < 2 ^ 31) :
    RoundTrip (npCreateTwrite fid offset count data) dotu .twrite
      ((BaseCall.twrite fid offset count data).Carried dotu) := by
  have size : (4 + 8 + 4 + count : UInt32).toNat = 16 + count.toNat := by
    rw [UInt32.toNat_add]
    exact Nat.mod_eq_of_lt (by simpa using by omega)
  have packedLength : ∀ tail, (packed (putFidRange fid offset count ++ [PutOp.data count data true])
      tail).length = 16 + count.toNat + tail.length := by
    intro tail
    simp [putFidRange, packed, PutOp.bytes, length]
    omega
  refine roundTrip_of_reads ?_ (by rw [packedLength, size]; simp) (by omega) fun tail pkt
    fc whole => ?_
  · simpa [putFidRange] using ⟨length, by omega⟩
  · exact reads_int32 (reads_int64 (reads_int32 (reads_alloc
      (by rw [cint_of_lt (by omega), ← length]; rfl) fun ptr stored =>
        reads_parsed ⟨rfl, rfl, rfl⟩ ⟨rfl, rfl, rfl, stored⟩)))

theorem packed_bufPutWstat_length {wstat : Npwstat} {dotu : Bool} {statsz : UInt16} :
    (packed (bufPutWstat wstat statsz dotu) []).length = 2 + sizeWstat wstat dotu := by
  cases dotu <;>
    simp [bufPutWstat, bufPutQid, packed, PutOp.bytes, sizeWstat, strlen?] <;> omega

theorem fits_bufPutWstat {wstat : Npwstat} {dotu : Bool} {statsz : UInt16}
    (fits : sizeWstat wstat dotu < 2 ^ 16) : ∀ op ∈ bufPutWstat wstat statsz dotu, op.Fits := by
  cases dotu <;> simp [bufPutWstat, bufPutQid, sizeWstat] at fits ⊢ <;> omega

theorem roundTrip_rstat {wstat : Npwstat} {dotu : Bool} (fits : sizeWstat wstat dotu < 2 ^ 16) :
    RoundTrip (npCreateRstat wstat dotu) dotu .rstat ((BaseCall.rstat wstat).Carried dotu) := by
  refine roundTrip_ofNat ?_ ?_ (by omega) fun pkt fc => ?_
  · simpa using fits_bufPutWstat fits
  · simp [packed, PutOp.bytes, packed_bufPutWstat_length]
    omega
  · exact reads_int16 (reads_stat fits fun stat statAt => reads_parsed ⟨rfl, rfl, rfl⟩ statAt)

theorem roundTrip_twstat {fid : UInt32} {wstat : Npwstat} {dotu : Bool}
    (fits : sizeWstat wstat dotu < 2 ^ 16) :
    RoundTrip (npCreateTwstat fid wstat dotu) dotu .twstat
      ((BaseCall.twstat fid wstat).Carried dotu) := by
  refine roundTrip_ofNat ?_ ?_ (by omega) fun pkt fc => ?_
  · simpa [putFid] using fits_bufPutWstat fits
  · simp [packed, putFid, PutOp.bytes, packed_bufPutWstat_length]
    omega
  · exact reads_int32 (reads_int16 (reads_stat fits fun stat statAt =>
      reads_parsed ⟨rfl, rfl, rfl⟩ ⟨rfl, statAt⟩))

/-- `np_alloc_rread` and its sibling leave the bytes of the data as `malloc` gave them. -/
theorem alloc_packet {heap : Malloc} {type : MsgType} {count : UInt32}
    (small : count.toNat + 11 < 2 ^ 31) :
    ∃ fc junk, npCreate type (4 + count)
        [.int32 count (fun fc count => { fc with count }), .alloc count] heap = some fc ∧
      fc.pkt = header (4 + count + 7) type NOTAG ++ bytes32 count ++ junk ∧
      junk.length = count.toNat ∧ fc.data = some 11 := by
  have size : (4 + count : UInt32).toNat = 4 + count.toNat := by
    rw [UInt32.toNat_add]
    exact Nat.mod_eq_of_lt (by simpa using by omega)
  have start := @npCreateCommon_holds heap (4 + count) type (by omega)
  obtain ⟨⟨buf, fc⟩, stored, holds⟩ :=
    @exec_holds _ _ (.int32 count fun fc count => { fc with count }) _ start trivial
      (by simp [PutOp.bytes]; omega)
  obtain ⟨length, window, position, junk, whole⟩ := holds
  simp only at length window position whole
  have atEleven : buf.p = 11 := by simpa [PutOp.bytes] using position
  have room : buf.p + cint count ≤ buf.ep := by
    rw [cint_of_lt (by omega), window, atEleven]
    omega
  refine ⟨{ fc with data := some 11, pkt := buf.mem }, junk, ?_, whole.symm, ?_, rfl⟩
  · have inside : (buf.advance (cint count)).bufCheckOverflow = false :=
      decide_eq_false (not_lt.mpr room)
    have alloc : (PutOp.alloc count).exec (buf, fc) =
        some (buf.advance (cint count), { fc with data := some 11 }) := by
      simp only [PutOp.exec, bufAllocData, bufAlloc_eq room, atEleven]
    simp only [npCreate, PutOp.execAll, stored, Option.bind_eq_bind, Option.bind_some, alloc,
      npPostCheck, inside]
    rfl
  · rw [← whole] at length
    simp [PutOp.bytes] at length
    omega

theorem store_rest {front rest bytes : List UInt8} (length : bytes.length = rest.length) :
    store (front ++ rest) front.length bytes = front ++ bytes := by
  simp [store, length]

/-- `np_create_rread` copies the data to the place that `np_alloc_rread` reserves. -/
theorem npCreateRread_eq {heap : Malloc} {count : UInt32} {data : List UInt8}
    (length : data.length = count.toNat) (small : count.toNat + 11 < 2 ^ 31) :
    ∃ fc, npAllocRread count heap = some fc ∧ npCreateRread count data heap =
      some { fc with pkt := header (4 + count + 7) .rread NOTAG ++ bytes32 count ++ data } := by
  obtain ⟨fc, junk, created, content, junkLength, pointer⟩ :=
    @alloc_packet heap .rread count small
  have whole : data.take count.toNat = data := List.take_of_length_le (by omega)
  have stored : store fc.pkt 11 data =
      header (4 + count + 7) .rread NOTAG ++ bytes32 count ++ data := by
    rw [content]
    exact @store_rest (header (4 + count + 7) .rread NOTAG ++ bytes32 count) junk data (by omega)
  have moved : ∃ buf : Cbuf, (Cbuf.bufInit fc.pkt 0 fc.pkt.length).memmove (some 11) data =
      some buf ∧ buf.mem = store fc.pkt 11 data := by
    by_cases empty : data = []
    · exact ⟨_, if_pos empty, by simp [empty, store, Cbuf.bufInit]⟩
    · refine ⟨{ Cbuf.bufInit fc.pkt 0 fc.pkt.length with mem := store fc.pkt 11 data }, ?_, rfl⟩
      rw [Cbuf.memmove, if_neg empty]
      refine if_pos ⟨by omega, ?_⟩
      simp only [Cbuf.bufInit, content, List.length_append, header_length, bytes32_length]
      omega
  obtain ⟨buf, move, mem⟩ := moved
  have alloc : npAllocRread count heap = some fc := created
  refine ⟨fc, alloc, ?_⟩
  simp [npCreateRread, alloc, pointer, whole, move, mem, stored]

theorem roundTrip_rread {count : UInt32} {data : List UInt8} {dotu : Bool}
    (length : data.length = count.toNat) (small : count.toNat + 11 < 2 ^ 31) :
    RoundTrip (npCreateRread count data) dotu .rread
      ((BaseCall.rread count data).Carried dotu) := by
  have size : (4 + count : UInt32).toNat = 4 + count.toNat := by
    rw [UInt32.toNat_add]
    exact Nat.mod_eq_of_lt (by simpa using by omega)
  intro heap old tag
  obtain ⟨fc, alloc, created⟩ := @npCreateRread_eq heap count data length small
  refine ⟨_, created, ?_⟩
  have content : header (4 + count + 7) .rread NOTAG ++ bytes32 count ++ data =
      header (4 + count + 7) .rread NOTAG ++
        packed [.int32 count null, .data count data true] [] := by
    simp [packed, PutOp.bytes]
  refine readBack content ?_ (by omega) (fun pkt fc => ?_) old tag
  · simp only [List.length_append, header_length, bytes32_length, length, size]
    omega
  · exact reads_int32 (reads_alloc (by rw [cint_of_lt (by omega), ← length]; rfl) fun ptr stored =>
      reads_parsed ⟨rfl, rfl, rfl⟩ ⟨rfl, stored⟩)

/-- Every constructor call with arguments that the wire can carry round trips. -/
theorem BaseCall.roundTrip (dotu : Bool) (call : BaseCall) (inRange : call.InRange dotu) :
    RoundTrip (call.run dotu) dotu call.type (call.Carried dotu) := by
  cases call with
  | tversion msize version => exact roundTrip_version inRange fun _ => rfl
  | rversion msize version => exact roundTrip_version inRange fun _ => rfl
  | rauth qid => exact roundTrip_qid fun _ => rfl
  | rerror ename ecode => exact roundTrip_rerror inRange
  | tflush oldtag =>
      refine @roundTrip_ofNat .tflush 2 _ _ _ (by simp) rfl (by omega) fun pkt fc => ?_
      exact reads_int16 (reads_parsed ⟨rfl, rfl, rfl⟩ rfl)
  | rflush => exact roundTrip_empty fun _ => rfl
  | tattach fid afid uname aname nUname => exact roundTrip_tattach inRange.1 inRange.2
  | rattach qid => exact roundTrip_qid fun _ => rfl
  | twalk fid newfid wnames => exact roundTrip_twalk inRange.1 inRange.2
  | rwalk wqids => exact roundTrip_rwalk inRange
  | topen fid mode =>
      refine @roundTrip_ofNat .topen 5 _ _ _ (by simp) rfl (by omega) fun pkt fc => ?_
      exact reads_int32 (reads_int8 (reads_parsed ⟨rfl, rfl, rfl⟩ ⟨rfl, rfl⟩))
  | ropen qid iounit => exact roundTrip_qidIounit fun _ => rfl
  | tcreate fid name perm mode => exact roundTrip_tcreate inRange
  | rcreate qid iounit => exact roundTrip_qidIounit fun _ => rfl
  | tread fid offset count => exact roundTrip_fidRange fun _ => rfl
  | rread count data => exact roundTrip_rread inRange.1 inRange.2
  | twrite fid offset count data => exact roundTrip_twrite inRange.1 inRange.2
  | rwrite count =>
      refine @roundTrip_ofNat .rwrite 4 _ _ _ (by simp) rfl (by omega) fun pkt fc => ?_
      exact reads_int32 (reads_parsed ⟨rfl, rfl, rfl⟩ rfl)
  | tclunk fid => exact roundTrip_fid fun _ => rfl
  | rclunk => exact roundTrip_empty fun _ => rfl
  | tremove fid => exact roundTrip_fid fun _ => rfl
  | rremove => exact roundTrip_empty fun _ => rfl
  | tstat fid => exact roundTrip_fid fun _ => rfl
  | rstat wstat => exact roundTrip_rstat inRange
  | twstat fid wstat => exact roundTrip_twstat inRange
  | rwstat => exact roundTrip_empty fun _ => rfl

/-- A walk from fid 1 to fid 2 over the names `a` and `bc`, read without `dotu`. -/
theorem BaseCall.roundTrip_walk :
    RoundTrip (npCreateTwalk 1 2 [⟨[97], by decide⟩, ⟨[98, 99], by decide⟩]) false .twalk
      ((BaseCall.twalk 1 2 [⟨[97], by decide⟩, ⟨[98, 99], by decide⟩]).Carried false) :=
  BaseCall.roundTrip false (.twalk 1 2 [⟨[97], by decide⟩, ⟨[98, 99], by decide⟩])
    ⟨by decide, by decide⟩

end Npfs
