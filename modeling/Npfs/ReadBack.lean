import Npfs.CreateBase
import Npfs.Packet

/-!
# Reading back what a constructor wrote

A constructor leaves the header and then the bytes of its fields, one after another, in the packet
(`created_packet`).  A parser that reads these bytes in the same order gets the values back
(`Reads`), and `np_deserialize` accepts the packet (`npDeserialize_of_reads`).
-/

namespace Npfs

open LittleEndian Program

/-! ## The bytes of the fields -/

/-- The bytes that a statement puts into the packet. -/
def PutOp.bytes : PutOp → List UInt8
  | .int8 val _ => [val]
  | .int16 val _ => bytes16 val
  | .int32 val _ => bytes32 val
  | .int64 val _ => bytes64 val
  | .str s _ => bytes16 (.ofNat (CStr.bytes? s).length) ++ CStr.bytes? s
  | .data _ src _ => src
  | .alloc _ | .assign _ => []

/-- The bytes of a statement are what the wire can carry. -/
def PutOp.Fits : PutOp → Prop
  | .str s _ => strlen? s < 2 ^ 16
  | .data count src _ => src.length = count.toNat ∧ count.toNat < 2 ^ 31
  | .alloc _ => False
  | _ => True

namespace PutOp

@[simp] theorem fits_int8 (val pval) : (int8 val pval).Fits := trivial

@[simp] theorem fits_int16 (val pval) : (int16 val pval).Fits := trivial

@[simp] theorem fits_int32 (val pval) : (int32 val pval).Fits := trivial

@[simp] theorem fits_int64 (val pval) : (int64 val pval).Fits := trivial

@[simp] theorem fits_assign (change) : (assign change).Fits := trivial

@[simp] theorem fits_str (s ps) : (str s ps).Fits ↔ strlen? s < 2 ^ 16 := Iff.rfl

@[simp] theorem fits_data (count src guarded) : (data count src guarded).Fits ↔
    src.length = count.toNat ∧ count.toNat < 2 ^ 31 := Iff.rfl

end PutOp

/-- The bytes of the fields, in front of `tail`. -/
def packed : List PutOp → List UInt8 → List UInt8
  | [], tail => tail
  | op :: ops, tail => op.bytes ++ packed ops tail

theorem packed_append (first second : List PutOp) (tail : List UInt8) :
    packed (first ++ second) tail = packed first (packed second tail) := by
  induction first with
  | nil => rfl
  | cons op ops ih => simp only [List.cons_append, packed, ih]

theorem packed_tail (ops : List PutOp) (tail : List UInt8) :
    packed ops tail = packed ops [] ++ tail := by
  induction ops with
  | nil => rfl
  | cons op ops ih =>
      rw [packed, packed, ih, List.append_assoc]

/-- The first seven bytes of a packet. -/
def header (size : UInt32) (type : MsgType) (tag : UInt16) : List UInt8 :=
  bytes32 size ++ type.code :: bytes16 tag

@[simp] theorem header_length (size : UInt32) (type : MsgType) (tag : UInt16) :
    (header size type tag).length = 7 := rfl

/-! ## Writing -/

/-- The packet under construction has `size` bytes, of which `front` are in place. -/
structure Packing.Holds (size : Nat) (front : List UInt8) (packing : Packing) : Prop where
  length : packing.1.mem.length = size
  window : packing.1.ep = size
  position : packing.1.p = front.length
  placed : front <+: packing.1.mem

theorem store_prefix {mem front bytes : List UInt8} (placed : front <+: mem)
    (room : front.length + bytes.length ≤ mem.length) :
    front ++ bytes <+: store mem front.length bytes ∧
      (store mem front.length bytes).length = mem.length := by
  obtain ⟨rest, rfl⟩ := placed
  refine ⟨?_, ?_⟩
  · simp [store, List.append_assoc]
  · simp only [List.length_append] at room
    simp [store]
    omega

section Writing

variable {size : Nat} {front bytes : List UInt8} {buf : Cbuf} {fc fc' : Npfcall}

theorem bufCheckSize_of_room {buf : Cbuf} {len : Int} (room : buf.p + len ≤ buf.ep) :
    buf.bufCheckSize len = (true, buf) := if_neg (not_lt.mpr room)

theorem Packing.Holds.room (holds : Packing.Holds size front (buf, fc))
    (room : front.length + bytes.length ≤ size) : buf.p + bytes.length ≤ buf.ep := by
  rw [holds.window, holds.position]
  exact_mod_cast room

/-- Bytes stored at the cursor extend what is in place; the record does not matter. -/
theorem Packing.Holds.put (holds : Packing.Holds size front (buf, fc))
    (room : front.length + bytes.length ≤ size) :
    Packing.Holds size (front ++ bytes) (buf.put bytes, fc') := by
  obtain ⟨length, window, position, placed⟩ := holds
  simp only at length window position placed
  obtain ⟨whole, same⟩ := store_prefix placed
    (show front.length + bytes.length ≤ buf.mem.length by omega)
  refine ⟨?_, window, ?_, ?_⟩
  · simpa [Cbuf.put, position, length] using same
  · simp [Cbuf.put, position]
  · simpa [Cbuf.put, position] using whole

theorem bufPut_eq {β : Type} {val : β} {pval : Npfcall → β → Npfcall}
    (room : buf.p + bytes.length ≤ buf.ep) :
    bufPut bytes val pval (buf, fc) = (buf.put bytes, pval fc val) := by
  simp only [bufPut, bufCheckSize_of_room room]

theorem bufPut_holds {β : Type} {val : β} {pval : Npfcall → β → Npfcall} {packing : Packing}
    (holds : packing.Holds size front) (room : front.length + bytes.length ≤ size) :
    (bufPut bytes val pval packing).Holds size (front ++ bytes) := by
  obtain ⟨buf, fc⟩ := packing
  rw [bufPut_eq (holds.room room)]
  exact holds.put room

theorem bufAlloc_eq {len : Int} (room : buf.p + len ≤ buf.ep) :
    buf.bufAlloc len = (some buf.p, buf.advance len) := by
  simp only [Cbuf.bufAlloc, bufCheckSize_of_room room]
  rfl

/-- Copying to the place that `buf_alloc` has just returned stores at the cursor. -/
theorem memmove_alloc (holds : Packing.Holds size front (buf, fc))
    (room : front.length + bytes.length ≤ size) :
    (buf.advance bytes.length).memmove (some buf.p) bytes = some (buf.put bytes) := by
  obtain ⟨length, window, position, placed⟩ := holds
  simp only at length window position placed
  by_cases empty : bytes = []
  · subst empty
    simp [Cbuf.memmove, Cbuf.advance, Cbuf.put, store]
  · rw [Cbuf.memmove, if_neg empty]
    exact if_pos ⟨by omega, by simp only [Cbuf.advance]; omega⟩

theorem bufPutStr_holds {s : Option CStr} {ps : Npfcall → Npstr → Npfcall}
    (holds : Packing.Holds size front (buf, fc))
    (room : front.length + (PutOp.str s ps).bytes.length ≤ size) :
    ∃ packing, bufPutStr s ps (buf, fc) = some packing ∧
      packing.Holds size (front ++ (PutOp.str s ps).bytes) := by
  simp only [PutOp.bytes, List.length_append, bytes16_length] at room ⊢
  obtain ⟨text, textEq⟩ : ∃ text, CStr.bytes? s = text := ⟨_, rfl⟩
  rw [textEq] at room ⊢
  obtain ⟨counted, countedEq⟩ : ∃ counted, buf.put (bytes16 (.ofNat text.length)) = counted :=
    ⟨_, rfl⟩
  have placed : Packing.Holds size (front ++ bytes16 (.ofNat text.length)) (counted, fc) :=
    countedEq ▸ holds.put (by simp only [bytes16_length]; omega)
  have textRoom : (front ++ bytes16 (.ofNat text.length)).length + text.length ≤ size := by
    simp only [List.length_append, bytes16_length]
    omega
  have window := holds.window
  have position := holds.position
  simp only at window position
  refine ⟨(counted.put text, ps fc ⟨.ofNat text.length, some counted.p⟩), ?_, ?_⟩
  · have whole : buf.p + (2 + text.length : Int) ≤ buf.ep := by omega
    have lengthRoom : buf.p + (bytes16 (.ofNat text.length)).length ≤ buf.ep := by
      simp only [bytes16_length]
      omega
    simp only [bufPutStr, textEq, bufCheckSize_of_room whole, bufPutInt16, bufPut_eq lengthRoom,
      countedEq, bufAlloc_eq (placed.room textRoom), memmove_alloc placed textRoom]
    rfl
  · rw [← List.append_assoc]
    exact placed.put textRoom

theorem data_holds {count : UInt32} {src : List UInt8} {guarded : Bool}
    (holds : Packing.Holds size front (buf, fc)) (counted : src.length = count.toNat)
    (small : count.toNat < 2 ^ 31) (room : front.length + src.length ≤ size) :
    ∃ packing, (PutOp.data count src guarded).exec (buf, fc) = some packing ∧
      packing.Holds size (front ++ src) := by
  refine ⟨(buf.put src, { fc with data := some buf.p }), ?_, holds.put room⟩
  have whole : src.take count.toNat = src := List.take_of_length_le (by omega)
  have length : cint count = src.length := by rw [cint_of_lt small, counted]
  simp only [PutOp.exec, bufAllocData, length, bufAlloc_eq (holds.room room)]
  rw [if_neg (by simp), whole]
  simp only [moveData, memmove_alloc holds room]
  rfl

/-- The statement says how many bytes it copies. -/
def PutOp.Counts : PutOp → Prop
  | .alloc _ => False
  | .data count src _ => src.length = count.toNat ∧ count.toNat < 2 ^ 31
  | _ => True

theorem PutOp.Fits.counts {op : PutOp} (fits : op.Fits) : op.Counts := by
  cases op <;> trivial

/-- A statement adds its bytes to what is in place. -/
theorem exec_holds {op : PutOp} {packing : Packing} (holds : packing.Holds size front)
    (counts : op.Counts) (room : front.length + op.bytes.length ≤ size) :
    ∃ packing', op.exec packing = some packing' ∧ packing'.Holds size (front ++ op.bytes) := by
  obtain ⟨buf, fc⟩ := packing
  cases op with
  | int8 | int16 | int32 | int64 => exact ⟨_, rfl, bufPut_holds holds room⟩
  | str s ps => exact bufPutStr_holds holds room
  | alloc count => exact counts.elim
  | data count src guarded => exact data_holds holds counts.1 counts.2 room
  | assign change =>
      refine ⟨(buf, change fc), rfl, ?_⟩
      simpa [PutOp.bytes] using ⟨holds.length, holds.window, holds.position, holds.placed⟩

/-- A list of statements adds its bytes, one after another. -/
theorem execAll_stores {ops : List PutOp} {packing : Packing} (holds : packing.Holds size front)
    (counts : ∀ op ∈ ops, op.Counts) (room : front.length + (packed ops []).length ≤ size) :
    ∃ packing', PutOp.execAll ops packing = some packing' ∧
      packing'.Holds size (front ++ packed ops []) := by
  induction ops generalizing front packing with
  | nil => exact ⟨packing, rfl, by simpa [packed] using holds⟩
  | cons op ops ih =>
      simp only [packed, List.length_append] at room
      obtain ⟨next, step, holds⟩ := exec_holds holds (counts op (by simp)) (by omega)
      obtain ⟨last, rest, holds⟩ := ih holds (fun op member => counts op (by simp [member]))
        (by simp only [List.length_append]; omega)
      refine ⟨last, ?_, by simpa [packed] using holds⟩
      simp [PutOp.execAll, step, rest]

theorem execAll_holds {ops : List PutOp} {packing : Packing} (holds : packing.Holds size front)
    (fits : ∀ op ∈ ops, op.Fits) (room : front.length + (packed ops []).length ≤ size) :
    ∃ packing', PutOp.execAll ops packing = some packing' ∧
      packing'.Holds size (front ++ packed ops []) :=
  execAll_stores holds (fun op member => (fits op member).counts) room

end Writing

/-- The header is in place before the first field. -/
theorem npCreateCommon_holds (heap : Malloc) {size : UInt32} (type : MsgType)
    (small : size.toNat + 7 < 2 ^ 31) :
    (npCreateCommon heap size type).Holds (size.toNat + 7) (header (size + 7) type NOTAG) := by
  have total : (size + 7).toNat = size.toNat + 7 := by
    rw [UInt32.toNat_add]
    exact Nat.mod_eq_of_lt (by simpa using by omega)
  have start : Packing.Holds (size.toNat + 7) [] (blankPacket heap (size + 7), heap.fc) := by
    refine ⟨by simp [blankPacket, Cbuf.bufInit, total], ?_, rfl, List.nil_prefix⟩
    simp [blankPacket, Cbuf.bufInit, cint_of_lt (by omega : (size + 7).toNat < 2 ^ 31), total]
  have sized : Packing.Holds _ ([] ++ bytes32 (size + 7))
      (bufPutInt32 (size + 7) (fun fc size => { fc with size }) _) :=
    bufPut_holds start (by simp only [List.length_nil, bytes32_length]; omega)
  have typed : Packing.Holds _ ([] ++ bytes32 (size + 7) ++ [type.code])
      (bufPutInt8 type.code (fun fc type => { fc with type }) _) :=
    bufPut_holds sized (by simp only [List.nil_append, bytes32_length,
      List.length_singleton]; omega)
  have tagged : Packing.Holds _ ([] ++ bytes32 (size + 7) ++ [type.code] ++ bytes16 NOTAG)
      (bufPutInt16 NOTAG (fun fc tag => { fc with tag }) _) :=
    bufPut_holds typed (by
      simp only [List.nil_append, List.length_append, bytes32_length, List.length_singleton,
        bytes16_length]
      omega)
  exact tagged

/-- A constructor whose size formula leaves room for its fields succeeds.  Its packet holds the
header and the fields; `tail` is what the formula counted too much. -/
theorem created_packet (heap : Malloc) (type : MsgType) {size : UInt32} {fields : List PutOp}
    (fits : ∀ op ∈ fields, op.Fits) (room : (packed fields []).length ≤ size.toNat)
    (small : size.toNat + 7 < 2 ^ 31) :
    ∃ fc tail, npCreate type size fields heap = some fc ∧
      fc.pkt = header (size + 7) type NOTAG ++ packed fields tail ∧
      fc.pkt.length = size.toNat + 7 := by
  obtain ⟨packing, stored, holds⟩ := execAll_holds (npCreateCommon_holds heap type small) fits
    (by simp only [header_length]; omega)
  obtain ⟨length, window, position, tail, whole⟩ := holds
  refine ⟨{ packing.2 with pkt := packing.1.mem }, tail, ?_, ?_, length⟩
  · have inside : packing.1.bufCheckOverflow = false := by
      refine decide_eq_false ?_
      rw [position, window]
      simp only [List.length_append, header_length]
      omega
    simp [npCreate, stored, npPostCheck, inside]
  · rw [packed_tail, ← List.append_assoc]
    exact whole.symm

/-- `np_set_tag` rewrites the tag in the header. -/
theorem npSetTag_pkt {fc : Npfcall} {size : UInt32} {type : MsgType} {old : UInt16}
    {body : List UInt8} (pkt : fc.pkt = header size type old ++ body) (tag : UInt16) :
    (npSetTag fc tag).pkt = header size type tag ++ body := by
  simp [npSetTag, pkt, header, bytes32, bytes16]

/-! ## Reading -/

/-- `ptr` points at `bytes` in the packet. -/
def DataAt (pkt : List UInt8) (ptr : Option Int) (bytes : List UInt8) : Prop :=
  ∃ start : Nat, ptr = some (start : Int) ∧ start + bytes.length ≤ pkt.length ∧
    (pkt.drop start).take bytes.length = bytes

/-- The string `s` of a message holds `bytes`. -/
def StrAt (pkt : List UInt8) (s : Npstr) (bytes : List UInt8) : Prop :=
  s.len.toNat = bytes.length ∧ DataAt pkt s.str bytes

/-- Started in front of `bytes`, which end the packet, the parser does not run over the end and its
result satisfies `holds`. -/
def Reads {α : Type} (pkt : List UInt8) (parser : Get α) (bytes : List UInt8)
    (holds : α → Prop) : Prop :=
  ∀ (front : List UInt8) (buf : Cbuf), front ++ bytes = pkt → buf.mem = pkt →
    buf.p = front.length → buf.ep = pkt.length →
    holds (parser.run GetOp.exec buf).1 ∧
      (parser.run GetOp.exec buf).2.p ≤ (parser.run GetOp.exec buf).2.ep

section Reading

variable {α : Type} {pkt bytes : List UInt8} {holds : α → Prop}

theorem reads_done {result : α} (satisfied : holds result) :
    Reads pkt (pure result) bytes holds := by
  intro front buf split mem position window
  refine ⟨satisfied, ?_⟩
  subst split
  simp only [pure_eq, run_done, position, window, List.length_append]
  omega

/-- An operation that finds its bytes `piece` goes on behind them. -/
theorem reads_step {op : GetOp} {next : op.Reply → Get α} {piece : List UInt8}
    (width : op.width = piece.length)
    (onward : ∀ (front : List UInt8) (buf : Cbuf), front ++ (piece ++ bytes) = pkt →
      buf.mem = pkt → buf.p = front.length → Reads pkt (next (op.value buf)) bytes holds) :
    Reads pkt (.step op next) (piece ++ bytes) holds := by
  intro front buf split mem position window
  have fits : buf.p + op.width ≤ buf.ep := by
    rw [position, window, width, ← split]
    simp only [List.length_append]
    omega
  rw [run_step, GetOp.exec_of_fits fits]
  refine onward front buf split mem position (front ++ piece) _ ?_ mem ?_ window
  · rw [List.append_assoc, split]
  · simp only [Cbuf.advance, position, width, List.length_append]
    omega

private theorem byte_piece {front piece : List UInt8} {buf : Cbuf}
    (split : front ++ (piece ++ bytes) = pkt) (mem : buf.mem = pkt)
    (position : buf.p = front.length) {k : Nat} (inside : k < piece.length) :
    buf.byte k = piece.getD k 0 := by
  have index : buf.p.toNat + k = front.length + k := by omega
  simp only [Cbuf.byte, mem, ← split, index, List.getD_eq_getElem?_getD]
  rw [List.getElem?_append_right (by omega), Nat.add_sub_cancel_left,
    List.getElem?_append_left inside]

theorem reads_int8 {val : UInt8} {rest : UInt8 → Get α}
    (onward : Reads pkt (rest val) bytes holds) :
    Reads pkt (getInt8 >>= rest) ([val] ++ bytes) holds := by
  refine reads_step (show GetOp.int8.width = _ from rfl) fun front buf split mem position => ?_
  have value : GetOp.int8.value buf = val :=
    byte_piece split mem position (show 0 < [val].length from Nat.one_pos)
  exact value ▸ onward

theorem reads_int16 {val : UInt16} {rest : UInt16 → Get α}
    (onward : Reads pkt (rest val) bytes holds) :
    Reads pkt (getInt16 >>= rest) (bytes16 val ++ bytes) holds := by
  refine reads_step (show GetOp.int16.width = _ from rfl) fun front buf split mem position => ?_
  have stored : ∀ k < 2, buf.byte k = (bytes16 val).getD k 0 :=
    fun k inside => byte_piece split mem position inside
  have value : GetOp.int16.value buf = val := by
    rw [← word16_bytes16 val]
    simp (disch := decide) only [GetOp.value, word16, stored]
  exact value ▸ onward

theorem reads_int32 {val : UInt32} {rest : UInt32 → Get α}
    (onward : Reads pkt (rest val) bytes holds) :
    Reads pkt (getInt32 >>= rest) (bytes32 val ++ bytes) holds := by
  refine reads_step (show GetOp.int32.width = _ from rfl) fun front buf split mem position => ?_
  have stored : ∀ k < 4, buf.byte k = (bytes32 val).getD k 0 :=
    fun k inside => byte_piece split mem position inside
  have value : GetOp.int32.value buf = val := by
    rw [← word32_bytes32 val]
    simp (disch := decide) only [GetOp.value, word32, stored]
  exact value ▸ onward

theorem reads_int64 {val : UInt64} {rest : UInt64 → Get α}
    (onward : Reads pkt (rest val) bytes holds) :
    Reads pkt (getInt64 >>= rest) (bytes64 val ++ bytes) holds := by
  refine reads_step (show GetOp.int64.width = _ from rfl) fun front buf split mem position => ?_
  have stored : ∀ k < 8, buf.byte k = (bytes64 val).getD k 0 :=
    fun k inside => byte_piece split mem position inside
  have value : GetOp.int64.value buf = val := by
    rw [← word64_bytes64 val]
    simp (disch := decide) only [GetOp.value, word64, stored]
  exact value ▸ onward

theorem reads_alloc {len : Int} {src : List UInt8} {rest : Option Int → Get α}
    (length : len = src.length)
    (onward : ∀ ptr, DataAt pkt ptr src → Reads pkt (rest ptr) bytes holds) :
    Reads pkt (getAlloc len >>= rest) (src ++ bytes) holds := by
  refine reads_step (show (GetOp.alloc len).width = _ from length)
    fun front buf split mem position => ?_
  refine onward (some buf.p) ⟨front.length, by rw [position], ?_, ?_⟩
  · rw [← split]
    simp only [List.length_append]
    omega
  · rw [← split, List.drop_left, List.take_left]

theorem reads_str {text : List UInt8} {rest : Npstr → Get α} (fits : text.length < 2 ^ 16)
    (onward : ∀ s, StrAt pkt s text → Reads pkt (rest s) bytes holds) :
    Reads pkt (bufGetStr >>= rest) ((bytes16 (.ofNat text.length) ++ text) ++ bytes) holds := by
  have length : (UInt16.ofNat text.length).toNat = text.length :=
    UInt16.toNat_ofNat_of_lt' fits
  rw [List.append_assoc]
  refine reads_int16 (reads_alloc (by rw [length]) fun ptr stored => ?_)
  exact onward ⟨_, ptr⟩ ⟨length, stored⟩

/-- At the very end of the packet a string is read as an empty one. -/
theorem reads_str_at_end {rest : Npstr → Get α}
    (onward : ∀ s, StrAt pkt s [] → Reads pkt (rest s) [] holds) :
    Reads pkt (bufGetStr >>= rest) [] holds := by
  intro front buf split mem position window
  have whole : front.length = pkt.length := by rw [← split, List.append_nil]
  have atEnd : buf.p = buf.ep := by omega
  have empty : GetOp.exec (.alloc 0) buf = (some buf.p, buf) := by
    rw [GetOp.exec_of_fits (by simp [GetOp.width, atEnd])]
    simp [GetOp.value, GetOp.width, Cbuf.advance]
  have same : (bufGetStr >>= rest).run GetOp.exec buf =
      (rest ⟨0, some buf.p⟩).run GetOp.exec buf := by
    change run GetOp.exec (.step .int16 fun len => .step (.alloc len.toNat) fun str =>
      rest ⟨len, str⟩) buf = _
    rw [run_step, exec_at_end atEnd (by simp [GetOp.width])]
    change run GetOp.exec (rest ⟨0, (GetOp.exec (.alloc 0) buf).1⟩)
      (GetOp.exec (.alloc 0) buf).2 = _
    rw [empty]
  rw [same]
  exact onward ⟨0, some buf.p⟩
    ⟨rfl, front.length, by rw [position], by simp [whole], by simp⟩ front buf split mem position
    window

theorem reads_qid {qid : Npqid} {rest : Npqid → Get α}
    (onward : Reads pkt (rest qid) bytes holds) :
    Reads pkt (bufGetQid >>= rest)
      ([qid.type] ++ (bytes32 qid.version ++ (bytes64 qid.path ++ bytes))) holds :=
  reads_int8 (reads_int32 (reads_int64 onward))

theorem reads_statfs {stfs : Npstatfs} {rest : Npstatfs → Get α}
    (onward : Reads pkt (rest stfs) bytes holds) :
    Reads pkt (bufGetStatfs >>= rest) (packed (bufPutStatfs stfs) bytes) holds :=
  reads_int32 (reads_int32 (reads_int64 (reads_int64 (reads_int64 (reads_int64 (reads_int64
    (reads_int64 (reads_int32 onward))))))))

/-- The strings of a list, read into `wnames` from index `i` on. -/
theorem reads_getWnames {names : List CStr} {i : Nat} {old : Vector Npstr MAXWELEM}
    {rest : Vector Npstr MAXWELEM → Get α} (bound : i + names.length ≤ MAXWELEM)
    (fits : ∀ name ∈ names, name.strlen < 2 ^ 16)
    (onward : ∀ (strs : List Npstr) (wnames : Vector Npstr MAXWELEM),
      List.Forall₂ (fun s name => StrAt pkt s name.bytes) strs names →
      wnames.toList.take (i + names.length) = old.toList.take i ++ strs →
        Reads pkt (rest wnames) bytes holds) :
    Reads pkt (getWnames names.length i old >>= rest) (packed (putWnames i names) bytes)
      holds := by
  induction names generalizing i old with
  | nil => exact onward [] old .nil (by simp)
  | cons name names ih =>
      simp only [List.length_cons, getWnames, bind_assoc]
      refine reads_str (fits name (by simp)) fun s stored => ih (by simp at bound; omega)
        (fun other member => fits other (by simp [member])) fun strs wnames stores same => ?_
      have front : (old.setIfInBounds i s).toList.take (i + 1) = old.toList.take i ++ [s] := by
        rw [Vector.toList_setIfInBounds]
        exact take_set (by simp at bound ⊢; omega) _
      refine onward (s :: strs) wnames (.cons stored stores) ?_
      rw [List.length_cons, show i + (names.length + 1) = i + 1 + names.length by omega, same,
        front, List.append_assoc, List.singleton_append]

/-- The qids of a list, read into `wqids` from index `i` on. -/
theorem reads_getWqids {qids : List Npqid} {i : Nat} {old : Vector Npqid MAXWELEM}
    {rest : Vector Npqid MAXWELEM → Get α} (bound : i + qids.length ≤ MAXWELEM)
    (onward : ∀ wqids : Vector Npqid MAXWELEM,
      wqids.toList.take (i + qids.length) = old.toList.take i ++ qids →
        Reads pkt (rest wqids) bytes holds) :
    Reads pkt (getWqids qids.length i old >>= rest) (packed (putWqids i qids) bytes) holds := by
  induction qids generalizing i old with
  | nil => exact onward old (by simp)
  | cons qid qids ih =>
      simp only [List.length_cons, getWqids, bind_assoc, putWqids, packed_append]
      refine reads_qid (ih (by simp at bound; omega) fun wqids same => ?_)
      have front : (old.setIfInBounds i qid).toList.take (i + 1) = old.toList.take i ++ [qid] := by
        rw [Vector.toList_setIfInBounds]
        exact take_set (by simp at bound ⊢; omega) _
      refine onward wqids ?_
      rw [List.length_cons, show i + (qids.length + 1) = i + 1 + qids.length by omega, same,
        front, List.append_assoc, List.singleton_append]

/-- A stat record that was read holds what was written. -/
structure StatAt (pkt : List UInt8) (dotu : Bool) (stat : Npstat) (wstat : Npwstat) : Prop where
  size : stat.size.toNat = sizeWstat wstat dotu
  type : stat.type = wstat.type
  dev : stat.dev = wstat.dev
  qid : stat.qid = wstat.qid
  mode : stat.mode = wstat.mode
  atime : stat.atime = wstat.atime
  mtime : stat.mtime = wstat.mtime
  length : stat.length = wstat.length
  name : StrAt pkt stat.name (CStr.bytes? wstat.name)
  uid : StrAt pkt stat.uid (CStr.bytes? wstat.uid)
  gid : StrAt pkt stat.gid (CStr.bytes? wstat.gid)
  muid : StrAt pkt stat.muid (CStr.bytes? wstat.muid)
  extension : dotu = true → StrAt pkt stat.extension (CStr.bytes? wstat.extension)
  nUid : dotu = true → stat.nUid = wstat.nUid
  nGid : dotu = true → stat.nGid = wstat.nGid
  nMuid : dotu = true → stat.nMuid = wstat.nMuid

theorem reads_stat {wstat : Npwstat} {dotu : Bool} {old : Npstat} {rest : Npstat → Get α}
    (fits : sizeWstat wstat dotu < 2 ^ 16)
    (onward : ∀ stat, StatAt pkt dotu stat wstat → Reads pkt (rest stat) bytes holds) :
    Reads pkt (bufGetStat old dotu >>= rest)
      (packed (bufPutWstat wstat (.ofNat (sizeWstat wstat dotu)) dotu) bytes) holds := by
  have length : (UInt16.ofNat (sizeWstat wstat dotu)).toNat = sizeWstat wstat dotu :=
    UInt16.toNat_ofNat_of_lt' fits
  simp only [sizeWstat, strlen?] at fits
  simp only [bufGetStat, bind_assoc, bufPutWstat, packed_append]
  refine reads_int16 (reads_int16 (reads_int32 (reads_qid (reads_int32 (reads_int32 (reads_int32
    (reads_int64 (reads_str (by omega) fun name nameAt => reads_str (by omega) fun uid uidAt =>
    reads_str (by omega) fun gid gidAt => reads_str (by omega) fun muid muidAt => ?_))))))))
  cases dotu with
  | false =>
      refine onward _ ⟨length, rfl, rfl, rfl, rfl, rfl, rfl, rfl, nameAt, uidAt, gidAt, muidAt,
        ?_, ?_, ?_, ?_⟩ <;> exact fun extended => by cases extended
  | true =>
      simp only [if_true, bind_assoc] at fits ⊢
      refine reads_str (by omega) fun extension extensionAt => reads_int32 (reads_int32
        (reads_int32 ?_))
      exact onward _ ⟨length, rfl, rfl, rfl, rfl, rfl, rfl, rfl, nameAt, uidAt, gidAt, muidAt,
        fun _ => extensionAt, fun _ => rfl, fun _ => rfl, fun _ => rfl⟩

/-! ## The whole packet -/

/-- A message was parsed: it keeps the header of `fc`, and satisfies `carried`. -/
def Parsed (fc : Npfcall) (carried : Npfcall → Prop) (result : Option Npfcall) : Prop :=
  ∃ message, result = some message ∧
    (message.size = fc.size ∧ message.type = fc.type ∧ message.tag = fc.tag) ∧ carried message

theorem reads_parsed {fc message : Npfcall} {carried : Npfcall → Prop}
    (kept : message.size = fc.size ∧ message.type = fc.type ∧ message.tag = fc.tag)
    (satisfied : carried message) :
    Reads pkt (pure (some message)) bytes (Parsed fc carried) :=
  reads_done ⟨message, rfl, kept, satisfied⟩

end Reading

/-- `np_deserialize` accepts a packet whose fields its parser reads. -/
theorem npDeserialize_of_reads (old : Npfcall) {pkt body : List UInt8} {dotu : Bool}
    {size : UInt32} {type : MsgType} {tag : UInt16} {carried : Npfcall → Prop}
    (split : pkt = header size type tag ++ body) (length : pkt.length = size.toNat)
    (small : size.toNat < 2 ^ 31)
    (reads : ∀ fc, Reads pkt (getBody dotu fc type) body (Parsed fc carried)) :
    ∃ message, npDeserialize old pkt dotu = some message ∧ message.size = size ∧
      message.type = type.code ∧ message.tag = tag ∧ carried message := by
  have announced : announcedSize pkt = size := by
    rw [split]
    exact announcedSize_bytes32 size _
  have least : 7 ≤ pkt.length := by
    rw [split]
    simp
  have window : (packetBody pkt).ep = pkt.length := by
    rw [packetBody_window (by rw [announced]; omega) (by rw [announced]; omega), announced, length]
  have whole : Reads pkt (packetParser old pkt dotu) ([type.code] ++ (bytes16 tag ++ body))
      (fun result => ∃ message, result = some message ∧ message.size = size ∧
        message.type = type.code ∧ message.tag = tag ∧ carried message) := by
    refine reads_int8 (reads_int16 ?_)
    intro front buf
    rw [MsgType.ofCode?_code, announced]
    intro split mem position window
    obtain ⟨⟨message, result, ⟨sameSize, sameType, sameTag⟩, satisfied⟩, inside⟩ :=
      reads _ front buf split mem position window
    exact ⟨⟨message, result, sameSize, sameType, sameTag, satisfied⟩, inside⟩
  obtain ⟨⟨message, result, facts⟩, inside⟩ :=
    whole (bytes32 size) (packetBody pkt) (by rw [split]; rfl) rfl rfl window
  refine ⟨message, ?_, facts⟩
  rw [npDeserialize_eq]
  exact overflowTest_eq_some.mpr ⟨result, by simp [result], decide_eq_false (not_lt.mpr inside)⟩

/-! ## Round trips -/

/-- A constructor's packet, also after `np_set_tag`. -/
def retag (tag : Option UInt16) (fc : Npfcall) : Npfcall :=
  match tag with
  | none => fc
  | some tag => npSetTag fc tag

/-- The constructor builds a packet, and `np_deserialize` reads it back: the type, the tag, the size
and what `carried` asks for. -/
def RoundTrip (create : Malloc → Option Npfcall) (dotu : Bool) (type : MsgType)
    (carried : List UInt8 → Npfcall → Prop) : Prop :=
  ∀ (heap : Malloc) (old : Npfcall) (tag : Option UInt16), ∃ fc, create heap = some fc ∧
    ∃ message, npDeserialize old (retag tag fc).pkt dotu = some message ∧
      message.type = type.code ∧ message.tag = tag.getD NOTAG ∧
      message.size.toNat = fc.pkt.length ∧ carried (retag tag fc).pkt message

/-- A packet that holds the header and the fields is read back, whatever its tag. -/
theorem readBack {type : MsgType} {size : UInt32} {fields : List PutOp} {dotu : Bool}
    {carried : List UInt8 → Npfcall → Prop} {fc : Npfcall} {tail : List UInt8}
    (content : fc.pkt = header (size + 7) type NOTAG ++ packed fields tail)
    (length : fc.pkt.length = size.toNat + 7) (small : size.toNat + 7 < 2 ^ 31)
    (reads : ∀ pkt fc, Reads pkt (getBody dotu fc type) (packed fields tail)
      (Parsed fc (carried pkt))) (old : Npfcall) (tag : Option UInt16) :
    ∃ message, npDeserialize old (retag tag fc).pkt dotu = some message ∧
      message.type = type.code ∧ message.tag = tag.getD NOTAG ∧
      message.size.toNat = fc.pkt.length ∧ carried (retag tag fc).pkt message := by
  have total : (size + 7).toNat = size.toNat + 7 := by
    rw [UInt32.toNat_add]
    exact Nat.mod_eq_of_lt (by simpa using by omega)
  have tagged : (retag tag fc).pkt =
      header (size + 7) type (tag.getD NOTAG) ++ packed fields tail := by
    cases tag with
    | none => exact content
    | some tag => exact npSetTag_pkt content tag
  have sameLength : (retag tag fc).pkt.length = (size + 7).toNat := by
    rw [tagged, total, ← length, content]
    simp only [List.length_append, header_length]
  obtain ⟨message, accepted, sameSize, sameType, sameTag, satisfied⟩ :=
    npDeserialize_of_reads old tagged sameLength (by omega) fun fc => reads _ fc
  exact ⟨message, accepted, sameType, sameTag, by rw [sameSize, total, length], satisfied⟩

/-- A constructor whose size formula leaves room for its fields round trips, if its fields are read
in the order in which they were written. -/
theorem roundTrip_of_reads {type : MsgType} {size : UInt32} {fields : List PutOp} {dotu : Bool}
    {carried : List UInt8 → Npfcall → Prop} (fits : ∀ op ∈ fields, op.Fits)
    (room : (packed fields []).length ≤ size.toNat) (small : size.toNat + 7 < 2 ^ 31)
    (reads : ∀ tail pkt fc, tail.length + (packed fields []).length = size.toNat →
      Reads pkt (getBody dotu fc type) (packed fields tail) (Parsed fc (carried pkt))) :
    RoundTrip (npCreate type size fields) dotu type carried := by
  intro heap old tag
  obtain ⟨fc, tail, created, content, length⟩ := created_packet heap type fits room small
  refine ⟨fc, created, readBack content length small (fun pkt fc => reads tail pkt fc ?_) old tag⟩
  rw [content, packed_tail] at length
  simp only [List.length_append, header_length] at length
  omega

end Npfs
