import Npfs.IoCount

/-!
# Replies that are allocated and cut short

A backend fills the room that `np_alloc_rread` or `np_alloc_rreaddir` has made in a reply, and
`np_set_rread_count` or `np_set_rreaddir_count` cuts the reply to what has been filled.  What is
sent is the packet that `np_create_rread` or `np_create_rreaddir` makes of the data.
-/

namespace Npfs

open LittleEndian

/-- The two kinds of replies with data. -/
inductive DataReply where
  | rread
  | rreaddir

namespace DataReply

def type : DataReply → MsgType
  | rread => .rread
  | rreaddir => .rreaddir

/-- `np_alloc_rread` and `np_alloc_rreaddir`. -/
def alloc : DataReply → (count : UInt32) → Malloc → Option Npfcall
  | rread => npAllocRread
  | rreaddir => npAllocRreaddir

/-- `np_create_rread` and `np_create_rreaddir`. -/
def create : DataReply → (count : UInt32) → (data : List UInt8) → Malloc → Option Npfcall
  | rread => npCreateRread
  | rreaddir => npCreateRreaddir

end DataReply

/-- Fill the room behind `rc->data`. -/
def Npfcall.fillData (rc : Npfcall) (data : List UInt8) : Npfcall :=
  match rc.data with
  | none => rc
  | some ptr => { rc with pkt := store rc.pkt ptr.toNat data }

/-- The bytes of a reply that are sent are the packet of another one, with the data behind the
header. -/
structure SentAs (data : List UInt8) (rc direct : Npfcall) : Prop where
  size : rc.size = direct.size
  sent : rc.pkt.take rc.size.toNat = direct.pkt
  data : (rc.pkt.drop 11).take data.length = data

/-! ## Setting the count -/

section Shrink

variable {count : UInt32} {fc : Npfcall}

theorem shrunk_toNat (small : 11 + count.toNat < 2 ^ 31) :
    (4 + 1 + 2 + 4 + count : UInt32).toNat = 11 + count.toNat := by
  rw [UInt32.toNat_add]
  exact Nat.mod_eq_of_lt (by simpa using by omega)

/-- The size and the count are stored over those that are there. -/
theorem npSetCount_eq (small : 11 + count.toNat < 2 ^ 31) : npSetCount fc count =
    { fc with
      size := 4 + 1 + 2 + 4 + count
      count
      pkt := store (store fc.pkt 0 (bytes32 (4 + 1 + 2 + 4 + count))) 7 (bytes32 count) } := by
  have total := shrunk_toNat small
  have rest : (4 + 1 + 2 + 4 + count - 7 : UInt32).toNat = 4 + count.toNat := by
    have seven : (7 : UInt32) ≤ 4 + 1 + 2 + 4 + count := by
      rw [UInt32.le_iff_toNat_le, total]
      exact Nat.le_add_right_of_le (by decide)
    have value : (7 : UInt32).toNat = 7 := rfl
    rw [UInt32.toNat_sub_of_le _ _ seven, total, value]
    omega
  have first : (Cbuf.bufInit fc.pkt 0 (cint (4 + 1 + 2 + 4 + count))).p +
      (bytes32 (4 + 1 + 2 + 4 + count)).length ≤
        (Cbuf.bufInit fc.pkt 0 (cint (4 + 1 + 2 + 4 + count))).ep := by
    rw [cint_of_lt (by omega), total, bytes32_length]
    simp only [Cbuf.bufInit]
    omega
  have second (mem : List UInt8) : (Cbuf.bufInit mem 7 (cint (4 + 1 + 2 + 4 + count - 7))).p +
      (bytes32 count).length ≤ (Cbuf.bufInit mem 7 (cint (4 + 1 + 2 + 4 + count - 7))).ep := by
    rw [cint_of_lt (by omega), rest, bytes32_length]
    simp only [Cbuf.bufInit]
    omega
  simp only [npSetCount, bufPutInt32, bufPut_eq first, bufPut_eq (second _)]
  rfl

theorem store_header {size size' : UInt32} {type : MsgType} {tag : UInt16} {rest : List UInt8} :
    store (header size type tag ++ rest) 0 (bytes32 size') = header size' type tag ++ rest := rfl

theorem store_count {size old : UInt32} {type : MsgType} {tag : UInt16} {rest : List UInt8} :
    store (header size type tag ++ (bytes32 old ++ rest)) 7 (bytes32 count) =
      header size type tag ++ (bytes32 count ++ rest) := rfl

/-- The tag and the bytes behind the count stay. -/
theorem npSetCount_pkt {size old : UInt32} {type : MsgType} {tag : UInt16} {rest : List UInt8}
    (small : 11 + count.toNat < 2 ^ 31)
    (pkt : fc.pkt = header size type tag ++ (bytes32 old ++ rest)) :
    (npSetCount fc count).pkt =
      header (4 + 1 + 2 + 4 + count) type tag ++ (bytes32 count ++ rest) := by
  rw [npSetCount_eq small]
  dsimp only
  rw [pkt, store_header, store_count]

end Shrink

/-! ## The allocated reply -/

namespace DataReply

variable (kind : DataReply) {count n : UInt32} {data : List UInt8}

/-- The room for the data is behind the count. -/
theorem alloc_eq (small : count.toNat + 11 < 2 ^ 31) (heap : Malloc) :
    ∃ fc junk, kind.alloc count heap = some fc ∧ fc.count = count ∧ fc.data = some 11 ∧
      fc.pkt = header (4 + count + 7) kind.type NOTAG ++ (bytes32 count ++ junk) ∧
      junk.length = count.toNat := by
  obtain ⟨fc, junk, created, content, length, pointer⟩ := @alloc_packet heap kind.type count small
  refine ⟨fc, junk, ?_, ?_, pointer, ?_, length⟩
  · cases kind <;> exact created
  · -- The statement that stores the count sets `fc->count`, and the one behind it keeps it.
    have size : (4 + count : UInt32).toNat = 4 + count.toNat := by
      rw [UInt32.toNat_add]
      exact Nat.mod_eq_of_lt (by simpa using by omega)
    have start := @npCreateCommon_holds heap (4 + count) kind.type (by omega)
    have room : (npCreateCommon heap (4 + count) kind.type).1.p + (bytes32 count).length ≤
        (npCreateCommon heap (4 + count) kind.type).1.ep :=
      start.room (by rw [header_length, bytes32_length]; omega)
    rw [npCreate] at created
    obtain ⟨packing, stored, checked⟩ := Option.bind_eq_some_iff.mp created
    have last : packing.2.count = count := by
      simp only [PutOp.execAll, PutOp.exec, bufPutInt32, Option.bind_eq_bind,
        Option.bind_some] at stored
      rw [bufPut_eq room] at stored
      rw [← Option.some.inj stored]
      rfl
    unfold npPostCheck at checked
    split_ifs at checked
    rw [← Option.some.inj checked]
    exact last
  · rw [content, List.append_assoc]

/-- The direct reply. -/
theorem create_eq (length : data.length = n.toNat) (small : n.toNat + 11 < 2 ^ 31)
    (heap : Malloc) : ∃ fc, kind.create n data heap = some fc ∧ fc.size.toNat = fc.pkt.length ∧
      fc.pkt = header (4 + 1 + 2 + 4 + n) kind.type NOTAG ++ (bytes32 n ++ data) := by
  have fills : Fills (kind.create n data) kind.type (bytes32 n ++ data) := by
    cases kind with
    | rread => exact fills_rread length small
    | rreaddir => exact fills_rreaddir length small
  obtain ⟨fc, created, filled⟩ := fills heap
  have size : fc.size = 4 + 1 + 2 + 4 + n := by
    have total := filled.size
    rw [filled.length, List.length_append, bytes32_length, length] at total
    rw [← UInt32.toNat_inj, shrunk_toNat (by omega), total]
    omega
  exact ⟨fc, created, filled.size, size ▸ filled.pkt⟩

/-- The data take the place of what the room held. -/
theorem fillData_pkt {fc : Npfcall} {size : UInt32} {junk : List UInt8}
    (pointer : fc.data = some 11)
    (content : fc.pkt = header size kind.type NOTAG ++ (bytes32 count ++ junk)) :
    (fc.fillData data).pkt =
      header size kind.type NOTAG ++ (bytes32 count ++ (data ++ junk.drop data.length)) := by
  have eleven : (11 : ℤ).toNat = 11 := rfl
  have front : (header size kind.type NOTAG ++ bytes32 count).length = 11 := rfl
  rw [Npfcall.fillData, pointer]
  dsimp only
  rw [content, eleven, store, ← List.append_assoc, ← List.append_assoc, List.take_left' front,
    List.drop_append, List.drop_eq_nil_of_le (by rw [front]; omega), List.nil_append, front,
    Nat.add_sub_cancel_left]
  simp only [List.append_assoc]

/-- What is sent of a packet that is longer than it says. -/
theorem sentAs_of_pkt {rc direct : Npfcall} {tag : UInt16} {rest : List UInt8}
    (length : data.length = n.toNat) (small : 11 + n.toNat < 2 ^ 31)
    (size : rc.size = 4 + 1 + 2 + 4 + n)
    (pkt : rc.pkt =
      header (4 + 1 + 2 + 4 + n) kind.type tag ++ (bytes32 n ++ (data ++ rest)))
    (announced : direct.size.toNat = direct.pkt.length)
    (direct' : direct.pkt = header (4 + 1 + 2 + 4 + n) kind.type tag ++ (bytes32 n ++ data)) :
    SentAs data rc direct := by
  have total : direct.pkt.length = 11 + n.toNat := by
    rw [direct']
    simp only [List.length_append, header_length, bytes32_length, length]
    omega
  have whole : rc.pkt = direct.pkt ++ rest := by
    rw [pkt, direct']
    simp only [List.append_assoc]
  refine ⟨?_, ?_, ?_⟩
  · rw [← UInt32.toNat_inj, announced, total, size, shrunk_toNat small]
  · rw [whole, size, shrunk_toNat small, ← total]
    exact List.take_left
  · have behind : rc.pkt.drop 11 = data ++ rest := by
      rw [pkt]
      rfl
    rw [behind]
    exact List.take_left

/-- Filled, cut to `n` bytes and tagged, in either order, a reply is sent as the direct one. -/
theorem shrunk_sentAs (tag : UInt16) (heap heap' : Malloc) (small : count.toNat + 11 < 2 ^ 31)
    (within : n ≤ count) (length : data.length = n.toNat) :
    ∃ fc direct, kind.alloc count heap = some fc ∧ kind.create n data heap' = some direct ∧
      n ≤ fc.count ∧
      SentAs data (npSetTag (npSetCount (fc.fillData data) n) tag) (npSetTag direct tag) ∧
      SentAs data (npSetCount (npSetTag (fc.fillData data) tag) n) (npSetTag direct tag) := by
  have less : n.toNat ≤ count.toNat := UInt32.le_iff_toNat_le.mp within
  have small' : 11 + n.toNat < 2 ^ 31 := by omega
  obtain ⟨fc, junk, allocated, counted, pointer, content, -⟩ := kind.alloc_eq small heap
  obtain ⟨direct, created, announced, packet⟩ := kind.create_eq length (by omega) heap'
  have filled := @fillData_pkt kind count data fc _ junk pointer content
  have direct' := npSetTag_pkt packet tag
  have announced' : (npSetTag direct tag).size.toNat = (npSetTag direct tag).pkt.length := by
    rw [npSetTag]
    simpa using announced
  refine ⟨fc, direct, allocated, created, counted ▸ within, ?_, ?_⟩
  · have shrunk := npSetTag_pkt (npSetCount_pkt small' filled) tag
    refine kind.sentAs_of_pkt length small' ?_ shrunk announced' direct'
    rw [npSetCount_eq small']
    rfl
  · have shrunk := npSetCount_pkt small' (npSetTag_pkt filled tag)
    refine kind.sentAs_of_pkt length small' ?_ shrunk announced' direct'
    rw [npSetCount_eq small']

/-- Five bytes of data in a reply for eight. -/
theorem shrunk_sentAs_five : ∃ fc direct,
    npAllocRread 8 ⟨default, fun _ => 0⟩ = some fc ∧
      npCreateRread 5 [1, 2, 3, 4, 5] ⟨default, fun _ => 0⟩ = some direct ∧
      (5 : UInt32) ≤ fc.count ∧
      SentAs [1, 2, 3, 4, 5] (npSetTag (npSetCount (fc.fillData [1, 2, 3, 4, 5]) 5) 7)
        (npSetTag direct 7) ∧
      SentAs [1, 2, 3, 4, 5] (npSetCount (npSetTag (fc.fillData [1, 2, 3, 4, 5]) 7) 5)
        (npSetTag direct 7) :=
  shrunk_sentAs .rread 7 ⟨default, fun _ => 0⟩ ⟨default, fun _ => 0⟩ (by decide) (by decide) rfl

end DataReply

end Npfs
