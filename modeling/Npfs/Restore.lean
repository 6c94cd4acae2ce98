import Npfs.Checkpoint

/-!
# Restoring a checkpoint

`ufs_restore` of `libufs/ufs.c`, which reads what `ufs_checkpoint` has written.  A read that finds
no byte at all gives zeros and moves nothing, so that data which end between two fields do not
overflow.
-/

namespace Npfs

namespace Ufs

open LittleEndian Program

/-! ## Reading -/

/-- What is read of a fid.  The strings and the value are still in the buffer. -/
structure Saved where
  fid : UInt32
  omode : UInt16
  type : UInt16
  diroffset : UInt32
  uid : UInt32
  path : Npstr
  fomode : UInt32
  xattrname : Npstr
  xattrflags : UInt32
  xattrsz : UInt64
  value : Option Int

/-- What is read of a connection, and the two tests at the end. -/
structure Image where
  msize : UInt32
  dotu : UInt8
  dotl : UInt8
  nfids : UInt32
  fids : List Saved
  overflow : Bool
  extra : Bool

/-- `buf_check_overflow`.  No cursor moves when no byte is asked for. -/
def getOverflow : Get Bool := do
  let ptr ← getAlloc 0
  return ptr.isNone

/-- `buf_check_size` of one byte, behind the last field. -/
def getExtra : Get Bool := do
  let ptr ← getAlloc 1
  return ptr.isSome

/-- The fields of a fid behind its number. -/
def getSaved (fid : UInt32) : Get Saved := do
  let omode ← getInt16
  let type ← getInt16
  let diroffset ← getInt32
  let uid ← getInt32
  let path ← bufGetStr
  let fomode ← getInt32
  let xattrname ← bufGetStr
  let xattrflags ← getInt32
  let xattrsz ← getInt64
  let value ← getAlloc (cint xattrsz.toUInt32)
  return { fid, omode, type, diroffset, uid, path, fomode, xattrname, xattrflags, xattrsz, value }

/-- The loop of `ufs_restore`, which ends when the number of a fid is cut. -/
def getFids : ℕ → Get (List Saved)
  | 0 => return []
  | n + 1 => do
    let fid ← getInt32
    let overflow ← getOverflow
    if overflow then
      return []
    else
      let saved ← getSaved fid
      let fids ← getFids n
      return saved :: fids

/-- All that `ufs_restore` reads. -/
def getImage : Get Image := do
  let msize ← getInt32
  let dotu ← getInt8
  let dotl ← getInt8
  let nfids ← getInt32
  let fids ← getFids (cint nfids).toNat
  let overflow ← getOverflow
  let extra ← getExtra
  return { msize, dotu, dotl, nfids, fids, overflow, extra }

/-- The bytes that a `memmove` reads are in the buffer. -/
def inside (data : List UInt8) (ptr : Option Int) (len : ℕ) : Bool :=
  len = 0 || ptr.any fun start : Int => 0 ≤ start ∧ start + len ≤ data.length

/-- What is copied of a fid is in the buffer: its strings, and the value of an attribute unless its
pointer is `NULL`. -/
def Saved.copies (data : List UInt8) (saved : Saved) : Bool :=
  inside data saved.path.str saved.path.len.toNat &&
    inside data saved.xattrname.str saved.xattrname.len.toNat &&
    (saved.type &&& Ftxattr = 0 || saved.value.isNone ||
      inside data saved.value saved.xattrsz.toNat)

/-- What `ufs_restore` comes to; a fault is a copy from outside of the buffer, or the `memset` of a
negative number of pointers. -/
inductive Restored where
  | fault
  | rejected
  | restored
  deriving DecidableEq

/-- The bytes of the messages that fit: `if (errsz > n) n += snprintf(…)` for each. -/
def reported (errsz : Int) (messages : List ℕ) : ℕ :=
  messages.foldl (fun n length => if n < errsz then n + length else n) 0

/-- The lengths of what `restore_setup_fids` has to report of the files of the fids, or nothing if
the thread for it cannot be had. -/
abbrev Setup := Image → Option (List ℕ)

/-- `ufs_restore` behind its loop. -/
def Image.finish (image : Image) (setup : Setup) (errsz : Int) : Restored :=
  if image.overflow || image.extra then .rejected
  else
    match setup image with
    | none => .rejected
    | some messages => if 0 < reported errsz messages then .rejected else .restored

/-- What `ufs_restore` makes of a buffer with these bytes. -/
def restoreBuffer (setup : Setup) (data : List UInt8) (errsz : Int) : Restored :=
  let image := (getImage.run GetOp.exec (Cbuf.bufInit data 0 data.length)).1
  if cint image.nfids < 0 || !image.fids.all (·.copies data) then .fault
  else image.finish setup errsz

/-! ## What is rejected -/

/-- The data are rejected, whatever the files are and however large the buffer for messages is. -/
def Rejects (data : List UInt8) : Prop := ∀ setup errsz, restoreBuffer setup data errsz = .rejected

/-- Nothing is read outside of the data. -/
def StaysInside (data : List UInt8) : Prop := ∀ setup errsz, restoreBuffer setup data errsz ≠ .fault

/-- A part of a checkpoint: a number, the text of a string, or the value of an attribute. -/
inductive Piece where
  | number (width : ℕ)
  | text (width : ℕ)
  | value (width : ℕ)

/-- How many bytes it takes. -/
def Piece.width : Piece → ℕ
  | number width | text width | value width => width

/-- It is the text of a string. -/
def Piece.isText : Piece → Bool
  | text _ => true
  | number _ | value _ => false

/-- The parts of a record.  A string has its length in front. -/
def Record.pieces (r : Record) : List Piece :=
  [.number 4, .number 2, .number 2, .number 4, .number 4, .number 2, .text r.aux.path.strlen,
    .number 4, .number 2, .text (strlen? r.aux.xattrname), .number 4, .number 8,
    .value r.aux.xattrsz.toNat]

/-- The parts of a checkpoint. -/
def pieces (rs : List Record) : List Piece :=
  [Piece.number 4, .number 1, .number 1, .number 4] ++ rs.flatMap Record.pieces

/-- The first `k` bytes of these parts end inside of a number or of a value. -/
def EndsInside (parts : List Piece) (k : ℕ) : Prop :=
  ∃ front, ∃ piece : Piece, ∃ back, parts = front ++ piece :: back ∧ piece.isText = false ∧
    (front.map Piece.width).sum < k ∧ k < (front.map Piece.width).sum + piece.width

/-- The first `k` bytes of a checkpoint do. -/
def Torn (rs : List Record) (k : ℕ) : Prop := EndsInside (pieces rs) k

/-- The numbers at the front of some bytes. -/
def at16 (d : List UInt8) : UInt16 := word16 fun k => d.getD k 0

def at32 (d : List UInt8) : UInt32 := word32 fun k => d.getD k 0

def at64 (d : List UInt8) : UInt64 := word64 fun k => d.getD k 0

/-- The length of the string at the front is there, but not its text. -/
def StrCut (d : List UInt8) : Prop := 2 ≤ d.length ∧ (d.drop 2).length < (at16 d).toNat

/-- What follows the string at the front. -/
def behindStr (d : List UInt8) : List UInt8 := (d.drop 2).drop (at16 d).toNat

/-- Where the name of the attribute of the first record is. -/
def nameOf (d : List UInt8) : List UInt8 := (behindStr (d.drop 16)).drop 4

/-- Where the size of its value is. -/
def sizeOf (d : List UInt8) : List UInt8 := (behindStr (nameOf d)).drop 4

/-- What follows the first record. -/
def behindRecord (d : List UInt8) : List UInt8 :=
  ((sizeOf d).drop 8).drop (at64 (sizeOf d)).toNat

/-- The text of a string is not all there. -/
def Dangles : ℕ → List UInt8 → Prop
  | 0, _ => False
  | n + 1, d => StrCut (d.drop 16) ∨ StrCut (nameOf d) ∨ Dangles n (behindRecord d)

/-- The sizes of the values that are there have 31 bits. -/
def SmallSizes : ℕ → List UInt8 → Prop
  | 0, _ => True
  | n + 1, d => (8 ≤ (sizeOf d).length → (at64 (sizeOf d)).toNat < 2 ^ 31) ∧
      SmallSizes n (behindRecord d)

/-- The number of records that the data announce. -/
def announced (data : List UInt8) : ℕ :=
  if 10 ≤ data.length then (at32 (data.drop 6)).toNat else 0

/-- The counts and lengths of the data have 31 bits. -/
def Counts31 (data : List UInt8) : Prop :=
  announced data < 2 ^ 31 ∧ SmallSizes (announced data) (data.drop 10)

/-! ## The cursor -/

/-- What is in front of the cursor; `past` is the place behind the end that a failed test puts it
to. -/
inductive Mode where
  | reading (rest : List UInt8)
  | past

namespace Mode

/-- The cursor is there. -/
def At (data : List UInt8) : Mode → Cbuf → Prop
  | reading rest, buf => buf.mem = data ∧ buf.ep = data.length ∧
      ∃ front, front ++ rest = data ∧ buf.p = front.length
  | past, buf => buf.mem = data ∧ buf.ep = data.length ∧ buf.ep < buf.p

/-- The bytes in front of the cursor. -/
def bytes : Mode → List UInt8
  | reading rest => rest
  | past => []

/-- There are so many bytes. -/
def has (w : ℕ) : Mode → Bool
  | reading rest => w ≤ rest.length
  | past => false

/-- Read so many bytes. -/
def adv (w : ℕ) : Mode → Mode
  | reading rest =>
    if w ≤ rest.length then reading (rest.drop w) else if rest = [] then reading [] else past
  | past => past

/-- The number that is read. -/
def value16 (m : Mode) : UInt16 := if m.has 2 then at16 m.bytes else 0

def value32 (m : Mode) : UInt32 := if m.has 4 then at32 m.bytes else 0

def value64 (m : Mode) : UInt64 := if m.has 8 then at64 m.bytes else 0

/-- The pointer to so many bytes. -/
def ptr (data : List UInt8) (w : ℕ) (m : Mode) : Option Int :=
  if m.has w then some ((data.length : Int) - m.bytes.length) else none

variable {α β : Type} {data rest : List UInt8} {m m' m'' : Mode} {buf : Cbuf} {w : ℕ}

theorem At.exec (here : m.At data buf) (op : GetOp) (width : op.width = w) :
    (m.adv w).At data (op.exec buf).2 ∧
      (op.exec buf).1 = if m.has w then op.value buf else op.blank := by
  cases m with
  | past =>
      obtain ⟨mem, window, behind⟩ := here
      rw [GetOp.exec_of_missing (by omega), Cbuf.spoil, if_neg (by omega)]
      exact ⟨⟨mem, window, behind⟩, rfl⟩
  | reading rest =>
      obtain ⟨mem, window, front, split, position⟩ := here
      have length : (data.length : Int) = front.length + rest.length := by
        rw [← split, List.length_append]
        rfl
      by_cases enough : w ≤ rest.length
      · rw [GetOp.exec_of_fits (by omega)]
        simp only [adv, has, if_pos enough, decide_eq_true enough, if_true]
        refine ⟨⟨mem, window, front ++ rest.take w, ?_, ?_⟩, trivial⟩
        · rw [List.append_assoc, List.take_append_drop, split]
        · simp only [Cbuf.advance, List.length_append, List.length_take, width]
          omega
      · rw [GetOp.exec_of_missing (by omega)]
        simp only [adv, has, if_neg enough, decide_eq_false enough, Bool.false_eq_true, if_false]
        refine ⟨?_, trivial⟩
        by_cases empty : rest = []
        · have atEnd : ¬ buf.p < buf.ep := by
            rw [empty, List.length_nil] at length
            omega
          rw [if_pos empty, Cbuf.spoil, if_neg atEnd]
          exact ⟨mem, window, front, empty ▸ split, position⟩
        · have more := List.length_pos_of_ne_nil empty
          rw [if_neg empty, Cbuf.spoil, if_pos (by omega)]
          exact ⟨mem, window, by simp⟩

theorem At.byte (here : (reading rest).At data buf) : buf.byte = fun k => rest.getD k 0 := by
  obtain ⟨mem, window, front, split, position⟩ := here
  funext k
  have index : buf.p.toNat + k = front.length + k := by omega
  rw [Cbuf.byte, mem, ← split, index, List.getD_eq_getElem?_getD, List.getD_eq_getElem?_getD,
    List.getElem?_append_right (Nat.le_add_right _ _), Nat.add_sub_cancel_left]

theorem At.position (here : (reading rest).At data buf) :
    buf.p = (data.length : Int) - rest.length := by
  obtain ⟨mem, window, front, split, position⟩ := here
  rw [position, ← split, List.length_append]
  omega

theorem bytes_adv (w : ℕ) (m : Mode) : (m.adv w).bytes = m.bytes.drop w := by
  cases m with
  | past => exact List.drop_nil.symm
  | reading rest =>
      by_cases enough : w ≤ rest.length
      · rw [adv, if_pos enough]
        rfl
      · have none_left : rest.drop w = [] := List.drop_eq_nil_of_le (by omega)
        rw [adv, if_neg enough]
        split_ifs <;> exact none_left.symm

/-- Where nothing is left, nothing moves. -/
theorem adv_of_empty (empty : m.bytes = []) (w : ℕ) : m.adv w = m := by
  cases m with
  | past => rfl
  | reading rest =>
      obtain rfl : rest = [] := empty
      simp [adv]

theorem adv_zero (m : Mode) : m.adv 0 = m := by
  cases m <;> simp [adv]

theorem has_iff (positive : 0 < w) : m.has w = true ↔ w ≤ m.bytes.length := by
  cases m with
  | past => simp [has, bytes, positive.ne']
  | reading rest => exact decide_eq_true_iff

theorem value16_eq (m : Mode) : m.value16 = if 2 ≤ m.bytes.length then at16 m.bytes else 0 := by
  rw [value16]
  exact if_congr (has_iff (by decide)) rfl rfl

theorem value32_eq (m : Mode) : m.value32 = if 4 ≤ m.bytes.length then at32 m.bytes else 0 := by
  rw [value32]
  exact if_congr (has_iff (by decide)) rfl rfl

theorem value16_of_front {val : UInt16} (front : m.bytes = bytes16 val ++ rest) :
    m.value16 = val := by
  rw [value16_eq, front, if_pos (by simp)]
  exact word16_bytes16 val

theorem value32_of_front {val : UInt32} (front : m.bytes = bytes32 val ++ rest) :
    m.value32 = val := by
  rw [value32_eq, front, if_pos (by simp)]
  exact word32_bytes32 val

theorem value64_eq (m : Mode) : m.value64 = if 8 ≤ m.bytes.length then at64 m.bytes else 0 := by
  rw [value64]
  exact if_congr (has_iff (by decide)) rfl rfl

theorem value64_of_front {val : UInt64} (front : m.bytes = bytes64 val ++ rest) :
    m.value64 = val := by
  rw [value64_eq, front, if_pos (by simp)]
  exact word64_bytes64 val

/-! ## Parsers -/

/-- From there the parser gives that and ends there. -/
def Parses (data : List UInt8) (program : Get α) (m : Mode) (result : α) (m' : Mode) : Prop :=
  ∀ buf, m.At data buf →
    (program.run GetOp.exec buf).1 = result ∧ m'.At data (program.run GetOp.exec buf).2

theorem parses_done (result : α) : Parses data (.done result) m result m :=
  fun _ here => ⟨rfl, here⟩

theorem Parses.bind {program : Get α} {next : α → Get β} {result : α} {result' : β}
    (first : Parses data program m result m')
    (onward : Parses data (next result) m' result' m'') :
    Parses data (program >>= next) m result' m'' := by
  intro buf here
  obtain ⟨given, there⟩ := first buf here
  rw [run_bind, given]
  exact onward _ there

theorem parses_int8 : ∃ val, Parses data getInt8 m val (m.adv 1) := by
  refine ⟨if m.has 1 then m.bytes.getD 0 0 else 0, fun buf here => ?_⟩
  obtain ⟨there, reply⟩ := here.exec .int8 rfl
  refine ⟨reply.trans ?_, there⟩
  cases m with
  | past => rfl
  | reading rest =>
      simp only [GetOp.value, here.byte]
      rfl

theorem parses_int16 : Parses data getInt16 m m.value16 (m.adv 2) := by
  intro buf here
  obtain ⟨there, reply⟩ := here.exec .int16 rfl
  refine ⟨reply.trans ?_, there⟩
  cases m with
  | past => rfl
  | reading rest =>
      simp only [GetOp.value, here.byte]
      rfl

theorem parses_int32 : Parses data getInt32 m m.value32 (m.adv 4) := by
  intro buf here
  obtain ⟨there, reply⟩ := here.exec .int32 rfl
  refine ⟨reply.trans ?_, there⟩
  cases m with
  | past => rfl
  | reading rest =>
      simp only [GetOp.value, here.byte]
      rfl

theorem parses_int64 : Parses data getInt64 m m.value64 (m.adv 8) := by
  intro buf here
  obtain ⟨there, reply⟩ := here.exec .int64 rfl
  refine ⟨reply.trans ?_, there⟩
  cases m with
  | past => rfl
  | reading rest =>
      simp only [GetOp.value, here.byte]
      rfl

theorem parses_alloc {len : Int} (count : len = w) :
    Parses data (getAlloc len) m (m.ptr data w) (m.adv w) := by
  intro buf here
  obtain ⟨there, reply⟩ := here.exec (.alloc len) count
  refine ⟨reply.trans ?_, there⟩
  cases m with
  | past => rfl
  | reading rest =>
      simp only [GetOp.value, here.position]
      rfl

theorem parses_overflow : Parses data getOverflow m (!m.has 0) m := by
  have test : (m.ptr data 0).isNone = !m.has 0 := by
    cases known : m.has 0 <;> simp [ptr, known]
  rw [← test]
  nth_rewrite 3 [← adv_zero m]
  exact (parses_alloc rfl).bind (parses_done _)

theorem parses_extra : Parses data getExtra m (m.has 1) (m.adv 1) := by
  have test : (m.ptr data 1).isSome = m.has 1 := by
    cases known : m.has 1 <;> simp [ptr, known]
  rw [← test]
  exact (parses_alloc rfl).bind (parses_done _)

/-! ## Strings -/

/-- The string in front of the cursor. -/
def str (data : List UInt8) (m : Mode) : Npstr :=
  ⟨m.value16, (m.adv 2).ptr data m.value16.toNat⟩

/-- Behind that string. -/
def skipStr (m : Mode) : Mode := (m.adv 2).adv m.value16.toNat

theorem parses_str : Parses data bufGetStr m (m.str data) m.skipStr :=
  parses_int16.bind ((parses_alloc rfl).bind (parses_done _))

theorem bytes_skipStr (m : Mode) : m.skipStr.bytes = behindStr m.bytes := by
  rw [skipStr, bytes_adv, bytes_adv, value16_eq, behindStr]
  split_ifs with counted
  · rfl
  · have none_left : m.bytes.drop 2 = [] := List.drop_eq_nil_of_le (by omega)
    rw [none_left, List.drop_nil, List.drop_nil]

/-- A string is cut if it has a length, and fewer bytes are there. -/
theorem strCut_iff (m : Mode) : StrCut m.bytes ↔
    0 < m.value16.toNat ∧ (m.adv 2).has m.value16.toNat = false := by
  by_cases counted : 2 ≤ m.bytes.length
  · rw [StrCut, value16_eq, if_pos counted]
    rcases Nat.eq_zero_or_pos (at16 m.bytes).toNat with none_left | positive
    · simp [none_left]
    · rw [← Bool.not_eq_true, has_iff positive, bytes_adv]
      simp [counted, positive]
  · rw [StrCut, value16_eq, if_neg counted]
    simp [counted]

/-- What a pointer that was given points to is in the buffer. -/
theorem inside_ptr (room : m.bytes.length ≤ data.length) :
    inside data (m.ptr data w) w = true ↔ w = 0 ∨ m.has w = true := by
  rcases Nat.eq_zero_or_pos w with rfl | positive
  · simp [inside]
  · have apart : w ≠ 0 := positive.ne'
    cases known : m.has w with
    | false => simp [inside, ptr, known, apart]
    | true =>
        have enough := (has_iff positive).mp known
        have last : (data.length : Int) - m.bytes.length + w ≤ data.length := by omega
        simp [inside, ptr, known, room, last]

theorem inside_str (room : m.bytes.length ≤ data.length) :
    inside data (m.str data).str (m.str data).len.toNat = true ↔ ¬ StrCut m.bytes := by
  have less : (m.adv 2).bytes.length ≤ data.length := by
    rw [bytes_adv, List.length_drop]
    omega
  rw [strCut_iff]
  refine (inside_ptr less).trans ?_
  simp only [not_and_or, Bool.not_eq_false, Nat.pos_iff_ne_zero, not_not]

/-! ## Fids -/

/-- Behind the numbers of a fid, at its path. -/
def atPath (m : Mode) : Mode := ((((m.adv 4).adv 2).adv 2).adv 4).adv 4

/-- At the name of its attribute. -/
def atName (m : Mode) : Mode := m.atPath.skipStr.adv 4

/-- At the size of the value. -/
def atSize (m : Mode) : Mode := m.atName.skipStr.adv 4

/-- Behind the fid. -/
def behind (m : Mode) : Mode := (m.atSize.adv 8).adv m.atSize.value64.toNat

/-- Behind so many fids. -/
def last : ℕ → Mode → Mode
  | 0, m => m
  | n + 1, m => last n m.behind

theorem bytes_atPath (m : Mode) : m.atPath.bytes = m.bytes.drop 16 := by
  simp only [atPath, bytes_adv, List.drop_drop]

theorem bytes_atName (m : Mode) : m.atName.bytes = nameOf m.bytes := by
  rw [atName, bytes_adv, bytes_skipStr, bytes_atPath, nameOf]

theorem bytes_atSize (m : Mode) : m.atSize.bytes = sizeOf m.bytes := by
  rw [atSize, bytes_adv, bytes_skipStr, bytes_atName, sizeOf]

theorem bytes_behind (m : Mode) : m.behind.bytes = behindRecord m.bytes := by
  rw [behind, bytes_adv, bytes_adv, value64_eq, bytes_atSize, behindRecord]
  split_ifs with counted
  · rfl
  · have none_left : (sizeOf m.bytes).drop 8 = [] := List.drop_eq_nil_of_le (by omega)
    rw [none_left, List.drop_nil, List.drop_nil]

theorem behind_of_empty (empty : m.bytes = []) : m.behind = m := by
  have path : m.atPath = m := by simp only [atPath, adv_of_empty empty]
  have name : m.atName = m := by simp only [atName, path, skipStr, adv_of_empty empty]
  have size : m.atSize = m := by simp only [atSize, name, skipStr, adv_of_empty empty]
  simp only [behind, size, adv_of_empty empty]

theorem last_of_empty (empty : m.bytes = []) (n : ℕ) : last n m = m := by
  induction n with
  | zero => rfl
  | succ n ih => rw [last, behind_of_empty empty, ih]

/-- In front of nothing nothing dangles. -/
theorem not_dangles_nil (n : ℕ) : ¬ Dangles n [] := by
  induction n with
  | zero => exact id
  | succ n ih =>
      have cut : ¬ StrCut [] := by simp [StrCut]
      rintro (path | name | rest)
      · exact cut path
      · exact cut name
      · exact ih rest

theorem dangles_succ (n : ℕ) (m : Mode) : Dangles (n + 1) m.bytes ↔
    StrCut m.atPath.bytes ∨ StrCut m.atName.bytes ∨ Dangles n m.behind.bytes := by
  rw [bytes_atPath, bytes_atName, bytes_behind]
  rfl

theorem small_of_smallSizes {n : ℕ} (small : SmallSizes (n + 1) m.bytes) :
    m.atSize.value64.toNat < 2 ^ 31 := by
  rw [value64_eq, bytes_atSize]
  split_ifs with counted
  · exact small.1 counted
  · decide

/-- What is read of a fid is copied from the buffer unless a string is cut. -/
theorem parses_saved (room : m.bytes.length ≤ data.length)
    (small : m.atSize.value64.toNat < 2 ^ 31) (fid : UInt32) :
    ∃ saved, Parses data (getSaved fid) (m.adv 4) saved m.behind ∧
      (saved.copies data = true ↔ ¬ StrCut m.atPath.bytes ∧ ¬ StrCut m.atName.bytes) := by
  have count : cint m.atSize.value64.toUInt32 = m.atSize.value64.toNat := by
    have low : m.atSize.value64.toUInt32.toNat = m.atSize.value64.toNat := by
      rw [UInt64.toNat_toUInt32]
      omega
    rw [cint_of_lt (by omega), low]
  have pathRoom : m.atPath.bytes.length ≤ data.length := by
    rw [bytes_atPath, List.length_drop]
    omega
  have nameRoom : m.atName.bytes.length ≤ data.length := by
    rw [atName, bytes_adv, bytes_skipStr, behindStr]
    simp only [List.length_drop]
    omega
  have valueRoom : (m.atSize.adv 8).bytes.length ≤ data.length := by
    rw [bytes_adv, atSize, bytes_adv, bytes_skipStr, behindStr]
    simp only [List.length_drop]
    omega
  refine ⟨_, parses_int16.bind (parses_int16.bind (parses_int32.bind (parses_int32.bind
    (parses_str.bind (parses_int32.bind (parses_str.bind (parses_int32.bind (parses_int64.bind
      ((parses_alloc count).bind (parses_done _)))))))))), ?_⟩
  have value : ((m.atSize.adv 8).ptr data m.atSize.value64.toNat).isNone = true ∨
      inside data ((m.atSize.adv 8).ptr data m.atSize.value64.toNat)
        m.atSize.value64.toNat = true := by
    cases known : (m.atSize.adv 8).has m.atSize.value64.toNat with
    | false => exact .inl (by simp [ptr, known])
    | true => exact .inr ((inside_ptr valueRoom).mpr (.inr known))
  rw [Saved.copies, Bool.and_eq_true, Bool.and_eq_true, Bool.or_eq_true, Bool.or_eq_true]
  refine (and_iff_left ?_).trans (and_congr (inside_str pathRoom) (inside_str nameRoom))
  rcases value with missing | copied
  · exact .inl (.inr missing)
  · exact .inr copied

/-- So it is for all the fids of the loop. -/
theorem parses_fids (n : ℕ) (room : m.bytes.length ≤ data.length)
    (small : SmallSizes n m.bytes) :
    ∃ fids, Parses data (getFids n) m fids (last n m) ∧
      (fids.all (·.copies data) = true ↔ ¬ Dangles n m.bytes) := by
  induction n generalizing m with
  | zero => exact ⟨[], parses_done [], by simp [Dangles]⟩
  | succ n ih =>
      cases live : (m.adv 4).has 0 with
      | false =>
          -- the loop ends, and behind the poisoned cursor there is nothing to read
          have gone : m.adv 4 = past := by
            cases there : m.adv 4 with
            | past => rfl
            | reading rest => simp [there, has] at live
          have path : m.atPath = past := by rw [atPath, gone]; rfl
          have name : m.atName = past := by rw [atName, path]; rfl
          have size : m.atSize = past := by rw [atSize, name]; rfl
          have after : m.behind = past := by rw [behind, size]; rfl
          refine ⟨[], ?_, ?_⟩
          · rw [last, after, last_of_empty rfl, ← gone]
            refine parses_int32.bind (parses_overflow.bind ?_)
            rw [live]
            exact parses_done []
          · rw [dangles_succ, path, name, after]
            simp [bytes, StrCut, not_dangles_nil]
      | true =>
          have less : m.behind.bytes.length ≤ data.length := by
            rw [bytes_behind, behindRecord, sizeOf, nameOf, behindStr, behindStr]
            simp only [List.length_drop]
            omega
          have rest : SmallSizes n m.behind.bytes := by
            rw [bytes_behind]
            exact small.2
          obtain ⟨saved, read, copied⟩ :=
            parses_saved room (small_of_smallSizes small) m.value32
          obtain ⟨fids, onward, others⟩ := ih less rest
          refine ⟨saved :: fids, ?_, ?_⟩
          · refine parses_int32.bind (parses_overflow.bind ?_)
            rw [live]
            exact read.bind (onward.bind (parses_done _))
          · rw [dangles_succ, List.all_cons, Bool.and_eq_true, copied, others]
            tauto

/-! ## The whole -/

/-- Behind the ten bytes of the connection. -/
def header (m : Mode) : Mode := (((m.adv 4).adv 1).adv 1).adv 4

/-- Where all that the data announce has been read. -/
def ending (data : List UInt8) : Mode := last (announced data) (reading data).header

theorem bytes_header (data : List UInt8) : (reading data).header.bytes = data.drop 10 := by
  simp only [header, bytes_adv, List.drop_drop]
  rfl

theorem value32_header (data : List UInt8) :
    ((((reading data).adv 4).adv 1).adv 1).value32.toNat = announced data := by
  have place : ((((reading data).adv 4).adv 1).adv 1).bytes = data.drop 6 := by
    simp only [bytes_adv, List.drop_drop]
    rfl
  have length : 4 ≤ (data.drop 6).length ↔ 10 ≤ data.length := by
    rw [List.length_drop]
    omega
  rw [value32_eq, place, announced, if_congr length rfl rfl]
  split_ifs <;> rfl

/-- What is read of all that the data announce. -/
theorem parses_image (counts : Counts31 data) :
    ∃ image, Parses data getImage (reading data) image ((ending data).adv 1) ∧
      0 ≤ cint image.nfids ∧
      (image.fids.all (·.copies data) = true ↔ ¬ Dangles (announced data) (data.drop 10)) ∧
      image.overflow = !(ending data).has 0 ∧ image.extra = (ending data).has 1 := by
  obtain ⟨few, small⟩ := counts
  have number := value32_header data
  have count : cint ((((reading data).adv 4).adv 1).adv 1).value32 = announced data := by
    rw [cint_of_lt (by omega), number]
  have room : (reading data).header.bytes.length ≤ data.length := by
    rw [bytes_header, List.length_drop]
    omega
  rw [← bytes_header] at small
  obtain ⟨fids, read, copied⟩ := parses_fids (announced data) room small
  obtain ⟨dotu, first⟩ := @parses_int8 data ((reading data).adv 4)
  obtain ⟨dotl, second⟩ := @parses_int8 data (((reading data).adv 4).adv 1)
  have fidsRead : Parses data
      (getFids (cint ((((reading data).adv 4).adv 1).adv 1).value32).toNat)
      (reading data).header fids (ending data) := by
    rw [count]
    exact read
  refine ⟨_, parses_int32.bind (first.bind (second.bind (parses_int32.bind (fidsRead.bind
    (parses_overflow.bind (parses_extra.bind (parses_done _))))))), ?_, ?_, rfl, rfl⟩
  · rw [count]
    exact Int.natCast_nonneg _
  · rw [← bytes_header]
    exact copied

/-- `ufs_restore` reads outside of the data if and only if a string dangles. -/
theorem restoreBuffer_eq (counts : Counts31 data) :
    ∃ image : Image, image.overflow = !(ending data).has 0 ∧ image.extra = (ending data).has 1 ∧
      ∀ setup errsz, (Dangles (announced data) (data.drop 10) →
          restoreBuffer setup data errsz = .fault) ∧
        (¬ Dangles (announced data) (data.drop 10) →
          restoreBuffer setup data errsz = image.finish setup errsz) := by
  obtain ⟨image, parses, positive, copied, overflow, extra⟩ := parses_image counts
  have start : (reading data).At data (Cbuf.bufInit data 0 data.length) :=
    ⟨rfl, by simp [Cbuf.bufInit], [], rfl, rfl⟩
  obtain ⟨read, -⟩ := parses _ start
  have counted : decide (cint image.nfids < 0) = false := decide_eq_false (by omega)
  refine ⟨image, overflow, extra, fun setup errsz => ⟨fun dangles => ?_, fun whole => ?_⟩⟩
  · have missing : image.fids.all (·.copies data) = false := by
      rw [← Bool.not_eq_true, copied]
      exact not_not.mpr dangles
    rw [restoreBuffer, read, missing, Bool.not_false, Bool.or_true, if_pos rfl]
  · rw [restoreBuffer, read, counted, copied.mpr whole, Bool.not_true, Bool.or_false,
      if_neg Bool.false_ne_true]

theorem finish_ne_fault (image : Image) (setup : Setup) (errsz : Int) :
    image.finish setup errsz ≠ .fault := by
  rw [Image.finish]
  split_ifs
  · exact Restored.noConfusion
  · cases setup image with
    | none => exact Restored.noConfusion
    | some messages =>
        simp only
        split_ifs <;> exact Restored.noConfusion

theorem staysInside_iff (counts : Counts31 data) :
    StaysInside data ↔ ¬ Dangles (announced data) (data.drop 10) := by
  obtain ⟨image, -, -, result⟩ := restoreBuffer_eq counts
  constructor
  · intro stays dangles
    exact stays (fun _ => none) 0 ((result _ 0).1 dangles)
  · intro whole setup errsz
    rw [(result setup errsz).2 whole]
    exact finish_ne_fault image setup errsz

/-- Without a message to report only the cursor can reject the data. -/
theorem rejects_iff (counts : Counts31 data) : Rejects data ↔
    ¬ Dangles (announced data) (data.drop 10) ∧
      ((ending data).has 0 = false ∨ (ending data).has 1 = true) := by
  obtain ⟨image, overflow, extra, result⟩ := restoreBuffer_eq counts
  constructor
  · intro rejects
    have silent := rejects (fun _ => some []) 0
    have whole : ¬ Dangles (announced data) (data.drop 10) := by
      intro dangles
      rw [(result _ 0).1 dangles] at silent
      cases silent
    refine ⟨whole, ?_⟩
    rw [(result _ 0).2 whole, Image.finish, overflow, extra] at silent
    by_contra neither
    obtain ⟨inside, atEnd⟩ := not_or.mp neither
    simp [inside, atEnd, reported] at silent
  · rintro ⟨whole, cut⟩ setup errsz
    rw [(result setup errsz).2 whole, Image.finish, overflow, extra, if_pos]
    rcases cut with poisoned | more
    · simp [poisoned]
    · simp [more]

end Mode

/-! ## Cuts -/

/-- How the end of the data shows behind some parts of a checkpoint: there are so many bytes still,
or the data have ended between two parts, in a text, or inside of a number or a value. -/
inductive Cut where
  | left (k : ℕ)
  | between
  | inText
  | torn
  deriving DecidableEq

namespace Cut

/-- Behind one more part. -/
def pass : Cut → Piece → Cut
  | left k, piece =>
    if piece.width ≤ k then left (k - piece.width)
    else if piece.isText then inText
    else if k = 0 then between
    else torn
  | cut, _ => cut

/-- What the cursor shows of a cut in front of these bytes. -/
def Shows (rest : List UInt8) : Cut → Mode → Prop
  | left k, m => m = .reading (rest.take k)
  | between, m => m = .reading []
  | inText, m => m.bytes = []
  | torn, m => m = .past

variable {c : Cut} {m : Mode} {rest bytes text : List UInt8} {piece : Piece} {k : ℕ}

theorem pass_of_enough (piece : Piece) (enough : piece.width ≤ k) :
    (left k).pass piece = left (k - piece.width) := if_pos enough

/-- A number or a value that is not all there ends the data. -/
theorem pass_of_few (piece : Piece) (plain : piece.isText = false) (few : k < piece.width) :
    (left k).pass piece = between ∨ (left k).pass piece = torn := by
  rw [pass, plain, if_neg (by omega), if_neg Bool.false_ne_true]
  rcases Nat.eq_zero_or_pos k with rfl | positive
  · exact .inl rfl
  · exact .inr (if_neg positive.ne')

theorem foldl_pass_of_ended (ended : ∀ k, c ≠ left k) (pieces : List Piece) :
    pieces.foldl pass c = c := by
  induction pieces with
  | nil => rfl
  | cons piece pieces ih =>
      have same : c.pass piece = c := by
        cases c with
        | left k => exact absurd rfl (ended k)
        | between | inText | torn => rfl
      rw [List.foldl_cons, same, ih]

theorem foldl_pass_of_enough (pieces : List Piece) (enough : (pieces.map Piece.width).sum ≤ k) :
    pieces.foldl pass (left k) = left (k - (pieces.map Piece.width).sum) := by
  induction pieces generalizing k with
  | nil => rfl
  | cons piece pieces ih =>
      rw [List.map_cons, List.sum_cons] at enough ⊢
      rw [List.foldl_cons, pass, if_pos (by omega), ih (by omega), Nat.sub_sub]

theorem foldl_pass_of_few {pieces : List Piece} (plain : ∀ piece ∈ pieces, piece.isText = false)
    (few : k < (pieces.map Piece.width).sum) :
    pieces.foldl pass (left k) = between ∨ pieces.foldl pass (left k) = torn := by
  induction pieces generalizing k with
  | nil => exact absurd few (Nat.not_lt_zero k)
  | cons piece pieces ih =>
      rw [List.map_cons, List.sum_cons] at few
      rw [List.foldl_cons]
      by_cases enough : piece.width ≤ k
      · rw [pass_of_enough piece enough]
        exact ih (fun other member => plain other (by simp [member])) (by omega)
      · rcases pass_of_few piece (plain piece (by simp)) (not_le.mp enough) with gap | tear
        · rw [gap]
          exact .inl (foldl_pass_of_ended (by simp) pieces)
        · rw [tear]
          exact .inr (foldl_pass_of_ended (by simp) pieces)

theorem endsInside_cons (first : Piece) (pieces : List Piece) (k : ℕ) :
    EndsInside (first :: pieces) k ↔ first.isText = false ∧ 0 < k ∧ k < first.width ∨
      first.width ≤ k ∧ EndsInside pieces (k - first.width) := by
  constructor
  · rintro ⟨front, piece, back, equal, plain, after, before⟩
    cases front with
    | nil =>
        obtain ⟨rfl, rfl⟩ := List.cons.inj equal
        exact .inl ⟨plain, by simpa using after, by simpa using before⟩
    | cons other front =>
        obtain ⟨rfl, rfl⟩ := List.cons.inj equal
        rw [List.map_cons, List.sum_cons] at after before
        exact .inr ⟨by omega, front, piece, back, rfl, plain, by omega, by omega⟩
  · rintro (⟨plain, after, before⟩ | ⟨enough, front, piece, back, rfl, plain, after, before⟩)
    · exact ⟨[], first, pieces, rfl, plain, by simpa using after, by simpa using before⟩
    · refine ⟨first :: front, piece, back, rfl, plain, ?_, ?_⟩
      · rw [List.map_cons, List.sum_cons]
        omega
      · rw [List.map_cons, List.sum_cons]
        omega

/-- The cut is inside of a number or of a value. -/
theorem foldl_pass_eq_torn_iff (pieces : List Piece) (k : ℕ) :
    pieces.foldl pass (left k) = torn ↔ EndsInside pieces k := by
  induction pieces generalizing k with
  | nil => simp [EndsInside]
  | cons first pieces ih =>
      rw [endsInside_cons, List.foldl_cons, pass]
      by_cases enough : first.width ≤ k
      · have notHere : ¬ (first.isText = false ∧ 0 < k ∧ k < first.width) := by omega
        rw [if_pos enough, ih, or_iff_right notHere, and_iff_right enough]
      · rw [if_neg enough, or_iff_left fun later => enough later.1]
        cases first.isText with
        | true => simp [foldl_pass_of_ended (c := inText) (by simp)]
        | false =>
            rcases Nat.eq_zero_or_pos k with rfl | positive
            · simp [foldl_pass_of_ended (c := between) (by simp)]
            · simp [positive.ne', positive, not_le.mp enough,
                foldl_pass_of_ended (c := torn) (by simp)]

theorem pass_eq_inText_iff (plain : piece.isText = false) : c.pass piece = inText ↔ c = inText := by
  cases c with
  | left k =>
      rw [pass, plain, if_neg Bool.false_ne_true]
      split_ifs <;> simp
  | between | inText | torn => rfl

/-- Behind the end all is as it was. -/
theorem Shows.stay (ended : ∀ k, c ≠ left k) (shows : Shows bytes c m) (w : ℕ) (rest : List UInt8) :
    m.adv w = m ∧ m.bytes = [] ∧ Shows rest c m := by
  have empty : m.bytes = [] := by
    cases c with
    | left k => exact absurd rfl (ended k)
    | between =>
        obtain rfl : m = .reading [] := shows
        rfl
    | inText => exact shows
    | torn =>
        obtain rfl : m = .past := shows
        rfl
  refine ⟨Mode.adv_of_empty empty w, empty, ?_⟩
  cases c with
  | left k => exact absurd rfl (ended k)
  | between | inText | torn => exact shows

/-- A part is read. -/
theorem Shows.part (shows : Shows (bytes ++ rest) c m) (piece : Piece)
    (length : bytes.length = piece.width) (plain : piece.isText = false) :
    Shows rest (c.pass piece) (m.adv piece.width) := by
  cases c with
  | between | inText | torn =>
      obtain ⟨stays, -, shows⟩ := shows.stay (by simp) piece.width rest
      rw [stays]
      exact shows
  | left k =>
      obtain rfl : m = .reading ((bytes ++ rest).take k) := shows
      rw [pass, plain]
      by_cases enough : piece.width ≤ k
      · have there : piece.width ≤ ((bytes ++ rest).take k).length := by
          rw [List.length_take, List.length_append]
          omega
        rw [if_pos enough, Mode.adv, if_pos there, List.drop_take, List.drop_left' length]
        rfl
      · have missing : ¬ piece.width ≤ ((bytes ++ rest).take k).length := by
          rw [List.length_take]
          omega
        rw [if_neg enough, if_neg Bool.false_ne_true, Mode.adv, if_neg missing]
        rcases Nat.eq_zero_or_pos k with rfl | positive
        · rw [if_pos rfl, if_pos List.take_zero]
          rfl
        · have some_left : (bytes ++ rest).take k ≠ [] := by
            refine List.ne_nil_of_length_pos ?_
            rw [List.length_take, List.length_append]
            omega
          rw [if_neg positive.ne', if_neg some_left]
          rfl

/-- A string is read with its length in front.  It dangles if the length is there and the text is
not. -/
theorem Shows.string (shows : Shows (bytes16 (.ofNat text.length) ++ text ++ rest) c m)
    (short : text.length < 2 ^ 16) :
    Shows rest ((c.pass (.number 2)).pass (.text text.length)) m.skipStr ∧
      ((c.pass (.number 2)).pass (.text text.length) = inText ↔ c = inText ∨ StrCut m.bytes) := by
  cases c with
  | between | inText | torn =>
      obtain ⟨stays, empty, shows⟩ := shows.stay (by simp) 2 rest
      have value : m.value16.toNat = 0 := by
        rw [Mode.value16_eq, empty]
        rfl
      rw [Mode.skipStr, stays, value, Mode.adv_zero, empty]
      exact ⟨shows, by simp [pass, StrCut]⟩
  | left k =>
      rw [List.append_assoc] at shows
      have behind := shows.part (.number 2) (bytes16_length _) rfl
      have front : m.bytes = (bytes16 (.ofNat text.length) ++ (text ++ rest)).take k :=
        congrArg Mode.bytes shows
      by_cases counted : 2 ≤ k
      · obtain ⟨j, rfl⟩ := Nat.exists_eq_add_of_le' counted
        have step : (left (j + 2)).pass (.number 2) = left j := pass_of_enough _ counted
        have opening : m.bytes = bytes16 (.ofNat text.length) ++ (text ++ rest).take j := front
        have value : m.value16.toNat = text.length := by
          rw [Mode.value16_of_front opening, UInt16.toNat_ofNat']
          omega
        rw [step] at behind ⊢
        rw [Mode.skipStr, Mode.strCut_iff, value]
        by_cases enough : text.length ≤ j
        · have there : (m.adv 2).has text.length = true := by
            have whole : text.length ≤ ((text ++ rest).take j).length := by
              rw [List.length_take, List.length_append]
              omega
            rw [show m.adv 2 = _ from behind]
            exact decide_eq_true whole
          have same : (left j).pass (.text text.length) = (left j).pass (.value text.length) :=
            (pass_of_enough _ enough).trans (pass_of_enough (.value text.length) enough).symm
          rw [same, there]
          refine ⟨behind.part (.value text.length) rfl rfl, ?_⟩
          rw [pass_eq_inText_iff rfl]
          simp
        · have cut : (left j).pass (.text text.length) = inText := if_neg enough
          have missing : (m.adv 2).has text.length = false := by
            have few : ¬ text.length ≤ ((text ++ rest).take j).length := by
              rw [List.length_take]
              omega
            rw [show m.adv 2 = _ from behind]
            exact decide_eq_false few
          have gone : ((m.adv 2).adv text.length).bytes = [] := by
            rw [Mode.bytes_adv, show m.adv 2 = _ from behind]
            refine List.drop_eq_nil_of_le ?_
            rw [Mode.bytes, List.length_take]
            omega
          rw [cut, missing]
          exact ⟨gone, by simp; omega⟩
      · have few : ¬ 2 ≤ m.bytes.length := by
          rw [front, List.length_take]
          omega
        have value : m.value16.toNat = 0 := by
          rw [Mode.value16_eq, if_neg few]
          rfl
        rw [Mode.skipStr, value, Mode.adv_zero, Mode.strCut_iff, value]
        rcases pass_of_few (.number 2) rfl (not_le.mp counted) with gap | tear
        · rw [gap] at behind ⊢
          exact ⟨behind, by simp [pass]⟩
        · rw [tear] at behind ⊢
          exact ⟨behind, by simp [pass]⟩

/-- The value of an attribute is read with its size in front. -/
theorem Shows.value {size : UInt64} (shows : Shows (bytes64 size ++ text ++ rest) c m)
    (length : text.length = size.toNat) :
    Shows rest ((c.pass (.number 8)).pass (.value size.toNat))
        ((m.adv 8).adv m.value64.toNat) ∧
      (8 ≤ m.bytes.length → m.value64 = size) := by
  cases c with
  | between | inText | torn =>
      obtain ⟨stays, empty, shows⟩ := shows.stay (by simp) 8 rest
      have value : m.value64.toNat = 0 := by
        rw [Mode.value64_eq, empty]
        rfl
      rw [stays, value, Mode.adv_zero, empty]
      exact ⟨shows, fun counted => absurd counted (by simp)⟩
  | left k =>
      rw [List.append_assoc] at shows
      have behind := shows.part (.number 8) (bytes64_length _) rfl
      have front : m.bytes = (bytes64 size ++ (text ++ rest)).take k := congrArg Mode.bytes shows
      by_cases counted : 8 ≤ k
      · obtain ⟨j, rfl⟩ := Nat.exists_eq_add_of_le' counted
        have opening : m.bytes = bytes64 size ++ (text ++ rest).take j := front
        have value : m.value64 = size := Mode.value64_of_front opening
        rw [value]
        exact ⟨behind.part (.value size.toNat) length rfl, fun _ => rfl⟩
      · have few : ¬ 8 ≤ m.bytes.length := by
          rw [front, List.length_take]
          omega
        have value : m.value64.toNat = 0 := by
          rw [Mode.value64_eq, if_neg few]
          rfl
        rw [value, Mode.adv_zero]
        refine ⟨?_, fun counted => absurd counted few⟩
        rcases pass_of_few (.number 8) rfl (not_le.mp counted) with gap | tear
        · rw [gap] at behind ⊢
          exact behind
        · rw [tear] at behind ⊢
          exact behind

/-- A record that can be read back has strings with lengths of 16 bits. -/
structure Short (r : Record) : Prop where
  path : r.aux.path.strlen < 2 ^ 16
  name : strlen? r.aux.xattrname < 2 ^ 16

/-- A record is read. -/
theorem Shows.record {r : Record} (short : Short r) (shows : Shows (r.bytes ++ rest) c m) :
    Shows rest (r.pieces.foldl pass c) m.behind ∧
      (r.pieces.foldl pass c = inText ↔ c = inText ∨ StrCut m.atPath.bytes ∨
        StrCut m.atName.bytes) ∧
      (8 ≤ m.atSize.bytes.length → m.atSize.value64 = r.aux.xattrsz) := by
  obtain ⟨value, valueEq⟩ : ∃ value, bytesAt r.aux.xattrdata r.aux.xattrsz.toNat = value :=
    ⟨_, rfl⟩
  have valueLength := bytesAt_length r.aux.xattrdata r.aux.xattrsz.toNat
  rw [valueEq] at valueLength
  have layout : r.bytes ++ rest =
      bytes32 r.fid.fid ++ (bytes16 r.fid.omode ++ (bytes16 r.fid.type ++
        (bytes32 r.fid.diroffset ++ (bytes32 r.uid ++
          (bytes16 (.ofNat r.aux.path.bytes.length) ++ r.aux.path.bytes ++
            (bytes32 r.aux.omode ++
              (bytes16 (.ofNat (CStr.bytes? r.aux.xattrname).length) ++
                CStr.bytes? r.aux.xattrname ++
                (bytes32 r.aux.xattrflags ++
                  (bytes64 r.aux.xattrsz ++ value ++ rest))))))))) := by
    simp only [Record.bytes, Record.fields, packed, PutOp.bytes, valueEq, List.append_assoc,
      List.nil_append]
    rfl
  rw [layout] at shows
  have atOmode := shows.part (.number 4) (bytes32_length _) rfl
  have atType := atOmode.part (.number 2) (bytes16_length _) rfl
  have atDiroffset := atType.part (.number 2) (bytes16_length _) rfl
  have atUid := atDiroffset.part (.number 4) (bytes32_length _) rfl
  have atPath : Shows _ _ m.atPath := atUid.part (.number 4) (bytes32_length _) rfl
  obtain ⟨behindPath, pathCut⟩ := atPath.string short.path
  have atName : Shows _ _ m.atName := behindPath.part (.number 4) (bytes32_length _) rfl
  obtain ⟨behindName, nameCut⟩ := atName.string short.name
  have atSize : Shows _ _ m.atSize := behindName.part (.number 4) (bytes32_length _) rfl
  obtain ⟨behind, size⟩ := atSize.value valueLength
  refine ⟨behind, ?_, size⟩
  simp only [Record.pieces, List.foldl_cons, List.foldl_nil]
  rw [pass_eq_inText_iff rfl, pass_eq_inText_iff rfl, pass_eq_inText_iff rfl]
  refine nameCut.trans ?_
  rw [pass_eq_inText_iff rfl, pathCut]
  rw [pass_eq_inText_iff rfl, pass_eq_inText_iff rfl, pass_eq_inText_iff rfl,
    pass_eq_inText_iff rfl, pass_eq_inText_iff rfl, or_assoc]

/-- So are the records one after another. -/
theorem Shows.records {rs : List Record} (short : ∀ r ∈ rs, Short r)
    (small : ∀ r ∈ rs, r.aux.xattrsz.toNat < 2 ^ 31)
    (shows : Shows (rs.flatMap Record.bytes ++ rest) c m) :
    Shows rest ((rs.flatMap Record.pieces).foldl pass c) (m.last rs.length) ∧
      ((rs.flatMap Record.pieces).foldl pass c = inText ↔
        c = inText ∨ Dangles rs.length m.bytes) ∧
      SmallSizes rs.length m.bytes := by
  induction rs generalizing c m with
  | nil => exact ⟨shows, by simp [Dangles], trivial⟩
  | cons r rs ih =>
      rw [List.flatMap_cons, List.append_assoc] at shows
      obtain ⟨behind, cut, size⟩ := Shows.record (short r (by simp)) shows
      obtain ⟨ends, cuts, sizes⟩ := ih (fun other member => short other (by simp [member]))
        (fun other member => small other (by simp [member])) behind
      rw [List.flatMap_cons, List.foldl_append, List.length_cons]
      refine ⟨ends, ?_, ?_, ?_⟩
      · rw [cuts, cut, Mode.dangles_succ, or_assoc, or_assoc]
      · intro counted
        rw [← Mode.bytes_atSize] at counted ⊢
        have value := size counted
        rw [Mode.value64_eq, if_pos counted] at value
        rw [value]
        exact small r (by simp)
      · rw [← Mode.bytes_behind]
        exact sizes

end Cut

/-! ## Checkpoints -/

section Validation

open Mode Cut

variable {rs : List Record} {conn : Npconn} {more : List UInt8} {k : ℕ}

theorem le_checkpointSize {r : Record} (member : r ∈ rs) :
    r.aux.xattrsz.toNat ≤ checkpointSize rs := by
  have counted := List.single_le_sum (by simp) _ (List.mem_map_of_mem (f := Record.size) member)
  rw [checkpointSize]
  simp only [Record.size] at counted ⊢
  omega

theorem pieces_width (rs : List Record) :
    ((pieces rs).map Piece.width).sum = checkpointSize rs := by
  induction rs with
  | nil => rfl
  | cons r rs ih =>
      simp only [pieces, checkpointSize, List.map_append, List.sum_append, List.flatMap_cons,
        List.map_cons, List.sum_cons, Record.size, Record.pieces, Piece.width] at ih ⊢
      simp at ih ⊢
      omega

/-- What `ufs_restore` meets in data that start like a checkpoint. -/
theorem shows_ending (more : List UInt8) (k : ℕ) (short : ∀ r ∈ rs, Short r)
    (small : checkpointSize rs < 2 ^ 31) {data : List UInt8}
    (cut : data = (checkpointBytes conn rs ++ more).take k) :
    Counts31 data ∧ Shows more ((pieces rs).foldl pass (left k)) (ending data) ∧
      ((pieces rs).foldl pass (left k) = inText ↔ Dangles (announced data) (data.drop 10)) := by
  have layout : checkpointBytes conn rs ++ more = bytes32 conn.msize ++ ([flag conn.dotu 1] ++
      ([flag conn.dotl 1] ++ (bytes32 (.ofNat rs.length) ++
        (rs.flatMap Record.bytes ++ more)))) := by
    simp only [checkpointBytes, putConn, packed, PutOp.bytes, List.append_assoc, List.nil_append]
  have start : Shows (checkpointBytes conn rs ++ more) (left k) (reading data) := by
    rw [cut]
    rfl
  rw [layout] at start
  have first := start.part (.number 4) (bytes32_length _) rfl
  have second := first.part (.number 1) rfl rfl
  have third : Shows _ _ ((((reading data).adv 4).adv 1).adv 1) :=
    second.part (.number 1) rfl rfl
  have header : Shows _ _ (reading data).header :=
    third.part (.number 4) (bytes32_length _) rfl
  obtain ⟨opening, openingEq⟩ :
      ∃ opening, [Piece.number 4, .number 1, .number 1, .number 4] = opening := ⟨_, rfl⟩
  have ten : (opening.map Piece.width).sum = 10 := by rw [← openingEq]; rfl
  have plain : ∀ piece ∈ opening, piece.isText = false := by
    rw [← openingEq]
    simp [Piece.isText]
  have whole : (pieces rs).foldl pass (left k) =
      (rs.flatMap Record.pieces).foldl pass (opening.foldl pass (left k)) := by
    rw [pieces, openingEq, List.foldl_append]
  have headed : Shows (rs.flatMap Record.bytes ++ more) (opening.foldl pass (left k))
      (reading data).header := by
    rw [← openingEq]
    exact header
  rw [whole, ending, Counts31, ← bytes_header]
  by_cases counted : 10 ≤ k
  · have number : announced data = rs.length := by
      have few := length_le_checkpointSize rs
      have six : (((left k).pass (.number 4)).pass (.number 1)).pass (.number 1) =
          left (k - 6) := by
        rw [pass_of_enough _ (show 4 ≤ k by omega), pass_of_enough _ (show 1 ≤ k - 4 by omega),
          pass_of_enough _ (show 1 ≤ k - 4 - 1 by omega)]
        congr 1
      rw [six] at third
      obtain ⟨j, four⟩ : ∃ j, k - 6 = j + 4 := ⟨k - 10, by omega⟩
      rw [four] at third
      have counter : ((((reading data).adv 4).adv 1).adv 1).bytes =
          bytes32 (.ofNat rs.length) ++ (rs.flatMap Record.bytes ++ more).take j :=
        congrArg Mode.bytes third
      rw [← value32_header, value32_of_front counter, UInt32.toNat_ofNat']
      omega
    obtain ⟨ends, cuts, sizes⟩ := headed.records short fun r member =>
      (le_checkpointSize member).trans_lt small
    have counts := length_le_checkpointSize rs
    rw [number]
    refine ⟨⟨by omega, sizes⟩, ends, cuts.trans (or_iff_right ?_)⟩
    rw [foldl_pass_of_enough opening (by omega)]
    exact Cut.noConfusion
  · have number : announced data = 0 := by
      refine if_neg ?_
      rw [cut, List.length_take]
      omega
    rw [number]
    rcases foldl_pass_of_few plain (show k < _ by omega) with gap | tear
    · rw [gap] at headed ⊢
      rw [foldl_pass_of_ended (by simp)]
      exact ⟨⟨by decide, trivial⟩, headed, by simp [Dangles]⟩
    · rw [tear] at headed ⊢
      rw [foldl_pass_of_ended (by simp)]
      exact ⟨⟨by decide, trivial⟩, headed, by simp [Dangles]⟩

/-- Of a checkpoint that is cut only a number or a value that is torn is noticed. -/
theorem rejects_take_iff (short : ∀ r ∈ rs, Short r) (small : checkpointSize rs < 2 ^ 31) (k : ℕ) :
    Rejects ((checkpointBytes conn rs).take k) ↔ Torn rs k := by
  have whole : (checkpointBytes conn rs).take k = (checkpointBytes conn rs ++ []).take k := by
    rw [List.append_nil]
  obtain ⟨counts, shows, dangles⟩ := shows_ending [] k short small whole
  rw [rejects_iff counts, ← dangles, Torn, ← foldl_pass_eq_torn_iff]
  generalize (pieces rs).foldl pass (left k) = c at shows
  generalize ending ((checkpointBytes conn rs).take k) = m at shows
  cases c with
  | left k =>
      obtain rfl : m = reading ([].take k) := shows
      simp [has]
  | between =>
      obtain rfl : m = reading [] := shows
      simp [has]
  | inText => simp
  | torn =>
      obtain rfl : m = past := shows
      simp [has]

/-- More data than a checkpoint are noticed. -/
theorem rejects_append (short : ∀ r ∈ rs, Short r) (small : checkpointSize rs < 2 ^ 31)
    (extra : more ≠ []) : Rejects (checkpointBytes conn rs ++ more) := by
  have width := pieces_width rs
  have whole : checkpointBytes conn rs ++ more =
      (checkpointBytes conn rs ++ more).take (checkpointSize rs + more.length) := by
    rw [List.take_of_length_le]
    rw [List.length_append, checkpointBytes_length]
  obtain ⟨counts, shows, dangles⟩ := shows_ending more _ short small whole
  rw [foldl_pass_of_enough (pieces rs) (by omega)] at shows dangles
  have rest : ending (checkpointBytes conn rs ++ more) = reading more := by
    refine Eq.trans shows ?_
    rw [List.take_of_length_le (by omega)]
  rw [rejects_iff counts, ← dangles, rest]
  have positive := List.length_pos_of_ne_nil extra
  exact ⟨Cut.noConfusion, .inr (decide_eq_true positive)⟩

variable {u : Ufssrv} {s : State} {fids : List FidPtr} {b : List UInt8}

/-- What `ufs_checkpoint` gives are the bytes of its records. -/
theorem ufsCheckpoint_bytes (known : records u fids (npConnListFids u fids s) = some rs)
    (small : checkpointSize rs < 2 ^ 31) (made : (ufsCheckpoint u fids s).1 = some b) :
    b = checkpointBytes (npConnListFids u fids s).conn rs := by
  have low : (UInt32.ofNat (checkpointSize rs)).toNat = checkpointSize rs := by
    rw [UInt32.toNat_ofNat']
    omega
  obtain ⟨s₁, listed⟩ : ∃ s₁, npConnListFids u fids s = s₁ := ⟨_, rfl⟩
  rw [listed] at known ⊢
  simp only [ufsCheckpoint, listed, known] at made
  cases allocated : (mallocInt (.ofNat (checkpointSize rs)) s₁.world).1 with
  | none =>
      rw [allocated] at made
      cases made
  | some memory =>
      have length := (mallocInt_length allocated).trans low
      rw [allocated, Option.bind_eq_bind, Option.bind_some, writeCheckpoint_eq s₁.conn small length]
        at made
      exact (Option.some.inj made).symm

/-- `ufs_restore` notices data behind a checkpoint, and a cut inside of a number or a value.  It
does not notice a cut between two parts, and one that takes from the text of a string makes it
read outside of the data. -/
theorem validates_iff (known : records u fids (npConnListFids u fids s) = some rs)
    (short : ∀ r ∈ rs, Short r) (small : checkpointSize rs < 2 ^ 31)
    (made : (ufsCheckpoint u fids s).1 = some b) :
    (∀ k, Rejects (b.take k) ↔ Torn rs k) ∧ (∀ more ≠ [], Rejects (b ++ more)) ∧
      ∀ data, Counts31 data →
        (StaysInside data ↔ ¬ Dangles (announced data) (data.drop 10)) := by
  rw [ufsCheckpoint_bytes known small made]
  exact ⟨rejects_take_iff short small, fun _ => rejects_append short small,
    fun _ => staysInside_iff⟩

/-- The checkpoint of a connection with a single fid. -/
theorem validates_iff_described : ∃ b, (ufsCheckpoint .single [0] (.described 5)).1 = some b ∧
    Rejects (b.take 2) ∧ ¬ Rejects (b.take 4) ∧ Rejects (b ++ [0]) := by
  obtain ⟨b, made⟩ : ∃ b, (ufsCheckpoint .single [0] (.described 5)).1 = some b := ⟨_, rfl⟩
  obtain ⟨r, known, size, path, name⟩ :
      ∃ r, records .single [0] (npConnListFids .single [0] (.described 5)) = some [r] ∧
        checkpointSize [r] = 52 ∧ r.aux.path.strlen = 1 ∧ strlen? r.aux.xattrname = 0 :=
    ⟨_, rfl, rfl, rfl, rfl⟩
  have short : ∀ r' ∈ [r], Short r' := by
    intro r' member
    obtain rfl := List.mem_singleton.mp member
    exact ⟨by omega, by omega⟩
  obtain ⟨cuts, extensions, -⟩ := validates_iff known short (by omega) made
  refine ⟨b, made, (cuts 2).mpr ?_, fun rejects => ?_, extensions [0] (by simp)⟩
  · exact ⟨[], .number 4, _, rfl, rfl, by decide, by decide⟩
  · have torn := (foldl_pass_eq_torn_iff (pieces [r]) 4).mpr ((cuts 4).mp rejects)
    have gap : (pieces [r]).foldl pass (left 4) = between := rfl
    rw [gap] at torn
    cases torn

/-- Without any data a connection without fids is restored. -/
theorem not_validates_all : ¬ ∀ (u : Ufssrv) (npErrnoToLinux : UInt32 → UInt32) (msize : UInt32)
    (host : Host) (s : State), State.Reached u npErrnoToLinux msize host s →
    ∀ fids, Lists s fids → ∀ b, (ufsCheckpoint u fids s).1 = some b →
      (∀ k < b.length, Rejects (b.take k)) ∧ (∀ more ≠ [], Rejects (b ++ more)) ∧
        ∀ data, Counts31 data → StaysInside data := by
  intro always
  have lists : Lists (State.start 8192 hostSingle) [] := by
    refine ⟨List.nodup_nil, fun p => ⟨fun member => absurd member (by simp), ?_⟩⟩
    rintro ⟨n, entry⟩
    cases entry
  obtain ⟨b, made⟩ : ∃ b, (ufsCheckpoint .single [] (State.start 8192 hostSingle)).1 = some b :=
    ⟨_, rfl⟩
  have known : records .single [] (npConnListFids .single [] (State.start 8192 hostSingle)) =
      some [] := rfl
  have length : b.length = 10 := by
    rw [ufsCheckpoint_bytes known (by decide) made, checkpointBytes_length]
    rfl
  obtain ⟨rejects, -⟩ := always .single id 8192 hostSingle _ .start [] lists b made
  have rejected := rejects 0 (by omega) (fun _ => some []) 0
  have restored : restoreBuffer (fun _ => some []) [] 0 = .restored := by decide +kernel
  rw [List.take_zero] at rejected
  rw [restored] at rejected
  cases rejected

end Validation

end Ufs

end Npfs
