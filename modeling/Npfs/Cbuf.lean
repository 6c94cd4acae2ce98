import Npfs.Message

/-!
# The packet cursor

`struct cbuf` of `libnpfs/np.c`, the bounds test `buf_check_size` that every access goes through,
and the `buf_get_*` functions.  Positions are offsets from the start of the packet, so a cursor can
be compared with the packet's bounds without the packet's address.
-/

namespace Npfs

open LittleEndian

/-- The value of a 32-bit word as a C `int`. -/
def cint (value : UInt32) : Int :=
  if value.toNat < 2 ^ 31 then value.toNat else (value.toNat : Int) - 2 ^ 32

/-- A window of a packet with a cursor in it. -/
structure Cbuf where
  /-- The packet. -/
  mem : List UInt8
  /-- Start of the window. -/
  sp : Int
  /-- The cursor. -/
  p : Int
  /-- End of the window. -/
  ep : Int
  deriving DecidableEq

namespace Cbuf

/-- `buf_init`. -/
def bufInit (mem : List UInt8) (data datalen : Int) : Cbuf :=
  { mem, sp := data, p := data, ep := data + datalen }

/-- `buf_check_overflow`. -/
def bufCheckOverflow (buf : Cbuf) : Bool := buf.p > buf.ep

/-- `buf_check_size`.  A failed test moves a cursor that stands inside the window one past its
end. -/
def bufCheckSize (buf : Cbuf) (len : Int) : Bool × Cbuf :=
  if buf.p + len > buf.ep then
    (false, if buf.p < buf.ep then { buf with p := buf.ep + 1 } else buf)
  else
    (true, buf)

/-- `buf_alloc`. -/
def bufAlloc (buf : Cbuf) (len : Int) : Option Int × Cbuf :=
  match buf.bufCheckSize len with
  | (true, buf) => (some buf.p, { buf with p := buf.p + len })
  | (false, buf) => (none, buf)

/-- The byte at an offset from the cursor. -/
def byte (buf : Cbuf) (k : Nat) : UInt8 := buf.mem.getD (buf.p.toNat + k) 0

/-- `buf_get_int8`. -/
def bufGetInt8 (buf : Cbuf) : UInt8 × Cbuf :=
  match buf.bufCheckSize 1 with
  | (true, buf) => (buf.byte 0, { buf with p := buf.p + 1 })
  | (false, buf) => (0, buf)

/-- `buf_get_int16`. -/
def bufGetInt16 (buf : Cbuf) : UInt16 × Cbuf :=
  match buf.bufCheckSize 2 with
  | (true, buf) => (word16 buf.byte, { buf with p := buf.p + 2 })
  | (false, buf) => (0, buf)

/-- `buf_get_int32`. -/
def bufGetInt32 (buf : Cbuf) : UInt32 × Cbuf :=
  match buf.bufCheckSize 4 with
  | (true, buf) => (word32 buf.byte, { buf with p := buf.p + 4 })
  | (false, buf) => (0, buf)

/-- `buf_get_int64`. -/
def bufGetInt64 (buf : Cbuf) : UInt64 × Cbuf :=
  match buf.bufCheckSize 8 with
  | (true, buf) => (word64 buf.byte, { buf with p := buf.p + 8 })
  | (false, buf) => (0, buf)

/-- The cursor after `n` more bytes. -/
def advance (buf : Cbuf) (n : Int) : Cbuf := { buf with p := buf.p + n }

/-- The cursor after a failed bounds test. -/
def spoil (buf : Cbuf) : Cbuf := if buf.p < buf.ep then { buf with p := buf.ep + 1 } else buf

end Cbuf

/-- The operations by which a parser moves a packet cursor. -/
inductive GetOp where
  | int8
  | int16
  | int32
  | int64
  | alloc (len : Int)
  deriving DecidableEq

namespace GetOp

/-- What an operation gives back. -/
abbrev Reply : GetOp → Type
  | int8 => UInt8
  | int16 => UInt16
  | int32 => UInt32
  | int64 => UInt64
  | alloc _ => Option Int

/-- The number of bytes an operation asks `buf_check_size` for. -/
def width : GetOp → Int
  | int8 => 1
  | int16 => 2
  | int32 => 4
  | int64 => 8
  | alloc len => len

/-- Perform an operation. -/
def exec : (op : GetOp) → Cbuf → op.Reply × Cbuf
  | int8, buf => buf.bufGetInt8
  | int16, buf => buf.bufGetInt16
  | int32, buf => buf.bufGetInt32
  | int64, buf => buf.bufGetInt64
  | alloc len, buf => buf.bufAlloc len

/-- The value an operation reads where its bytes are present. -/
def value : (op : GetOp) → Cbuf → op.Reply
  | .int8, buf => buf.byte 0
  | .int16, buf => word16 buf.byte
  | .int32, buf => word32 buf.byte
  | .int64, buf => word64 buf.byte
  | .alloc _, buf => some buf.p

/-- The value an operation gives back where its bytes are missing. -/
def blank : (op : GetOp) → op.Reply
  | .int8 => (0 : UInt8)
  | .int16 => (0 : UInt16)
  | .int32 => (0 : UInt32)
  | .int64 => (0 : UInt64)
  | .alloc _ => none

theorem exec_of_fits {op : GetOp} {buf : Cbuf} (fits : buf.p + op.width ≤ buf.ep) :
    op.exec buf = (op.value buf, buf.advance op.width) := by
  have test := not_lt.mpr fits
  cases op <;> simp only [GetOp.width] at test <;>
    simp [GetOp.exec, GetOp.value, GetOp.width, Cbuf.bufGetInt8, Cbuf.bufGetInt16,
      Cbuf.bufGetInt32, Cbuf.bufGetInt64, Cbuf.bufAlloc, Cbuf.bufCheckSize, Cbuf.advance, test]

theorem exec_of_missing {op : GetOp} {buf : Cbuf} (missing : buf.ep < buf.p + op.width) :
    op.exec buf = (op.blank, buf.spoil) := by
  cases op <;> simp only [GetOp.width] at missing <;>
    simp [GetOp.exec, GetOp.blank, Cbuf.bufGetInt8, Cbuf.bufGetInt16,
      Cbuf.bufGetInt32, Cbuf.bufGetInt64, Cbuf.bufAlloc, Cbuf.bufCheckSize, Cbuf.spoil, missing]

end GetOp

/-- Code that reads a packet through a cursor. -/
abbrev Get (α : Type) := Program GetOp GetOp.Reply α

/-- `buf_get_int8` in a parser. -/
def getInt8 : Get UInt8 := Program.perform GetOp.int8

/-- `buf_get_int16` in a parser. -/
def getInt16 : Get UInt16 := Program.perform GetOp.int16

/-- `buf_get_int32` in a parser. -/
def getInt32 : Get UInt32 := Program.perform GetOp.int32

/-- `buf_get_int64` in a parser. -/
def getInt64 : Get UInt64 := Program.perform GetOp.int64

/-- `buf_alloc` in a parser. -/
def getAlloc (len : Int) : Get (Option Int) := Program.perform (GetOp.alloc len)

/-- `buf_get_str`. -/
def bufGetStr : Get Npstr := do
  let len ← getInt16
  let str ← getAlloc len.toNat
  return ⟨len, str⟩

/-- `buf_get_qid`. -/
def bufGetQid : Get Npqid := do
  let type ← getInt8
  let version ← getInt32
  let path ← getInt64
  return ⟨type, version, path⟩

/-- `buf_get_stat`.  Without `dotu` the numeric ids keep their old values. -/
def bufGetStat (stat : Npstat) (dotu : Bool) : Get Npstat := do
  let size ← getInt16
  let type ← getInt16
  let dev ← getInt32
  let qid ← bufGetQid
  let mode ← getInt32
  let atime ← getInt32
  let mtime ← getInt32
  let length ← getInt64
  let name ← bufGetStr
  let uid ← bufGetStr
  let gid ← bufGetStr
  let muid ← bufGetStr
  let stat := { stat with
    size, type, dev, qid, mode, atime, mtime, length, name, uid, gid, muid }
  if dotu then
    let extension ← bufGetStr
    let nUid ← getInt32
    let nGid ← getInt32
    let nMuid ← getInt32
    return { stat with extension, nUid, nGid, nMuid }
  else
    return { stat with extension := npStrzero }

/-- `buf_get_statfs`. -/
def bufGetStatfs : Get Npstatfs := do
  let type ← getInt32
  let bsize ← getInt32
  let blocks ← getInt64
  let bfree ← getInt64
  let bavail ← getInt64
  let files ← getInt64
  let ffree ← getInt64
  let fsid ← getInt64
  let namelen ← getInt32
  return { type, bsize, blocks, bfree, bavail, files, ffree, fsid, namelen }

end Npfs
