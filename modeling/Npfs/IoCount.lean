import Npfs.PacketSize
import Npfs.Session

/-!
# The size test of reads and writes

`np_read`, `np_write` and `np_readdir` compare `tc->count+IOHDRSZ` with the message size of the
connection, in 32 bits, before they ask for the data, and the packets of the replies are allocated
by `np_alloc_rread` and its siblings.
-/

namespace Npfs

open Serve Program LittleEndian

variable {Aux World : Type}

/-- The requests with a `count`. -/
inductive IoRequest where
  | read | write | readdir

/-- Their handlers. -/
def IoRequest.handler : IoRequest → Npfcall → Serve (Option Npfcall)
  | .read => npRead
  | .write => npWrite
  | .readdir => npReaddir

/-- The callbacks that the handlers call behind the size test. -/
def Callback.sized : Callback → Bool
  | .read .. | .xattrread .. | .authRead .. | .write .. | .readdir .. => true
  | _ => false

/-- An operation that calls one of them. -/
def Op.sized : Op → Bool
  | .call callback => callback.sized
  | _ => false

/-- The request passes the size test of its handler, which then asks for the data. -/
def IoRequest.Passes (request : IoRequest) (env : Env Aux World) (s : Session Aux World)
    (tc : Npfcall) : Prop :=
  ∃ event ∈ (request.handler tc).events (exec env) s, event.1.sized

/-- The size did not wrap around, and there is room for `count` bytes behind the header. -/
structure Reserved (type : MsgType) (count : UInt32) (fc : Npfcall) : Prop where
  size : fc.size.toNat = 11 + count.toNat
  front : fc.pkt.take 11 = header fc.size type NOTAG ++ bytes32 count
  data : fc.data = some 11
  room : 11 + count.toNat ≤ fc.pkt.length

/-- The allocators and the constructor of the replies make room for `count` bytes. -/
structure Reserves (count : UInt32) : Prop where
  allocRread (heap : Malloc) : ∃ fc, npAllocRread count heap = some fc ∧ Reserved .rread count fc
  allocRreaddir (heap : Malloc) :
    ∃ fc, npAllocRreaddir count heap = some fc ∧ Reserved .rreaddir count fc
  createRread (data : List UInt8) (length : data.length = count.toNat) :
    Fills (npCreateRread count data) .rread (bytes32 count ++ data)

/-- Every request that passes the test with this count and this message size is small enough, and
its reply can be allocated. -/
def IoRequest.Checked (request : IoRequest) (count msize : UInt32) : Prop :=
  ∀ {Aux World : Type} (env : Env Aux World) (s : Session Aux World) (tc : Npfcall),
    s.conn.msize = msize → tc.count = count → request.Passes env s tc →
      count.toNat + 24 ≤ msize.toNat ∧ Reserves count

/-! ## The test -/

/-- The replies of a connection with this message size. -/
def repliesWith (msize : UInt32) : (op : Op) → op.Reply → Prop
  | .conn, conn => conn.msize = msize
  | _, _ => True

/-- An operation that asks for no data. -/
def Op.Unsized (op : Op) : Prop := op.sized = false

/-- No handler asks for the data when the test fails. -/
theorem IoRequest.always_unsized (request : IoRequest) {tc : Npfcall} {msize : UInt32}
    (large : msize < tc.count + IOHDRSZ) :
    (request.handler tc).Always (repliesWith msize) Op.Unsized fun _ => True := by
  have refused {conn : Npconn} (same : conn.msize = msize) :
      ¬ tc.count + IOHDRSZ ≤ conn.msize := UInt32.not_le.mpr (same ▸ large)
  cases request with
  | read =>
    simp [IoRequest.handler, npRead, withFid, Option.forall, repliesWith, Op.Unsized, Op.sized]
    intro fid conn same passed
    exact absurd passed (refused same)
  | write =>
    simp [IoRequest.handler, npWrite, withFid, call, Option.forall, repliesWith, Op.Unsized,
      Op.sized, Callback.sized]
    intro fid type _ _ omode _ _ _ conn same
    exact same ▸ large
  | readdir =>
    simp [IoRequest.handler, npReaddir, withFid, Option.forall, repliesWith, Op.Unsized, Op.sized]
    intro fid conn same passed
    exact absurd passed (refused same)

/-- No operation changes the message size of the connection: `np_conn_reset` does not store it. -/
theorem exec_msize (env : Env Aux World) (op : Op) (s : Session Aux World) :
    (exec env op s).2.conn.msize = s.conn.msize := by
  rcases (exec_settings env op s).2 with same | ⟨msize, dotu, dotl, rfl⟩
  · rw [same]
  · rfl

theorem IoRequest.not_large_of_passes {request : IoRequest} {env : Env Aux World}
    {s : Session Aux World} {tc : Npfcall} (passes : request.Passes env s tc) :
    ¬ s.conn.msize < tc.count + IOHDRSZ := by
  intro large
  obtain ⟨event, member, sized⟩ := passes
  have replies (op : Op) (s' : Session Aux World) (same : s'.conn.msize = s.conn.msize)
      (_ : op.Unsized) : repliesWith s.conn.msize op (exec env op s').1 := by
    cases op <;> first | exact same | exact trivial
  obtain ⟨-, -, unsized⟩ := (request.always_unsized large).run replies
    (fun op s' same _ => (exec_msize env op s').trans same) rfl
  rw [unsized event member] at sized
  cases sized

/-! ## The allocation -/

theorem count_total (count : UInt32) : (4 + count + 7 : UInt32).toNat =
    (count.toNat + 11) % 2 ^ 32 := rreaddir_total

theorem reserved_of_small {type : MsgType} {count : UInt32} {heap : Malloc}
    (small : count.toNat + 11 < 2 ^ 31) :
    ∃ fc, npCreate type (4 + count)
      [.int32 count (fun fc count => { fc with count }), .alloc count] heap = some fc ∧
        Reserved type count fc := by
  obtain ⟨fc, junk, created, content, junkLength, pointer⟩ := @alloc_packet heap type count small
  have size : (4 + count : UInt32).toNat = 4 + count.toNat := by
    rw [UInt32.toNat_add]
    exact Nat.mod_eq_of_lt (by simpa using by omega)
  have announced : fc.size = 4 + count + 7 :=
    (npCreate_size (by simp) created).trans
      (npCreateCommon_size heap type (by omega))
  refine ⟨fc, created, ?_, ?_, pointer, ?_⟩
  · rw [announced, count_total]
    omega
  · rw [announced, content]
    exact List.take_left' rfl
  · rw [content]
    simp only [List.length_append, header_length, bytes32_length, junkLength]
    omega

theorem npAllocRread_reserved {count : UInt32} {heap : Malloc} (small : count.toNat + 11 < 2 ^ 31) :
    ∃ fc, npAllocRread count heap = some fc ∧ Reserved .rread count fc := reserved_of_small small

/-- The part of the packet that is left to the data. -/
theorem Reserved.window {type : MsgType} {count : UInt32} {fc : Npfcall}
    (reserved : Reserved type count fc) :
    ((fc.pkt.drop 11).take count.toNat).length = count.toNat := by
  have room := reserved.room
  rw [List.length_take_of_le]
  rw [List.length_drop]
  omega

theorem reserves_iff (count : UInt32) : Reserves count ↔ count.toNat + 11 < 2 ^ 31 := by
  refine ⟨fun reserves => ?_, fun small => ⟨fun heap => reserved_of_small small,
    fun heap => reserved_of_small small, fun data length => fills_rread length small⟩⟩
  by_contra large
  exact not_fills_rread (by simp) large
    (reserves.createRread (List.replicate count.toNat 0) (by simp))

/-! ## Requests that pass -/

/-- A fid that is open for reading and writing. -/
def Npfid.opened (type : UInt16) : Npfid Unit where
  fid := 0
  refcount := 1
  omode := 2
  type := type
  diroffset := 0
  user := some 0
  aux := none

/-- A request for `count` bytes from the start of the fid 0. -/
def Npfcall.asking (count : UInt32) : Npfcall :=
  { (default : Npfcall) with fid := 0, offset := 0, count }

/-- The type of a fid that the request can be made of. -/
def IoRequest.fidType : IoRequest → UInt16
  | .read | .write => 0
  | .readdir => Qtdir

theorem IoRequest.passes_of_opened (request : IoRequest) {env : Env Aux World}
    {s : Session Aux World} {tc : Npfcall} {fid : FidPtr} {f : Npfid Aux}
    (found : s.pool tc.fid = some fid) (live : s.fids.get fid = some f) (opened : f.omode = 2)
    (kind : f.type = request.fidType) (passing : ¬ s.conn.msize < tc.count + IOHDRSZ) :
    request.Passes env s tc := by
  have readable : (2 : UInt16) ≠ Onotopen ∧ (2 : UInt16) &&& 3 ≠ Owrite.toUInt16 ∧
      (2 : UInt16) &&& 3 ≠ Oread.toUInt16 := by decide
  have plain : (0 : UInt16) &&& Qtauth = 0 ∧ (0 : UInt16) &&& Ftxattr = 0 ∧
      (0 : UInt16) &&& Qtdir = 0 ∧ Qtdir &&& Qtdir ≠ 0 := by decide
  cases request with
  | read =>
    simp [Passes, handler, npRead, withFid, events_bind, found, Session.modify,
      Session.load, live, opened, kind, fidType, passing, readable, plain, Npfid.addRef, Op.sized]
    exact ⟨_, ⟨_, List.mem_singleton.mpr rfl⟩, rfl⟩
  | write =>
    simp [Passes, handler, npWrite, withFid, events_bind, found, Session.modify,
      Session.load, live, opened, kind, fidType, passing, readable, plain, Npfid.addRef, Op.sized]
    exact ⟨_, ⟨_, List.mem_singleton.mpr rfl⟩, rfl⟩
  | readdir =>
    have directory : Qtdir ≠ 0 := by decide
    simp [Passes, handler, npReaddir, withFid, events_bind, found, Session.modify, directory,
      Session.load, live, opened, kind, fidType, passing, readable, Npfid.addRef, Op.sized]
    exact ⟨_, ⟨_, List.mem_singleton.mpr rfl⟩, rfl⟩

/-- A count that a request passes the test with has to be small. -/
theorem IoRequest.small_of_checked {request : IoRequest} {count msize : UInt32}
    (checked : request.Checked count msize) (passing : ¬ msize < count + IOHDRSZ) :
    count.toNat + 11 < 2 ^ 31 := by
  apply (reserves_iff count).mp
  exact (checked Env.silent (.single msize (.opened request.fidType)) (.asking count) rfl rfl
    (request.passes_of_opened rfl rfl rfl rfl passing)).2

/-- The message sizes and counts of which every request that passes the test is small enough: those
that the test refuses, and the counts that a reply can be allocated for. -/
theorem IoRequest.checked_iff (request : IoRequest) (count msize : UInt32) :
    request.Checked count msize ↔ msize < count + IOHDRSZ ∨ count.toNat + 11 < 2 ^ 31 := by
  constructor
  · intro checked
    by_cases large : msize < count + IOHDRSZ
    · exact .inl large
    · exact .inr (small_of_checked checked large)
  · intro condition Aux World env s tc sameSize sameCount passes
    have passing := not_large_of_passes passes
    rw [sameSize, sameCount] at passing
    have small := condition.resolve_left passing
    refine ⟨?_, (reserves_iff count).mpr small⟩
    rw [UInt32.lt_iff_toNat_lt, UInt32.toNat_add] at passing
    have header : IOHDRSZ.toNat = 24 := rfl
    omega

/-- With a message size of 8216, the sum wraps around to 8 for the count `0xFFFFFFF0`. -/
theorem IoRequest.not_checked_all : ¬ ∀ (request : IoRequest) (count msize : UInt32),
    IOHDRSZ ≤ msize → request.Checked count msize := by
  intro all
  have small := small_of_checked (all .read 0xFFFFFFF0 8216 (by decide)) (by decide)
  exact absurd small (by decide)

end Npfs
