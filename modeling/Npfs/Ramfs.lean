import Npfs.Extent
import Npfs.Fid
import Npfs.ReadBack
import Npfs.Transition

/-!
# The contents of a file of ramfs2

`file_truncate`, `rfs_read`, `rfs_write` and `rfs_wstat` of `fs/ramfs2.c`.  Offsets and lengths are
`u64`; the size of the block, the counts and what is left of a file are computed in `int`.
-/

namespace Npfs

/-! ## Memory -/

/-- What `f->data` points to. -/
inductive Heap where
  | null
  | block (bytes : List UInt8)
  | freed

/-- Why a call does not return. -/
inductive Fault where
  /-- It goes outside of a block, uses one that is freed, divides by 0, or releases a lock that it
  does not have. -/
  | wild
  /-- It waits for a lock that it has. -/
  | blocked

/-- The answer of the allocator: no memory, or a block with new bytes of any value. -/
abbrev Grant := Option (Nat → UInt8)

/-- `PTRDIFF_MAX`, the size of the largest block. -/
def ptrdiffMax : Nat := 2 ^ 63 - 1

/-- A block of `n` bytes that starts as `bytes` does. -/
def regrow (bytes : List UInt8) (n : Nat) (fill : Nat → UInt8) : List UInt8 :=
  (List.range n).map fun i => bytes.getD i (fill i)

/-- `realloc`: the new block, and what becomes of the old one.  A block of size 0 is freed. -/
def realloc (ptr : Heap) (n : Nat) (grant : Grant) : Except Fault (Heap × Heap) :=
  match ptr with
  | .freed => .error .wild
  | .null => match grant with
    | some fill => if n ≤ ptrdiffMax then .ok (.block (regrow [] n fill), .null) else
      .ok (.null, .null)
    | none => .ok (.null, .null)
  | .block bytes =>
    if n = 0 then
      .ok (.null, .freed)
    else match grant with
      | some fill => if n ≤ ptrdiffMax then .ok (.block (regrow bytes n fill), .freed) else
        .ok (.null, .block bytes)
      | none => .ok (.null, .block bytes)

/-- `free`. -/
def Heap.free : Heap → Except Fault Unit
  | .freed => .error .wild
  | _ => .ok ()

/-- `size_t`. -/
def sizeT (n : Int) : Nat := (n % 2 ^ 64).toNat

/-- `File`. -/
structure File where
  data : Heap
  datasize : UInt64

namespace File

/-- `n` bytes from `pos` on are read or changed. -/
def access (f : File) (pos n : Nat) (change : List UInt8 → List UInt8) :
    Except Fault (List UInt8 × File) :=
  if n = 0 then
    .ok ([], f)
  else match f.data with
    | .block bytes =>
      if pos + n ≤ bytes.length then
        .ok ((bytes.drop pos).take n, { f with data := .block (change bytes) })
      else
        .error .wild
    | _ => .error .wild

/-- `memmove` out of the block, into `room` bytes. -/
def load (f : File) (pos n room : Nat) : Except Fault (List UInt8) :=
  if n ≤ room then Prod.fst <$> f.access pos n id else .error .wild

/-- `memmove` into the block. -/
def save (f : File) (pos : Nat) (data : List UInt8) (n : Nat) : Except Fault File :=
  if n ≤ data.length then Prod.snd <$> f.access pos n (store · pos (data.take n)) else .error .wild

/-- `memset` with 0. -/
def zero (f : File) (pos n : Nat) : Except Fault File :=
  Prod.snd <$> f.access pos n fun bytes => store bytes pos (List.replicate n 0)

end File

/-- What of an `Npfile` the functions read and change. -/
structure Npfile where
  length : UInt64
  mode : UInt32
  mtime : UInt32
  aux : File

/-! ## The functions -/

section Functions

-- `blksize` is the `int` that the server was started with, as a `u64`.
variable (blksize : UInt64)

/-- `file_truncate`: 0 or -1. -/
def fileTruncate (f : File) (size : UInt64) (grant : Grant) : Except Fault (Int × File) :=
  if size = 0 then do
    f.data.free
    return (0, { f with data := .null, datasize := 0 })
  else if blksize = 0 then
    .error .wild
  else do
    let n := cint ((size / blksize + if size % blksize ≠ 0 then 1 else 0) * blksize).toUInt32
    let (buf, old) ← realloc f.data (sizeT n) grant
    match buf with
    | .null => return (-1, { f with data := old })
    | _ => return (0, { f with data := buf, datasize := UInt64.ofNat (sizeT n) })

/-- `rfs_read`. -/
def rfsRead (file : Npfile) (offset : UInt64) (count : UInt32) : Except Fault (List UInt8) :=
  let n := if file.length < offset + count.toUInt64 then cint (file.length - offset).toUInt32
    else cint count
  let n := if n < 0 then 0 else n
  file.aux.load offset.toNat n.toNat count.toNat

/-- A request's data, of a length that is a `u32`. -/
abbrev Payload := { data : List UInt8 // data.length < 2 ^ 32 }

namespace Payload

def count (data : Payload) : UInt32 := .ofNat data.val.length

end Payload

/-- `rfs_write`: the number that it returns and whether an error is set. -/
def rfsWrite (file : Npfile) (omode : UInt8) (offset : UInt64) (data : Payload) (grant : Grant) :
    Except Fault ((Int × Bool) × Npfile) :=
  let count := data.count
  let f := file.aux
  let offset := if omode &&& Oappend ≠ 0 then file.length else offset
  if file.length < offset + count.toUInt64 then do
    let (failed, f) ← fileTruncate blksize f (offset + count.toUInt64) grant
    if failed ≠ 0 then
      return ((0, true), { file with aux := f })
    let n := if offset + count.toUInt64 > f.datasize then
      if f.datasize - offset > 0 then cint (f.datasize - offset).toUInt32 else 0 else cint count
    if n = 0 then
      return ((0, false), { file with aux := f })
    let f ← if file.length < offset then f.zero file.length.toNat (offset - file.length).toNat
      else pure f
    let f ← f.save offset.toNat data.val (sizeT n)
    return ((n, false), { file with length := offset + count.toUInt64, aux := f })
  else do
    let n := cint count
    let f ← f.save offset.toNat data.val (sizeT n)
    return ((n, false), { file with aux := f })

/-- The mode and the time that a stat record sets. -/
def Npfile.set (file : Npfile) (stat : Npstat) : Npfile :=
  { file with
    mode := if stat.mode ≠ ~~~0 then stat.mode else file.mode
    mtime := if stat.mtime ≠ ~~~0 then stat.mtime else file.mtime }

/-- `rfs_wstat`: 1 or 0.  `restored` is the answer of the allocator on the way out. -/
def rfsWstat (file : Npfile) (stat : Npstat) (grant restored : Grant) :
    Except Fault (Int × Npfile) :=
  if stat.name.len ≠ 0 then
    -- `npfile_find` locks the parent, which is locked already.  The name `..`, for which it returns
    -- before that and nothing changes, is left out.
    .error .blocked
  else if stat.length ≠ ~~~0 then do
    let oldlength := file.length
    let (failed, f) ← fileTruncate blksize file.aux stat.length grant
    if failed ≠ 0 then
      if oldlength = ~~~0 then
        return (0, { file with aux := f })
      let (_, f) ← fileTruncate blksize f oldlength restored
      return (0, { file with length := oldlength, aux := f })
    let length := if stat.length > f.datasize then f.datasize else stat.length
    let f ← if file.length < length then f.zero file.length.toNat (length - file.length).toNat
      else pure f
    return (1, { file with length, aux := f }.set stat)
  else
    return (1, file.set stat)

end Functions

/-! ## Runs -/

/-- A call on the file, with the answers of the allocator. -/
inductive FileCall where
  | write (omode : UInt8) (offset : UInt64) (data : Payload) (grant : Grant)
  | read (offset : UInt64) (count : UInt32)
  | wstat (stat : Npstat) (grant restored : Grant)

/-- What a call has returned. -/
inductive FileExchange where
  | wrote (data : Payload) (n : Int) (refused : Bool)
  /-- `contents` is the reference at that time. -/
  | read (contents : List UInt8) (offset : UInt64) (count : UInt32) (bytes : List UInt8)

/-- The answer that the reference gives. -/
def FileExchange.Right : FileExchange → Prop
  | .wrote data n refused => refused = true ∨ n = data.val.length
  | .read contents offset count bytes => bytes = Extent.read contents offset.toNat count.toNat

/-- A file and its reference. -/
structure FileRun where
  file : Npfile
  contents : List UInt8
  log : List FileExchange
  fault : Option Fault

namespace FileRun

/-- A file that `rfs_create` has made. -/
def start (mode mtime : UInt32) : FileRun :=
  { file := { length := 0, mode, mtime, aux := ⟨.null, 0⟩ }, contents := [], log := [],
    fault := none }

variable (blksize : UInt64)

def next (r : FileRun) (call : FileCall) : Option FileRun :=
  if r.fault.isSome then none else
  match call with
  | .write omode offset data grant =>
    some <| match rfsWrite blksize r.file omode offset data grant with
    | .ok ((n, refused), file) =>
      let offset := if omode &&& Oappend ≠ 0 then r.contents.length else offset.toNat
      { r with
        file, log := r.log ++ [.wrote data n refused]
        contents := if refused then r.contents else Extent.write 0 r.contents offset data.val }
    | .error fault => { r with fault := fault }
  | .read offset count =>
    some <| match rfsRead r.file offset count with
    | .ok bytes => { r with log := r.log ++ [.read r.contents offset count bytes] }
    | .error fault => { r with fault := fault }
  | .wstat stat grant restored =>
    some <| match rfsWstat blksize r.file stat grant restored with
    | .ok (n, file) =>
      { r with
        file
        contents := if n ≠ 0 ∧ stat.length ≠ ~~~0 then
          Extent.resize 0 r.contents stat.length.toNat else r.contents }
    | .error fault => { r with fault := fault }

/-- The file agrees with its reference. -/
structure Faithful (r : FileRun) : Prop where
  tame : ∀ fault, r.fault = some fault → fault = .blocked
  length : r.file.length.toNat = r.contents.length
  datasize : r.file.length ≤ r.file.aux.datasize
  right : ∀ exchange ∈ r.log, exchange.Right

end FileRun

section Sizes

variable (blksize : UInt64)

/-- The size of the blocks for `size` bytes. -/
def whole (size : UInt64) : Nat :=
  (size.toNat / blksize.toNat + if size.toNat % blksize.toNat ≠ 0 then 1 else 0) * blksize.toNat

/-- What is left of it in 32 bits. -/
def asked (size : UInt64) : Nat := whole blksize size % 2 ^ 32

/-- `realloc` gives no block and keeps the old one. -/
def Refuses (data : Heap) (size : UInt64) (grant : Grant) : Prop :=
  2 ^ 31 ≤ asked blksize size ∨ grant = none ∧ (asked blksize size ≠ 0 ∨ data = .null)

/-- The size of the block is computed right, or there is no block of that size. -/
def Sized (data : Heap) (size : UInt64) (grant : Grant) : Prop :=
  size = 0 ∨ blksize ≠ 0 ∧
    (Refuses blksize data size grant ∨ asked blksize size = whole blksize size)

/-- The sizes that a call computes do not wrap. -/
def FileRun.Fits (r : FileRun) : FileCall → Prop
  | .write omode offset data grant =>
    let offset := if omode &&& Oappend ≠ 0 then r.file.length else offset
    let size := offset + data.count.toUInt64
    if r.file.length < size then
      blksize ≠ 0 ∧ (Refuses blksize r.file.aux.data size grant ∨
        asked blksize size = whole blksize size ∧ offset.toNat + data.val.length < 2 ^ 64)
    else
      data.val = [] ∨ offset.toNat + data.val.length < 2 ^ 64
  | .read offset count =>
    offset ≤ r.file.length ∨ if r.file.length < offset + count.toUInt64 then
      (offset - r.file.length).toNat % 2 ^ 32 ≤ 2 ^ 31 else 2 ^ 31 ≤ count.toNat
  | .wstat stat grant _ =>
    stat.name.len = 0 → stat.length ≠ ~~~0 → Sized blksize r.file.aux.data stat.length grant

end Sizes

/-! ## Sizes -/

section Sizes

variable {blksize size : UInt64}

theorem sizeT_cint_of_lt {n : UInt32} (small : n.toNat < 2 ^ 31) : sizeT (cint n) = n.toNat := by
  rw [sizeT, cint, if_pos small]
  omega

theorem sizeT_cint_of_ge {n : UInt32} (large : 2 ^ 31 ≤ n.toNat) :
    ptrdiffMax < sizeT (cint n) := by
  have bound := n.toNat_lt
  rw [sizeT, cint, if_neg (by omega), ptrdiffMax]
  omega

theorem toNat_asked :
    ((size / blksize + if size % blksize ≠ 0 then 1 else 0) * blksize).toUInt32.toNat =
      asked blksize size := by
  have one : (if size % blksize ≠ 0 then 1 else 0 : UInt64).toNat =
      if size.toNat % blksize.toNat ≠ 0 then 1 else 0 := by
    rw [apply_ite UInt64.toNat]
    exact if_congr (by rw [← UInt64.toNat_mod, ne_eq, ← UInt64.toNat_inj]; rfl) rfl rfl
  rw [UInt64.toNat_toUInt32, UInt64.toNat_mul, UInt64.toNat_add, UInt64.toNat_div, one, asked,
    whole, Nat.mod_mod_of_dvd _ (by norm_num), Nat.mul_mod, Nat.mod_mod_of_dvd _ (by norm_num),
    ← Nat.mul_mod]

theorem whole_eq (given : blksize ≠ 0) :
    whole blksize size =
      (size.toNat + (blksize.toNat - 1)) / blksize.toNat * blksize.toNat := by
  have positive : 0 < blksize.toNat :=
    Nat.pos_of_ne_zero fun zero => given (UInt64.toNat_inj.mp zero)
  have below := Nat.mod_lt size.toNat positive
  have parts := Nat.div_add_mod size.toNat blksize.toNat
  rw [whole]
  congr 1
  split_ifs with rest
  · symm
    rw [← parts, add_assoc, Nat.mul_add_div positive, Nat.mul_add_div positive,
      Nat.div_eq_of_lt below]
    congr 1
    exact Nat.div_eq_of_lt_le (by omega) (by omega)
  · rw [not_not.mp rest, add_zero] at parts
    symm
    rw [← parts, Nat.mul_add_div positive, Nat.mul_div_cancel_left _ positive]
    congr 1
    exact Nat.div_eq_of_lt (by omega)

theorem le_whole (given : blksize ≠ 0) : size.toNat ≤ whole blksize size := by
  have positive : 0 < blksize.toNat :=
    Nat.pos_of_ne_zero fun zero => given (UInt64.toNat_inj.mp zero)
  have below := Nat.mod_lt (size.toNat + (blksize.toNat - 1)) positive
  have parts := Nat.div_add_mod (size.toNat + (blksize.toNat - 1)) blksize.toNat
  rw [whole_eq given, mul_comm]
  omega

theorem whole_mono (given : blksize ≠ 0) {short : UInt64} (le : short.toNat ≤ size.toNat) :
    whole blksize short ≤ whole blksize size := by
  rw [whole_eq given, whole_eq given]
  gcongr

end Sizes

/-! ## What a block holds -/

/-- The block of the file starts with `contents`. -/
structure File.Backs (f : File) (contents : List UInt8) : Prop where
  data : match f.data with
    | .null => contents = [] ∧ f.datasize = 0
    | .block bytes => contents <+: bytes ∧ bytes.length = f.datasize.toNat
    | .freed => False
  small : f.datasize.toNat < 2 ^ 31

@[simp]
theorem length_regrow (bytes : List UInt8) (n : Nat) (fill : Nat → UInt8) :
    (regrow bytes n fill).length = n := by
  rw [regrow, List.length_map, List.length_range]

theorem prefix_regrow {front bytes : List UInt8} (placed : front <+: bytes) {n : Nat}
    (room : front.length ≤ n) (fill : Nat → UInt8) : front <+: regrow bytes n fill := by
  rw [List.prefix_iff_getElem?]
  intro i inside
  have kept := List.prefix_iff_getElem?.mp placed i inside
  rw [regrow, List.getElem?_map, List.getElem?_range (by omega), Option.map_some,
    List.getD_eq_getElem?_getD, kept, Option.getD_some]

namespace File.Backs

variable {f : File} {contents : List UInt8}

theorem length_le (backs : f.Backs contents) : contents.length ≤ f.datasize.toNat := by
  have data := backs.data
  split at data
  · simp [data.1]
  · exact data.2 ▸ data.1.length_le
  · exact data.elim

/-- Less of the contents. -/
theorem take (backs : f.Backs contents) (n : Nat) : f.Backs (contents.take n) where
  data := by
    have data := backs.data
    split at data
    · simpa [data.1] using data.2
    · exact ⟨(List.take_prefix n contents).trans data.1, data.2⟩
    · exact data
  small := backs.small

/-- An access within the block. -/
theorem access (backs : f.Backs contents) {pos n : Nat} (room : pos + n ≤ f.datasize.toNat)
    (change : List UInt8 → List UInt8) :
    f.access pos n change = .ok ([], f) ∧ n = 0 ∨
    ∃ bytes, f.data = .block bytes ∧ contents <+: bytes ∧ bytes.length = f.datasize.toNat ∧
      f.access pos n change =
        .ok ((bytes.drop pos).take n, { f with data := .block (change bytes) }) := by
  rcases Nat.eq_zero_or_pos n with rfl | positive
  · exact .inl ⟨rfl, rfl⟩
  have data := backs.data
  split at data
  · rw [data.2] at room
    exact absurd room (by simp only [UInt64.toNat_zero]; omega)
  · rename_i bytes pointed
    refine .inr ⟨bytes, pointed, data.1, data.2, ?_⟩
    rw [File.access, if_neg positive.ne', pointed]
    exact if_pos (by omega)
  · exact data.elim

/-- What is read lies within the contents. -/
theorem load (backs : f.Backs contents) {pos n room : Nat}
    (within : n = 0 ∨ pos + n ≤ contents.length) (fits : n ≤ room) :
    f.load pos n room = .ok (Extent.read contents pos n) := by
  rw [File.load, if_pos fits]
  rcases within with rfl | within
  · simp [File.access, Extent.read]
  rcases backs.access (within.trans backs.length_le) id with
    ⟨taken, rfl⟩ | ⟨bytes, _, placed, -, taken⟩
  · rw [taken]
    simp [Extent.read]
  · obtain ⟨rest, rfl⟩ := placed
    rw [taken]
    refine congrArg Except.ok ?_
    rw [Extent.read, List.drop_append_of_le_length (by omega),
      List.take_append_of_le_length (by rw [List.length_drop]; omega)]

/-- A block stays in its place when bytes of it are replaced. -/
theorem change (backs : f.Backs contents) {pos : Nat} {new result : List UInt8}
    (room : pos + new.length ≤ f.datasize.toNat)
    (held : ∀ bytes, contents <+: bytes → bytes.length = f.datasize.toNat →
      result <+: Npfs.store bytes pos new)
    (nothing : new = [] → result = contents) :
    ∃ f', Prod.snd <$> f.access pos new.length (Npfs.store · pos new) = .ok f' ∧
      f'.Backs result ∧ f'.datasize = f.datasize := by
  rcases backs.access room (Npfs.store · pos new) with
    ⟨taken, none⟩ | ⟨bytes, -, placed, size, taken⟩
  · rw [nothing (List.length_eq_zero_iff.mp none), taken]
    exact ⟨f, rfl, backs, rfl⟩
  · rw [taken]
    refine ⟨{ f with data := .block (Npfs.store bytes pos new) }, rfl, ?_, rfl⟩
    refine ⟨⟨held bytes placed size, ?_⟩, backs.small⟩
    rw [← size] at room ⊢
    simp only [Npfs.store, List.length_append, List.length_take, List.length_drop]
    omega

/-- What is stored at the end of the contents belongs to them. -/
theorem store (backs : f.Backs contents) {pos : Nat} (position : pos = contents.length)
    {new : List UInt8} (room : pos + new.length ≤ f.datasize.toNat) :
    ∃ f', Prod.snd <$> f.access pos new.length (Npfs.store · pos new) = .ok f' ∧
      f'.Backs (contents ++ new) ∧ f'.datasize = f.datasize := by
  refine backs.change room (fun bytes placed size => ?_) fun none => by rw [none, List.append_nil]
  rw [position] at room ⊢
  have stored := store_prefix placed (size.symm ▸ room)
  exact stored.1

/-- What is stored within the contents replaces a part of them. -/
theorem overwrite (backs : f.Backs contents) {pos : Nat} {new : List UInt8}
    (within : pos + new.length ≤ contents.length) :
    ∃ f', Prod.snd <$> f.access pos new.length (Npfs.store · pos new) = .ok f' ∧
      f'.Backs (Extent.write 0 contents pos new) ∧ f'.datasize = f.datasize := by
  refine backs.change (within.trans backs.length_le) (fun bytes placed _ => ?_) ?_
  · obtain ⟨rest, rfl⟩ := placed
    rw [Extent.write_of_within within, Npfs.store, List.take_append_of_le_length (by omega),
      List.drop_append_of_le_length within, ← List.append_assoc]
    exact List.prefix_append _ rest
  · rintro rfl
    exact Extent.write_nil pos

end File.Backs

/-! ## The functions -/

section Functions

variable {blksize : UInt64} {f : File} {contents : List UInt8}

theorem realloc_refuses (backs : f.Backs contents) {n : UInt32} {grant : Grant}
    (refuses : 2 ^ 31 ≤ n.toNat ∨ grant = none ∧ (n.toNat ≠ 0 ∨ f.data = .null)) :
    realloc f.data (sizeT (cint n)) grant = .ok (.null, f.data) := by
  have size : n.toNat = 0 → sizeT (cint n) = 0 := fun zero =>
    (sizeT_cint_of_lt (by omega)).trans zero
  have data := backs.data
  split at data
  · rename_i pointed
    rw [pointed]
    rcases refuses with large | ⟨rfl, -⟩
    · cases grant with
      | none => rfl
      | some fill => exact if_neg (sizeT_cint_of_ge large).not_ge
    · rfl
  · rename_i bytes pointed
    rw [pointed] at refuses ⊢
    rcases refuses with large | ⟨rfl, some⟩
    · have beyond := sizeT_cint_of_ge large
      have positive : sizeT (cint n) ≠ 0 := by omega
      cases grant with
      | none => rw [realloc, if_neg positive]
      | some fill =>
        rw [realloc, if_neg positive]
        exact if_neg beyond.not_ge
    · have positive : sizeT (cint n) ≠ 0 := by
        rcases lt_or_ge n.toNat (2 ^ 31) with small | large
        · rw [sizeT_cint_of_lt small]
          exact some.resolve_right nofun
        · have beyond := sizeT_cint_of_ge large
          omega
      rw [realloc, if_neg positive]
  · exact data.elim

theorem realloc_grants (backs : f.Backs contents) {n : Nat} (positive : n ≠ 0)
    (small : n ≤ ptrdiffMax) (fill : Nat → UInt8) :
    ∃ bytes old, realloc f.data n (some fill) = .ok (.block bytes, old) ∧ bytes.length = n ∧
      ∀ front, front <+: contents → front.length ≤ n → front <+: bytes := by
  have data := backs.data
  split at data
  · rename_i pointed
    refine ⟨regrow [] n fill, .null, ?_, length_regrow _ _ _, fun front part short => ?_⟩
    · rw [pointed]
      exact if_pos small
    · rw [data.1] at part
      exact prefix_regrow part short fill
  · rename_i bytes pointed
    refine ⟨regrow bytes n fill, .freed, ?_, length_regrow _ _ _, fun front part short => ?_⟩
    · rw [pointed, realloc, if_neg positive]
      exact if_pos small
    · exact prefix_regrow (part.trans data.1) short fill
  · exact data.elim

/-- `file_truncate` leaves the file as it is, or gives it room for the new size. -/
theorem fileTruncate_sized (backs : f.Backs contents) {size : UInt64} {grant : Grant}
    (sized : Sized blksize f.data size grant) :
    Refuses blksize f.data size grant ∧ fileTruncate blksize f size grant = .ok (-1, f) ∨
    ∃ f', fileTruncate blksize f size grant = .ok (0, f') ∧
      f'.Backs (contents.take size.toNat) ∧ f'.datasize.toNat = whole blksize size ∧
      (size = 0 ∨ blksize ≠ 0 ∧ ¬ Refuses blksize f.data size grant) := by
  rcases eq_or_ne size 0 with rfl | some
  · refine .inr ⟨⟨.null, 0⟩, ?_, ⟨⟨rfl, rfl⟩, by decide⟩, by simp [whole], .inl rfl⟩
    rw [fileTruncate, if_pos rfl]
    have data := backs.data
    split at data
    · rename_i pointed
      rw [pointed]
      rfl
    · rename_i pointed
      rw [pointed]
      rfl
    · exact data.elim
  obtain ⟨given, sized⟩ := sized.resolve_left some
  obtain ⟨n, number⟩ : ∃ n, ((size / blksize + if size % blksize ≠ 0 then 1 else 0) *
    blksize).toUInt32 = n := ⟨_, rfl⟩
  have asks : n.toNat = asked blksize size := number ▸ toNat_asked
  rw [fileTruncate, if_neg some, if_neg given, number]
  by_cases refuses : Refuses blksize f.data size grant
  · refine .inl ⟨refuses, ?_⟩
    dsimp only
    rw [realloc_refuses backs (asks ▸ refuses)]
    rfl
  have exactly := sized.resolve_left refuses
  obtain ⟨small, granted⟩ : asked blksize size < 2 ^ 31 ∧
      (grant = none → ¬ asked blksize size ≠ 0 ∧ ¬ f.data = .null) := by
    simpa only [Refuses, not_or, not_and, not_le] using refuses
  have positive : n.toNat ≠ 0 := by
    have reach : size.toNat ≤ whole blksize size := le_whole given
    have more : size.toNat ≠ 0 := fun zero => some (UInt64.toNat_inj.mp zero)
    omega
  obtain ⟨fill, rfl⟩ := Option.ne_none_iff_exists'.mp fun none =>
    (granted none).1 (asks ▸ positive)
  have computed : sizeT (cint n) = n.toNat := sizeT_cint_of_lt (asks ▸ small)
  have same : (UInt64.ofNat n.toNat).toNat = n.toNat :=
    UInt64.toNat_ofNat_of_lt' (by rw [UInt64.size]; omega)
  obtain ⟨bytes, old, taken, length, kept⟩ := realloc_grants backs positive
    (by rw [ptrdiffMax]; omega) fill
  refine .inr ⟨⟨.block bytes, UInt64.ofNat n.toNat⟩, ?_, ⟨⟨?_, ?_⟩, ?_⟩, ?_, .inr ⟨given, refuses⟩⟩
  · dsimp only
    rw [computed, taken]
    rfl
  · refine kept _ (List.take_prefix _ _) ((List.length_take_le _ _).trans ?_)
    rw [asks, exactly]
    exact le_whole given
  · exact length.trans same.symm
  · rw [same]
    omega
  · rw [same]
    omega

/-- The file and its block agree with the contents. -/
structure Npfile.Holds (blksize : UInt64) (file : Npfile) (contents : List UInt8) : Prop where
  length : file.length.toNat = contents.length
  backs : file.aux.Backs contents
  blocks : contents = [] ∨ blksize ≠ 0 ∧ whole blksize file.length ≤ file.aux.datasize.toNat

variable {file : Npfile}

theorem Npfile.Holds.length_lt (holds : file.Holds blksize contents) :
    file.length.toNat < 2 ^ 31 := by
  rw [holds.length]
  exact holds.backs.length_le.trans_lt holds.backs.small

theorem rfsRead_fits (holds : file.Holds blksize contents) {offset : UInt64} {count : UInt32}
    (fits : offset ≤ file.length ∨ if file.length < offset + count.toUInt64 then
      (offset - file.length).toNat % 2 ^ 32 ≤ 2 ^ 31 else 2 ^ 31 ≤ count.toNat) :
    rfsRead file offset count = .ok (Extent.read contents offset.toNat count.toNat) := by
  have small := holds.length_lt
  have bound := count.toNat_lt
  have bound' := offset.toNat_lt
  have sum : (offset + count.toUInt64).toNat = (offset.toNat + count.toNat) % 2 ^ 64 := by
    rw [UInt64.toNat_add, UInt32.toNat_toUInt64]
  obtain ⟨n, chosen⟩ : ∃ n, (if file.length < offset + count.toUInt64 then
    cint (file.length - offset).toUInt32 else cint count) = n := ⟨_, rfl⟩
  have rest : (file.length - offset).toUInt32.toNat =
      (2 ^ 64 - offset.toNat + file.length.toNat) % 2 ^ 32 := by
    rw [UInt64.toNat_toUInt32, UInt64.toNat_sub, Nat.mod_mod_of_dvd _ (by norm_num)]
  rw [rfsRead, chosen]
  simp only [UInt64.lt_iff_toNat_lt, UInt64.le_iff_toNat_le, sum] at chosen fits
  by_cases within : offset.toNat ≤ file.length.toNat
  · have left : (if n < 0 then 0 else n).toNat =
        min count.toNat (contents.length - offset.toNat) := by
      have rest : (file.length - offset).toUInt32.toNat = file.length.toNat - offset.toNat := by
        rw [UInt64.toNat_toUInt32, UInt64.toNat_sub_of_le _ _ (UInt64.le_iff_toNat_le.mpr within),
          Nat.mod_eq_of_lt (by omega)]
      rw [Nat.mod_eq_of_lt (by omega)] at chosen
      rw [← holds.length, ← chosen]
      simp only [cint, rest]
      split_ifs <;> omega
    rw [left, holds.backs.load (by omega) (by omega)]
    refine congrArg Except.ok ?_
    rw [Extent.read, Extent.read, ← List.length_drop, ← List.take_eq_take_min]
  · have none : (if n < 0 then 0 else n).toNat = 0 := by
      replace fits := fits.resolve_left within
      rw [UInt64.toNat_sub] at fits
      rw [← chosen]
      simp only [cint, rest]
      split_ifs at fits ⊢ <;> omega
    rw [none, holds.backs.load (.inl rfl) (Nat.zero_le _)]
    refine congrArg Except.ok ?_
    have beyond : contents.length ≤ offset.toNat := holds.length ▸ (not_le.mp within).le
    rw [Extent.read, Extent.read, List.drop_of_length_le beyond, List.take_nil, List.take_nil]

theorem Payload.toNat_count (data : Payload) : data.count.toNat = data.val.length :=
  UInt32.toNat_ofNat_of_lt' data.property

theorem Payload.cint_count (data : Payload) (small : data.val.length < 2 ^ 31) :
    cint data.count = data.val.length := by
  rw [cint, data.toNat_count, if_pos small]

/-- A payload is stored whole. -/
theorem File.save_payload (f : File) (pos : Nat) (data : Payload)
    (small : data.val.length < 2 ^ 31) :
    f.save pos data.val (sizeT data.val.length) =
      Prod.snd <$> f.access pos data.val.length (store · pos data.val) := by
  have size : sizeT data.val.length = data.val.length := by
    rw [sizeT]
    omega
  rw [size, File.save, if_pos le_rfl, List.take_length]

/-- The bytes before a write are set. -/
theorem File.Backs.fill (backs : f.Backs contents) {length offset : UInt64}
    (length_eq : length.toNat = contents.length) (room : offset.toNat ≤ f.datasize.toNat) :
    ∃ f', (if length < offset then f.zero length.toNat (offset - length).toNat else pure f) =
        .ok f' ∧
      f'.Backs (Extent.resize 0 contents offset.toNat) ∧ f'.datasize = f.datasize := by
  split_ifs with gap
  · have gap' := UInt64.lt_iff_toNat_lt.mp gap
    have count : (offset - length).toNat = offset.toNat - contents.length := by
      rw [UInt64.toNat_sub_of_le _ _ (UInt64.le_of_lt gap), length_eq]
    rw [Extent.resize_of_ge (by omega), File.zero, count]
    have fits : length.toNat +
        (List.replicate (offset.toNat - contents.length) (0 : UInt8)).length ≤
          f.datasize.toNat := by
      rw [List.length_replicate]
      omega
    have stored := backs.store length_eq fits
    rwa [List.length_replicate] at stored
  · have gap' := mt UInt64.lt_iff_toNat_lt.mpr gap
    rw [Extent.resize_of_le (by omega)]
    exact ⟨f, rfl, backs.take _, rfl⟩

theorem rfsWrite_fits (holds : file.Holds blksize contents) {omode : UInt8} {offset : UInt64}
    {data : Payload} {grant : Grant} {log : List FileExchange} {fault : Option Fault}
    (fits : (FileRun.mk file contents log fault).Fits blksize (.write omode offset data grant)) :
    ∃ n refused file', rfsWrite blksize file omode offset data grant = .ok ((n, refused), file') ∧
      (refused = true ∨ n = data.val.length) ∧
      file'.Holds blksize (if refused then contents else Extent.write 0 contents
        (if omode &&& Oappend ≠ 0 then contents.length else offset.toNat) data.val) := by
  obtain ⟨at_, chosen⟩ : ∃ at_, (if omode &&& Oappend ≠ 0 then file.length else offset) = at_ :=
    ⟨_, rfl⟩
  have place : (if omode &&& Oappend ≠ 0 then contents.length else offset.toNat) = at_.toNat := by
    rw [← chosen, apply_ite UInt64.toNat, holds.length]
  have small := holds.length_lt
  have bound := data.property
  have sum : (at_ + data.count.toUInt64).toNat = (at_.toNat + data.val.length) % 2 ^ 64 := by
    rw [UInt64.toNat_add, UInt32.toNat_toUInt64, data.toNat_count]
  simp only [FileRun.Fits, chosen] at fits
  rw [rfsWrite, place]
  simp only [chosen]
  by_cases longer : file.length < at_ + data.count.toUInt64
  · rw [if_pos longer] at fits
    simp only [if_pos longer]
    have longer' := UInt64.lt_iff_toNat_lt.mp longer
    obtain ⟨given, fits⟩ := fits
    rcases fileTruncate_sized holds.backs (.inr ⟨given, fits.imp_right And.left⟩) with
      ⟨-, refused⟩ | ⟨f, granted, held, size, reason⟩
    · rw [refused]
      exact ⟨0, true, file, rfl, .inl rfl, holds⟩
    · have positive : at_ + data.count.toUInt64 ≠ 0 := fun zero => by simp [zero] at longer'
      have kept := reason.resolve_left positive
      obtain ⟨-, exactly⟩ := fits.resolve_left kept.2
      rw [Nat.mod_eq_of_lt exactly] at sum
      have reach : (at_ + data.count.toUInt64).toNat ≤ whole blksize _ := le_whole given
      have room := size ▸ reach
      rw [sum] at room
      rw [List.take_of_length_le (by rw [← holds.length]; exact longer'.le)] at held
      have limit := held.small
      obtain ⟨f₁, filled, backs, datasize⟩ := held.fill holds.length (by omega : at_.toNat ≤ _)
      obtain ⟨f₂, stored, backs, datasize'⟩ :=
        backs.store Extent.length_resize.symm (by rw [datasize]; exact room)
      have small' : ¬ at_ + data.count.toUInt64 > f.datasize := by
        rw [gt_iff_lt, UInt64.lt_iff_toNat_lt, sum]
        omega
      have grown : ∀ length : UInt64, length.toNat ≤ at_.toNat + data.val.length →
          whole blksize length ≤ f.datasize.toNat := fun length short =>
        size ▸ whole_mono given (sum ▸ short)
      rw [granted]
      simp only [bind, Except.bind, pure, Except.pure, if_neg small', ne_eq, not_true_eq_false,
        if_false, data.cint_count (by omega)]
      rcases eq_or_ne data.val [] with none | some
      · refine ⟨0, false, { file with aux := f }, by simp [none], .inr (by simp [none]), ?_⟩
        refine ⟨?_, ?_, .inr ⟨given, grown _ (sum ▸ longer'.le)⟩⟩
        · simpa [none] using holds.length
        · simpa [none] using held
      · have positive : (data.val.length : Int) ≠ 0 := by simpa using some
        refine ⟨data.val.length, false, ⟨at_ + data.count.toUInt64, file.mode, file.mtime, f₂⟩, ?_,
          .inr rfl, ?_⟩
        · rw [if_neg positive]
          split_ifs at filled ⊢ with gap
          · rw [filled]
            dsimp only
            rw [f₁.save_payload _ _ (by omega), stored]
          · rw [Except.ok.inj filled, f₁.save_payload _ _ (by omega), stored]
        · rw [if_neg Bool.false_ne_true, Extent.write_of_end some (by have := holds.length; omega)]
          refine ⟨?_, backs, .inr ⟨given, ?_⟩⟩
          · rw [sum, List.length_append, Extent.length_resize]
          · rw [datasize', datasize]
            exact grown _ sum.le
  · rw [if_neg longer] at fits
    simp only [if_neg longer]
    have longer' := mt UInt64.lt_iff_toNat_lt.mpr longer
    have within : data.val = [] ∨ at_.toNat + data.val.length ≤ contents.length := by
      refine fits.imp_right fun fits => ?_
      rw [sum, Nat.mod_eq_of_lt fits, holds.length] at longer'
      exact not_lt.mp longer'
    have short : data.val.length < 2 ^ 31 := by
      rcases within with none | within
      · simp [none]
      · have := holds.length
        omega
    have stored : ∃ f', Prod.snd <$> file.aux.access at_.toNat data.val.length
        (store · at_.toNat data.val) = .ok f' ∧
        f'.Backs (Extent.write 0 contents at_.toNat data.val) ∧
          f'.datasize = file.aux.datasize := by
      rcases within with none | within
      · exact ⟨file.aux, by rw [none]; rfl, by rw [none, Extent.write_nil]; exact holds.backs, rfl⟩
      · exact holds.backs.overwrite within
    obtain ⟨f', taken, backs, datasize⟩ := stored
    rw [data.cint_count short, file.aux.save_payload _ _ short, taken]
    have length : (Extent.write 0 contents at_.toNat data.val).length = contents.length := by
      rcases eq_or_ne data.val [] with none | some
      · rw [none, Extent.write_nil]
      · rw [Extent.length_write some]
        exact max_eq_left (within.resolve_left some)
    refine ⟨data.val.length, false, { file with aux := f' }, rfl, .inr rfl, ?_⟩
    refine ⟨holds.length.trans length.symm, backs, ?_⟩
    rw [datasize]
    refine holds.blocks.imp_left fun none => ?_
    rw [if_neg Bool.false_ne_true, ← List.length_eq_zero_iff, length, none]
    rfl

/-- The way out of a change that is refused. -/
theorem fileTruncate_restores (holds : file.Holds blksize contents) (grant : Grant) :
    ∃ n f, fileTruncate blksize file.aux file.length grant = .ok (n, f) ∧
      { file with aux := f }.Holds blksize contents := by
  have small := holds.backs.small
  have sized : Sized blksize file.aux.data file.length grant := by
    refine holds.blocks.imp (fun none => ?_) fun ⟨given, blocks⟩ => ⟨given, .inr ?_⟩
    · exact UInt64.toNat_inj.mp (by rw [holds.length, none]; rfl)
    · exact Nat.mod_eq_of_lt (by omega)
  rcases fileTruncate_sized holds.backs sized with ⟨-, refused⟩ | ⟨f, granted, backs, size, -⟩
  · exact ⟨-1, file.aux, refused, holds⟩
  · rw [holds.length, List.take_length] at backs
    refine ⟨0, f, granted, holds.length, backs, holds.blocks.imp_right fun ⟨given, _⟩ => ?_⟩
    exact ⟨given, size.ge⟩

theorem Npfile.Holds.set (holds : file.Holds blksize contents) (stat : Npstat) :
    (file.set stat).Holds blksize contents := ⟨holds.length, holds.backs, holds.blocks⟩

theorem rfsWstat_fits (holds : file.Holds blksize contents) {stat : Npstat}
    {grant : Grant} (restored : Grant) (unnamed : stat.name.len = 0)
    (fits : stat.length ≠ ~~~0 → Sized blksize file.aux.data stat.length grant) :
    ∃ n file', rfsWstat blksize file stat grant restored = .ok (n, file') ∧
      file'.Holds blksize (if n ≠ 0 ∧ stat.length ≠ ~~~0 then
        Extent.resize 0 contents stat.length.toNat else contents) := by
  rw [rfsWstat, if_neg (not_not.mpr unnamed)]
  by_cases changes : stat.length ≠ ~~~0
  · rw [if_pos changes]
    rcases fileTruncate_sized holds.backs (fits changes) with
      ⟨-, refused⟩ | ⟨f, granted, backs, size, reason⟩
    · rw [refused]
      have some : file.length ≠ ~~~0 := by
        intro all
        have := holds.length_lt
        rw [all] at this
        exact absurd this (by decide)
      obtain ⟨n, f, restores, back⟩ := fileTruncate_restores holds restored
      refine ⟨0, { file with aux := f }, ?_, by simpa using back⟩
      simp only [bind, Except.bind, pure, Except.pure, if_neg some, restores]
      rfl
    · have reach : stat.length.toNat ≤ f.datasize.toNat := by
        rw [size]
        rcases reason with none | ⟨given, -⟩
        · simp [none]
        · exact le_whole given
      have whole' : ¬ stat.length > f.datasize := by
        rw [gt_iff_lt, UInt64.lt_iff_toNat_lt]
        omega
      obtain ⟨f', filled, held, datasize⟩ : ∃ f',
          (if file.length < stat.length then
            f.zero file.length.toNat (stat.length - file.length).toNat else pure f) = .ok f' ∧
          f'.Backs (Extent.resize 0 contents stat.length.toNat) ∧ f'.datasize = f.datasize := by
        have length := holds.length
        by_cases extends_ : file.length < stat.length
        · have longer := UInt64.lt_iff_toNat_lt.mp extends_
          rw [List.take_of_length_le (by omega)] at backs
          exact backs.fill holds.length reach
        · have shorter := mt UInt64.lt_iff_toNat_lt.mpr extends_
          refine ⟨f, if_neg extends_, ?_, rfl⟩
          rwa [Extent.resize_of_le (by omega)]
      refine ⟨1, { file with length := stat.length, aux := f' }.set stat, ?_, ?_⟩
      · rw [granted]
        simp only [bind, Except.bind, pure, Except.pure, if_neg whole', ne_eq, not_true_eq_false,
          if_false]
        split_ifs at filled ⊢
        · rw [filled]
        · rw [Except.ok.inj filled]
      · rw [if_pos ⟨one_ne_zero, changes⟩]
        refine Npfile.Holds.set ⟨Extent.length_resize.symm, held, ?_⟩ stat
        rw [datasize, size]
        refine reason.imp (fun none => ?_) fun ⟨given, _⟩ => ⟨given, le_rfl⟩
        rw [none]
        exact List.eq_nil_of_length_eq_zero Extent.length_resize
  · refine ⟨1, file.set stat, ?_, ?_⟩
    · rw [if_neg changes]
      rfl
    · rw [if_neg fun both => changes both.2]
      exact holds.set stat

end Functions

/-! ## Every run -/

namespace FileRun

variable {blksize : UInt64} {r r' : FileRun} {call : FileCall}

/-- What holds in every run whose calls fit. -/
structure Sound (blksize : UInt64) (r : FileRun) : Prop where
  tame : ∀ fault, r.fault = some fault → fault = .blocked
  holds : r.file.Holds blksize r.contents
  right : ∀ exchange ∈ r.log, exchange.Right

theorem Sound.faithful (sound : r.Sound blksize) : r.Faithful where
  tame := sound.tame
  length := sound.holds.length
  datasize := by
    rw [UInt64.le_iff_toNat_le, sound.holds.length]
    exact sound.holds.backs.length_le
  right := sound.right

theorem sound_start (mode mtime : UInt32) : (start mode mtime).Sound blksize where
  tame := nofun
  holds := ⟨rfl, ⟨⟨rfl, rfl⟩, Nat.two_pow_pos 31⟩, .inl rfl⟩
  right := nofun

theorem Sound.log (sound : r.Sound blksize) {exchange : FileExchange} (right : exchange.Right) :
    ∀ other ∈ r.log ++ [exchange], other.Right := by
  intro other member
  rcases List.mem_append.mp member with member | member
  · exact sound.right other member
  · exact List.mem_singleton.mp member ▸ right

theorem Sound.next (sound : r.Sound blksize) (fits : r.Fits blksize call)
    (taken : next blksize r call = some r') : r'.Sound blksize := by
  unfold FileRun.next at taken
  split_ifs at taken with faulty
  have fine : r.fault = none := Option.not_isSome_iff_eq_none.mp faulty
  cases call with
  | write omode offset data grant =>
    obtain ⟨n, refused, file, returned, answer, holds⟩ := rfsWrite_fits sound.holds fits
    simp only [returned, Option.some.injEq] at taken
    rw [← taken]
    exact ⟨sound.tame, holds, sound.log answer⟩
  | read offset count =>
    simp only [rfsRead_fits sound.holds fits, Option.some.injEq] at taken
    rw [← taken]
    exact ⟨sound.tame, sound.holds, sound.log rfl⟩
  | wstat stat grant restored =>
    by_cases unnamed : stat.name.len = 0
    · obtain ⟨n, file, returned, holds⟩ :=
        rfsWstat_fits sound.holds restored unnamed (fits unnamed)
      simp only [returned, Option.some.injEq] at taken
      rw [← taken]
      exact ⟨sound.tame, holds, sound.right⟩
    · simp only [rfsWstat, if_pos unnamed, Option.some.injEq] at taken
      rw [← taken]
      exact ⟨fun _ blocked => (Option.some.inj blocked).symm, sound.holds, sound.right⟩

/-- In every run whose calls fit the file agrees with its reference. -/
theorem faithful_of_run (blksize : UInt64) (mode mtime : UInt32)
    (run : Transition.Reaches (next blksize) (Fits blksize) (start mode mtime) r) : r.Faithful :=
  (run.invariant (Sound blksize) (sound_start mode mtime)
    fun sound fits taken => sound.next fits taken).faithful

/-- Three bytes are written, and read from the second on. -/
theorem faithful_of_run_write :
    (⟨⟨3, 0, 0, ⟨.block [1, 2, 3, 0], 4⟩⟩, [1, 2, 3],
      [.wrote ⟨[1, 2, 3], by decide⟩ 3 false, .read [1, 2, 3] 1 5 [2, 3]], none⟩ :
        FileRun).Faithful := by
  let write : FileCall := .write 0 0 ⟨[1, 2, 3], by decide⟩ (some fun _ => 0)
  have fits : (start 0 0).Fits 4 write := ⟨by decide, .inr ⟨by decide, by decide⟩⟩
  have run := @Transition.Reaches.step _ _ (next 4) (Fits 4) _ _ _ write .start fits rfl
  exact faithful_of_run 4 0 0
    (@Transition.Reaches.step _ _ _ _ _ _ _ (.read 1 5) run (.inl (by decide)) rfl)

/-- A byte is read at `2 ^ 32 - 1` of an empty file: what is left of the file is computed as 1. -/
theorem not_faithful_all : ¬ ∀ r, Transition.Reaches (next 8192) (fun _ _ => True) (start 0 0) r →
    r.Faithful := by
  intro all
  have run : Transition.Reaches (next 8192) (fun _ _ => True) (start 0 0)
      { start 0 0 with fault := some .wild } :=
    @Transition.Reaches.step _ _ _ _ _ _ _ (.read 0xffffffff 1) .start trivial rfl
  cases (all _ run).tame .wild rfl

end FileRun

end Npfs
