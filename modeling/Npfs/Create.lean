import Npfs.Deserialize

/-!
# Building a packet

The `buf_put_*` functions of `libnpfs/np.c` and the frame that every constructor shares:
`np_create_common`, the fields, and `np_post_check`. A constructor is given by its message type, its
size formula and the list of the calls that store its fields.
-/

namespace Npfs

open LittleEndian

/-- Replace the bytes of `mem` from `pos` on. -/
def store (mem : List UInt8) (pos : Nat) (bytes : List UInt8) : List UInt8 :=
  mem.take pos ++ bytes ++ mem.drop (pos + bytes.length)

theorem length_store {mem bytes : List UInt8} {pos : Nat} (room : pos + bytes.length ≤ mem.length) :
    (store mem pos bytes).length = mem.length := by
  simp only [store, List.length_append, List.length_take, List.length_drop]
  omega

/-- A part of the new bytes. -/
theorem take_store_part {mem bytes : List UInt8} {pos k : Nat} (inside : pos ≤ mem.length)
    (part : k ≤ bytes.length) : (store mem pos bytes).take (pos + k) =
      mem.take pos ++ bytes.take k := by
  have front : (mem.take pos).length = pos := List.length_take_of_le inside
  rw [store, List.append_assoc, List.take_append, List.take_of_length_le (by omega), front,
    Nat.add_sub_cancel_left, List.take_append_of_le_length part]

theorem take_store {mem bytes : List UInt8} {pos : Nat} (inside : pos ≤ mem.length) :
    (store mem pos bytes).take (pos + bytes.length) = mem.take pos ++ bytes := by
  rw [take_store_part inside le_rfl, List.take_length]

theorem le_length_store {mem bytes : List UInt8} {pos : Nat} (inside : pos ≤ mem.length) :
    pos ≤ (store mem pos bytes).length := by
  simp only [store, List.length_append, List.length_take]
  omega

theorem drop_store {mem bytes : List UInt8} {pos k : Nat} (behind : pos + bytes.length ≤ k)
    (inside : pos ≤ mem.length) : (store mem pos bytes).drop k = mem.drop k := by
  have front : (mem.take pos ++ bytes).length = pos + bytes.length := by
    simp only [List.length_append, List.length_take]
    omega
  rw [store, List.drop_append, List.drop_eq_nil_of_le (by omega), List.nil_append, List.drop_drop,
    front]
  exact congrArg (mem.drop ·) (by omega)

namespace Cbuf

/-- Store bytes at the cursor and move it behind them. -/
def put (buf : Cbuf) (bytes : List UInt8) : Cbuf :=
  { buf with mem := store buf.mem buf.p.toNat bytes, p := buf.p + bytes.length }

/-- `memmove` into the packet; `none` when it would write outside of it. -/
def memmove (buf : Cbuf) (dst : Option Int) (src : List UInt8) : Option Cbuf :=
  if src = [] then
    some buf
  else
    match dst with
    | none => none
    | some dst =>
      if 0 ≤ dst ∧ dst + src.length ≤ buf.mem.length then
        some { buf with mem := store buf.mem dst.toNat src }
      else
        none

end Cbuf

/-- The packet under construction and the record that goes with it. -/
abbrev Packing := Cbuf × Npfcall

/-- An integer is stored, and `*pval` set, where there is room for it. -/
def bufPut {β : Type} (bytes : List UInt8) (val : β) (pval : Npfcall → β → Npfcall)
    (packing : Packing) : Packing :=
  match packing.1.bufCheckSize bytes.length with
  | (true, buf) => (buf.put bytes, pval packing.2 val)
  | (false, buf) => (buf, packing.2)

/-- `buf_put_int8`. -/
def bufPutInt8 (val : UInt8) (pval : Npfcall → UInt8 → Npfcall) : Packing → Packing :=
  bufPut [val] val pval

/-- `buf_put_int16`. -/
def bufPutInt16 (val : UInt16) (pval : Npfcall → UInt16 → Npfcall) : Packing → Packing :=
  bufPut (bytes16 val) val pval

/-- `buf_put_int32`. -/
def bufPutInt32 (val : UInt32) (pval : Npfcall → UInt32 → Npfcall) : Packing → Packing :=
  bufPut (bytes32 val) val pval

/-- `buf_put_int64`. -/
def bufPutInt64 (val : UInt64) (pval : Npfcall → UInt64 → Npfcall) : Packing → Packing :=
  bufPut (bytes64 val) val pval

/-- The argument `NULL` for `pval` and `ps`. -/
def null {β : Type} (fc : Npfcall) (_ : β) : Npfcall := fc

/-- `buf_put_str`. -/
def bufPutStr (s : Option CStr) (ps : Npfcall → Npstr → Npfcall) (packing : Packing) :
    Option Packing := do
  let bytes := CStr.bytes? s
  match packing.1.bufCheckSize (2 + bytes.length) with
  | (true, buf) =>
    let (buf, fc) := bufPutInt16 (UInt16.ofNat bytes.length) null (buf, packing.2)
    let (str, buf) := buf.bufAlloc bytes.length
    let buf ← buf.memmove str bytes
    return (buf, ps fc ⟨UInt16.ofNat bytes.length, str⟩)
  | (false, buf) => return (buf, packing.2)

/-- `fc->data = buf_alloc(bufp, count)`. -/
def bufAllocData (count : UInt32) (packing : Packing) : Packing :=
  let (data, buf) := packing.1.bufAlloc (cint count)
  (buf, { packing.2 with data })

/-- `memmove` to `fc->data`. -/
def moveData (src : List UInt8) (packing : Packing) : Option Packing := do
  let buf ← packing.1.memmove packing.2.data src
  return (buf, packing.2)

/-- One statement of a constructor. -/
inductive PutOp where
  | int8 (val : UInt8) (pval : Npfcall → UInt8 → Npfcall)
  | int16 (val : UInt16) (pval : Npfcall → UInt16 → Npfcall)
  | int32 (val : UInt32) (pval : Npfcall → UInt32 → Npfcall)
  | int64 (val : UInt64) (pval : Npfcall → UInt64 → Npfcall)
  | str (s : Option CStr) (ps : Npfcall → Npstr → Npfcall)
  /-- Room for `count` bytes of data. -/
  | alloc (count : UInt32)
  /-- Room for `count` bytes of data, which are then copied from `src`; with `guarded` only if
  there was room. -/
  | data (count : UInt32) (src : List UInt8) (guarded : Bool)
  /-- An assignment to the record alone. -/
  | assign (change : Npfcall → Npfcall)

namespace PutOp

/-- Carry out a statement; `none` when it writes outside the packet. -/
def exec : PutOp → Packing → Option Packing
  | .int8 val pval, packing => bufPutInt8 val pval packing
  | .int16 val pval, packing => bufPutInt16 val pval packing
  | .int32 val pval, packing => bufPutInt32 val pval packing
  | .int64 val pval, packing => bufPutInt64 val pval packing
  | .str s ps, packing => bufPutStr s ps packing
  | .alloc count, packing => bufAllocData count packing
  | .data count src guarded, packing =>
    let packing := bufAllocData count packing
    if guarded ∧ packing.2.data = none then some packing
    else moveData (src.take count.toNat) packing
  | .assign change, (buf, fc) => some (buf, change fc)

/-- Carry out statements one after another. -/
def execAll : List PutOp → Packing → Option Packing
  | [], packing => some packing
  | op :: ops, packing => op.exec packing >>= execAll ops

end PutOp

/-- The memory that `malloc` hands out: a record and a packet with whatever they held before. -/
structure Malloc where
  fc : Npfcall
  byte : Nat → UInt8

/-- `size[4] id[1] tag[2]`. -/
def bufPutHeader (size : UInt32) (id : MsgType) (packing : Packing) : Packing :=
  bufPutInt16 NOTAG (fun fc tag => { fc with tag })
    (bufPutInt8 id.code (fun fc type => { fc with type })
      (bufPutInt32 size (fun fc size => { fc with size }) packing))

/-- The packet that `malloc` hands out. -/
def blankPacket (heap : Malloc) (size : UInt32) : Cbuf :=
  Cbuf.bufInit ((List.range size.toNat).map heap.byte) 0 (cint size)

/-- `np_create_common`. -/
def npCreateCommon (heap : Malloc) (size : UInt32) (id : MsgType) : Packing :=
  let size := size + (4 + 1 + 2)
  bufPutHeader size id (blankPacket heap size, heap.fc)

/-- `np_post_check`. -/
def npPostCheck (packing : Packing) : Option Npfcall :=
  if packing.1.bufCheckOverflow then none else some { packing.2 with pkt := packing.1.mem }

/-- The frame of a constructor.  `none` stands for the result `NULL` and for a constructor that
writes outside the packet. -/
def npCreate (id : MsgType) (size : UInt32) (fields : List PutOp) (heap : Malloc) :
    Option Npfcall :=
  PutOp.execAll fields (npCreateCommon heap size id) >>= npPostCheck

/-- `np_set_tag`. -/
def npSetTag (fc : Npfcall) (tag : UInt16) : Npfcall :=
  { fc with tag, pkt := (fc.pkt.set 5 tag.toUInt8).set 6 (tag >>> 8).toUInt8 }

/-! ## Compound fields -/

/-- `buf_put_qid`. -/
def bufPutQid (qid : Npqid) (pqid : (Npqid → Npqid) → Npfcall → Npfcall) : List PutOp :=
  [.int8 qid.type fun fc type => pqid (fun q => { q with type }) fc,
    .int32 qid.version fun fc version => pqid (fun q => { q with version }) fc,
    .int64 qid.path fun fc path => pqid (fun q => { q with path }) fc]

/-- `&fc->qid`. -/
def fcQid (change : Npqid → Npqid) (fc : Npfcall) : Npfcall := { fc with qid := change fc.qid }

/-- `&fc->wqids[i]`. -/
def fcWqid (i : Nat) (change : Npqid → Npqid) (fc : Npfcall) : Npfcall :=
  match fc.wqids[i]? with
  | none => fc
  | some qid => { fc with wqids := fc.wqids.setIfInBounds i (change qid) }

/-- An assignment to `fc->stat`. -/
def fcStat {β : Type} (set : Npstat → β → Npstat) (fc : Npfcall) (val : β) : Npfcall :=
  { fc with stat := set fc.stat val }

/-- `buf_put_wstat`, storing to `fc->stat`. -/
def bufPutWstat (wstat : Npwstat) (statsz : UInt16) (dotu : Bool) : List PutOp :=
  [PutOp.int16 statsz (fcStat fun stat size => { stat with size }),
    .int16 wstat.type (fcStat fun stat type => { stat with type }),
    .int32 wstat.dev (fcStat fun stat dev => { stat with dev })] ++
  bufPutQid wstat.qid (fun change fc =>
    { fc with stat := { fc.stat with qid := change fc.stat.qid } }) ++
  [PutOp.int32 wstat.mode (fcStat fun stat mode => { stat with mode }),
    .int32 wstat.atime (fcStat fun stat atime => { stat with atime }),
    .int32 wstat.mtime (fcStat fun stat mtime => { stat with mtime }),
    .int64 wstat.length (fcStat fun stat length => { stat with length }),
    .str wstat.name (fcStat fun stat name => { stat with name }),
    .str wstat.uid (fcStat fun stat uid => { stat with uid }),
    .str wstat.gid (fcStat fun stat gid => { stat with gid }),
    .str wstat.muid (fcStat fun stat muid => { stat with muid })] ++
  if dotu then
    [PutOp.str wstat.extension (fcStat fun stat extension => { stat with extension }),
      .int32 wstat.nUid (fcStat fun stat nUid => { stat with nUid }),
      .int32 wstat.nGid (fcStat fun stat nGid => { stat with nGid }),
      .int32 wstat.nMuid (fcStat fun stat nMuid => { stat with nMuid })]
  else
    [PutOp.assign fun fc => { fc with stat := { fc.stat with extension := npStrzero } }]

/-- `buf_put_statfs`, storing to `fc->stfs`. -/
def bufPutStatfs (stfs : Npstatfs) : List PutOp :=
  [.int32 stfs.type fun fc type => { fc with stfs := { fc.stfs with type } },
    .int32 stfs.bsize fun fc bsize => { fc with stfs := { fc.stfs with bsize } },
    .int64 stfs.blocks fun fc blocks => { fc with stfs := { fc.stfs with blocks } },
    .int64 stfs.bfree fun fc bfree => { fc with stfs := { fc.stfs with bfree } },
    .int64 stfs.bavail fun fc bavail => { fc with stfs := { fc.stfs with bavail } },
    .int64 stfs.files fun fc files => { fc with stfs := { fc.stfs with files } },
    .int64 stfs.ffree fun fc ffree => { fc with stfs := { fc.stfs with ffree } },
    .int64 stfs.fsid fun fc fsid => { fc with stfs := { fc.stfs with fsid } },
    .int32 stfs.namelen fun fc namelen => { fc with stfs := { fc.stfs with namelen } }]

/-- `strlen` of an argument that may be `NULL`, which counts as empty. -/
def strlen? (s : Option CStr) : Nat := (CStr.bytes? s).length

@[simp] theorem strlen?_some (s : CStr) : strlen? (some s) = s.strlen := rfl

/-- `size_wstat`. -/
def sizeWstat (wstat : Npwstat) (dotu : Bool) : Nat :=
  2 + 4 + 13 + 4 + 4 + 4 + 8 + 8 +
    strlen? wstat.name + strlen? wstat.uid + strlen? wstat.gid + strlen? wstat.muid +
    if dotu then 4 + 4 + 4 + 2 + strlen? wstat.extension else 0

/-- `size_statfs`. -/
def sizeStatfs : Nat := 4 + 8 + 8 + 8 + 8 + 8 + 8 + 8 + 4

end Npfs
