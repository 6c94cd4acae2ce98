import Npfs.Deserialize

/-!
# Message layouts

The layout of every message, as the field comments of the constructors in `libnpfs/np.c` give it,
and where the bytes of a packet stop relative to its layout.  `Follows` relates a parser to a
layout; what a parser that follows a layout does on a packet is decided by `Layout.scan` alone.
-/

namespace Npfs

open LittleEndian

/-- The widths of the integers on the wire. -/
inductive Width where
  | u8
  | u16
  | u32
  | u64
  deriving DecidableEq

/-- The number of bytes of an integer. -/
def Width.size : Width → Nat
  | .u8 => 1
  | .u16 => 2
  | .u32 => 4
  | .u64 => 8

/-- The operation that reads an integer. -/
def Width.op : Width → GetOp
  | .u8 => .int8
  | .u16 => .int16
  | .u32 => .int32
  | .u64 => .int64

/-- The integer that was read. -/
def Width.toNat : (width : Width) → width.op.Reply → Nat
  | .u8, value => UInt8.toNat value
  | .u16, value => UInt16.toNat value
  | .u32, value => UInt32.toNat value
  | .u64, value => UInt64.toNat value

/-- The integer of a given width stored at offset `i`. -/
def wordAt (data : List UInt8) (i : Nat) : Width → Nat
  | .u8 => (data.getD i 0).toNat
  | .u16 => (word16 fun k => data.getD (i + k) 0).toNat
  | .u32 => (word32 fun k => data.getD (i + k) 0).toNat
  | .u64 => (word64 fun k => data.getD (i + k) 0).toNat

/-- Where the bytes of a packet stop, seen from its layout. -/
inductive Stop where
  /-- Every field is there; the last one ends at `pos`. -/
  | complete (pos : Nat)
  /-- The bytes end where a field would begin. -/
  | boundary
  /-- The bytes end right behind the length of a string or of data that is not empty. -/
  | dangling
  /-- A data count has its top bit set. -/
  | wild
  /-- The bytes end inside a field. -/
  | torn
  /-- The layout does not allow the message. -/
  | refused
  deriving DecidableEq

/-- The fields of a message, in order.  A later field may depend on the value of an integer. -/
inductive Layout where
  /-- No field is left. -/
  | done
  /-- An integer, and the fields behind it. -/
  | word (width : Width) (next : Nat → Layout)
  /-- A string: `len[2]` and `len` bytes. -/
  | str (next : Layout)
  /-- The data at the end of a message: `count[4]` and `count` bytes. -/
  | blob
  /-- The message is not allowed to go on like this. -/
  | reject

namespace Layout

/-- An integer whose value does not matter for the fields behind it. -/
def int (width : Width) (next : Layout) : Layout := .word width fun _ => next

/-- `type[1] version[4] path[8]`. -/
def qid (next : Layout) : Layout := int .u8 (int .u32 (int .u64 next))

/-- The stat record behind its own size. -/
def stat (dotu : Bool) (next : Layout) : Layout :=
  int .u16 (int .u16 (int .u32 (qid (int .u32 (int .u32 (int .u32 (int .u64
    (str (str (str (str
      (if dotu then str (int .u32 (int .u32 (int .u32 next))) else next))))))))))))

/-- `n` strings. -/
def strs : Nat → Layout
  | 0 => done
  | n + 1 => str (strs n)

/-- `n` qids. -/
def qids : Nat → Layout
  | 0 => done
  | n + 1 => qid (qids n)

/-- The fields behind `size[4] type[1] tag[2]`. -/
def ofType (dotu : Bool) : MsgType → Layout
  | .tversion | .rversion => int .u32 (str done)
  | .tauth => int .u32 (str (str (if dotu then int .u32 done else done)))
  | .rauth | .rattach | .rsymlink | .rmknod | .rmkdir => qid done
  | .tflush => int .u16 done
  | .tattach => int .u32 (int .u32 (str (str (if dotu then int .u32 done else done))))
  | .rerror => str (if dotu then int .u32 done else done)
  | .twalk =>
    int .u32 (int .u32 (word .u16 fun nwname => if nwname > MAXWELEM then reject else strs nwname))
  | .rwalk => word .u16 fun nwqid => if nwqid > MAXWELEM then reject else qids nwqid
  | .topen => int .u32 (int .u8 done)
  | .ropen | .rcreate | .rlopen | .rlcreate => qid (int .u32 done)
  | .tcreate => int .u32 (str (int .u32 (int .u8 (if dotu then str done else done))))
  | .tread | .treaddir => int .u32 (int .u64 (int .u32 done))
  | .rread | .rreaddir => blob
  | .twrite => int .u32 (int .u64 blob)
  | .rwrite | .tclunk | .tremove | .tstat | .tstatfs | .treadlink | .tfsync | .rlerror =>
    int .u32 done
  | .rflush | .rclunk | .rremove | .rwstat | .rrename | .rsetattr | .rxattrcreate | .rfsync
  | .rlink | .rrenameat | .runlinkat => done
  | .rstat => int .u16 (stat dotu done)
  | .twstat => int .u32 (int .u16 (stat dotu done))
  | .rstatfs =>
    int .u32 (int .u32 (int .u64 (int .u64 (int .u64 (int .u64 (int .u64 (int .u64
      (int .u32 done))))))))
  | .tlopen => int .u32 (int .u32 done)
  | .tlcreate => int .u32 (str (int .u32 (int .u32 (int .u32 done))))
  | .tsymlink => int .u32 (str (str (int .u32 done)))
  | .tmknod => int .u32 (str (int .u32 (int .u32 (int .u32 (int .u32 done)))))
  | .trename | .txattrwalk | .tlink => int .u32 (int .u32 (str done))
  | .rreadlink => str done
  | .tgetattr => int .u32 (int .u64 done)
  | .rgetattr =>
    int .u64 (qid (int .u32 (int .u32 (int .u32 (int .u64 (int .u64 (int .u64 (int .u64 (int .u64
      (int .u64 (int .u64 (int .u64 (int .u64 (int .u64 (int .u64 (int .u64 (int .u64 (int .u64
        (int .u64 done)))))))))))))))))))
  | .tsetattr =>
    int .u32 (int .u32 (int .u32 (int .u32 (int .u32 (int .u64 (int .u64 (int .u64 (int .u64
      (int .u64 done)))))))))
  | .rxattrwalk => int .u64 done
  | .txattrcreate => int .u32 (str (int .u64 (int .u32 done)))
  | .tlock => int .u32 (int .u8 (int .u32 (int .u64 (int .u64 (int .u32 (str done))))))
  | .rlock => int .u8 done
  | .tgetlock | .rgetlock => int .u32 (int .u8 (int .u64 (int .u64 (int .u32 (str done)))))
  | .tmkdir => int .u32 (str (int .u32 (int .u32 done)))
  | .trenameat => int .u32 (str (int .u32 (str done)))
  | .tunlinkat => int .u32 (str (int .u32 done))
  | .tlerror | .terror => reject

/-- The fields behind `size[4]`. -/
def fcall (dotu : Bool) : Layout :=
  word .u8 fun type =>
    match MsgType.ofCode? (UInt8.ofNat type) with
    | none | some .tlerror | some .terror => reject
    | some type => int .u16 (ofType dotu type)

/-- Lay the fields over `data` from offset `i` on, where `size` bytes count. -/
def scan (data : List UInt8) (size : Nat) : Layout → Nat → Stop
  | done, i => .complete i
  | reject, _ => .refused
  | word width next, i =>
    if i = size then .boundary
    else if size < i + width.size then .torn
    else (next (wordAt data i width)).scan data size (i + width.size)
  | str next, i =>
    if i = size then .boundary
    else if size < i + 2 then .torn
    else if i + 2 + wordAt data i .u16 ≤ size then
      next.scan data size (i + 2 + wordAt data i .u16)
    else if i + 2 = size then .dangling
    else .torn
  | blob, i =>
    if i = size then .boundary
    else if size < i + 4 then .torn
    else if 2 ^ 31 ≤ wordAt data i .u32 then .wild
    else if i + 4 + wordAt data i .u32 ≤ size then .complete (i + 4 + wordAt data i .u32)
    else if i + 4 = size then .dangling
    else .torn

/-- Where the bytes of the packet `data` stop.  A packet without a type byte, or one whose size
does not fit the signed length of the window behind the size field, is refused outright. -/
def packetStop (data : List UInt8) (dotu : Bool) : Stop :=
  let size := (announcedSize data).toNat
  if size < 5 ∨ 2 ^ 31 + 4 ≤ size then .refused else (fcall dotu).scan data size 4

/-- Read as all zeros, the fields do not lead to `reject`. -/
def ZeroAccepts : Layout → Prop
  | done => True
  | reject => False
  | word _ next => (next 0).ZeroAccepts
  | str next => next.ZeroAccepts
  | blob => True

/-- Wherever the bytes may run out, the fields that are missing could all be zero. -/
def Lenient : Layout → Prop
  | done => True
  | reject => True
  | word _ next => (next 0).ZeroAccepts ∧ ∀ value, (next value).Lenient
  | str next => next.ZeroAccepts ∧ next.Lenient
  | blob => True

end Layout

/-- Whatever it reads, the parser ends in `goto error`. -/
def Rejects {α : Type} : Get (Option α) → Prop
  | .done result => result = none
  | .step _ next => ∀ reply, Rejects (next reply)

/-- The parser reads the fields of the layout, in order and nothing else. -/
def Follows {α : Type} : Layout → Get (Option α) → Prop
  | .done, parser => ∃ result, parser = .done (some result)
  | .reject, parser => Rejects parser
  | .word width next, parser =>
    ∃ rest : width.op.Reply → Get (Option α),
      parser = .step width.op rest ∧ ∀ value, Follows (next (width.toNat value)) (rest value)
  | .str next, parser =>
    ∃ rest : UInt16 → Option Int → Get (Option α),
      parser = .step .int16 (fun len => .step (.alloc len.toNat) (rest len)) ∧
        ∀ len str, Follows next (rest len str)
  | .blob, parser =>
    ∃ rest : UInt32 → Option Int → Get (Option α),
      parser = .step .int32 (fun count => .step (.alloc (cint count)) (rest count)) ∧
        ∀ count data, ∃ result, rest count data = .done (some result)

/-! ## Every parser follows its layout -/

open Layout

variable {α : Type}

theorem follows_done (result : α) : Follows .done (pure (some result) : Get (Option α)) := ⟨_, rfl⟩

theorem follows_reject : Follows .reject (pure none : Get (Option α)) := rfl

theorem follows_int8 {next : Layout} {rest : UInt8 → Get (Option α)}
    (follows : ∀ value, Follows next (rest value)) :
    Follows (.int .u8 next) (getInt8 >>= rest) := ⟨rest, rfl, follows⟩

theorem follows_word16 {next : Nat → Layout} {rest : UInt16 → Get (Option α)}
    (follows : ∀ value, Follows (next value.toNat) (rest value)) :
    Follows (.word .u16 next) (getInt16 >>= rest) := ⟨rest, rfl, follows⟩

theorem follows_int16 {next : Layout} {rest : UInt16 → Get (Option α)}
    (follows : ∀ value, Follows next (rest value)) :
    Follows (.int .u16 next) (getInt16 >>= rest) := ⟨rest, rfl, follows⟩

theorem follows_int32 {next : Layout} {rest : UInt32 → Get (Option α)}
    (follows : ∀ value, Follows next (rest value)) :
    Follows (.int .u32 next) (getInt32 >>= rest) := ⟨rest, rfl, follows⟩

theorem follows_int64 {next : Layout} {rest : UInt64 → Get (Option α)}
    (follows : ∀ value, Follows next (rest value)) :
    Follows (.int .u64 next) (getInt64 >>= rest) := ⟨rest, rfl, follows⟩

theorem follows_str {next : Layout} {rest : Npstr → Get (Option α)}
    (follows : ∀ value, Follows next (rest value)) :
    Follows (.str next) (bufGetStr >>= rest) :=
  ⟨fun len str => rest ⟨len, str⟩, rfl, fun len str => follows ⟨len, str⟩⟩

theorem follows_blob {make : UInt32 → Option Int → α} :
    Follows .blob (do
      let count ← getInt32
      let data ← getAlloc (cint count)
      return some (make count data)) :=
  ⟨fun count data => .done (some (make count data)), rfl, fun _ _ => ⟨_, rfl⟩⟩

theorem follows_qid {next : Layout} {rest : Npqid → Get (Option α)}
    (follows : ∀ value, Follows next (rest value)) :
    Follows (.qid next) (bufGetQid >>= rest) :=
  follows_int8 fun _ => follows_int32 fun _ => follows_int64 fun _ => follows _

theorem follows_stat {next : Layout} {rest : Npstat → Get (Option α)} (stat : Npstat) (dotu : Bool)
    (follows : ∀ value, Follows next (rest value)) :
    Follows (.stat dotu next) (bufGetStat stat dotu >>= rest) := by
  simp only [bufGetStat, bind_assoc]
  refine follows_int16 fun _ => follows_int16 fun _ => follows_int32 fun _ => follows_qid fun _ =>
    follows_int32 fun _ => follows_int32 fun _ => follows_int32 fun _ => follows_int64 fun _ =>
    follows_str fun _ => follows_str fun _ => follows_str fun _ => follows_str fun _ => ?_
  cases dotu
  · exact follows _
  · simp only [if_true, bind_assoc]
    exact follows_str fun _ => follows_int32 fun _ => follows_int32 fun _ => follows_int32 fun _ =>
      follows _

theorem follows_statfs {rest : Npstatfs → Get (Option α)}
    (follows : ∀ value, Follows .done (rest value)) :
    Follows (ofType true .rstatfs) (bufGetStatfs >>= rest) :=
  follows_int32 fun _ => follows_int32 fun _ => follows_int64 fun _ => follows_int64 fun _ =>
    follows_int64 fun _ => follows_int64 fun _ => follows_int64 fun _ => follows_int64 fun _ =>
      follows_int32 fun _ => follows _

theorem follows_strs (n i : Nat) (wnames : Vector Npstr MAXWELEM) {rest : Vector Npstr MAXWELEM →
    Get (Option α)}
    (follows : ∀ value, Follows .done (rest value)) :
    Follows (strs n) (getWnames n i wnames >>= rest) := by
  induction n generalizing i wnames with
  | zero => exact follows _
  | succ n ih => exact follows_str fun _ => ih _ _
theorem follows_qids (n i : Nat) (wnames : Vector Npqid MAXWELEM) {rest : Vector Npqid MAXWELEM →
    Get (Option α)}
    (follows : ∀ value, Follows .done (rest value)) :
    Follows (qids n) (getWqids n i wnames >>= rest) := by
  induction n generalizing i wnames with
  | zero => exact follows _
  | succ n ih => exact follows_qid fun _ => ih _ _

theorem follows_getBody (dotu : Bool) (fc : Npfcall) (type : MsgType) :
    Follows (ofType dotu type) (getBody dotu fc type) := by
  cases type
  case tversion | rversion => exact follows_int32 fun _ => follows_str fun _ => follows_done _
  case tauth =>
    refine follows_int32 fun _ => follows_str fun _ => follows_str fun _ => ?_
    cases dotu
    · exact follows_done _
    · exact follows_int32 fun _ => follows_done _
  case tattach =>
    refine follows_int32 fun _ => follows_int32 fun _ => follows_str fun _ =>
      follows_str fun _ => ?_
    cases dotu
    · exact follows_done _
    · exact follows_int32 fun _ => follows_done _
  case rerror =>
    refine follows_str fun _ => ?_
    cases dotu
    · exact follows_done _
    · exact follows_int32 fun _ => follows_done _
  case tcreate =>
    refine follows_int32 fun _ => follows_str fun _ => follows_int32 fun _ =>
      follows_int8 fun _ => ?_
    cases dotu
    · exact follows_done _
    · exact follows_str fun _ => follows_done _
  case rauth | rattach | rsymlink | rmknod | rmkdir => exact follows_qid fun _ => follows_done _
  case tflush => exact follows_int16 fun _ => follows_done _
  case twalk =>
    refine follows_int32 fun _ => follows_int32 fun _ => follows_word16 fun nwname => ?_
    split
    · exact follows_reject
    · exact follows_strs _ _ _ fun _ => follows_done _
  case rwalk =>
    refine follows_word16 fun nwqid => ?_
    split
    · exact follows_reject
    · exact follows_qids _ _ _ fun _ => follows_done _
  case topen => exact follows_int32 fun _ => follows_int8 fun _ => follows_done _
  case ropen | rcreate | rlopen | rlcreate =>
    exact follows_qid fun _ => follows_int32 fun _ => follows_done _
  case tread | treaddir =>
    exact follows_int32 fun _ => follows_int64 fun _ => follows_int32 fun _ => follows_done _
  case rread | rreaddir => exact follows_blob
  case twrite => exact follows_int32 fun _ => follows_int64 fun _ => follows_blob
  case rwrite | tclunk | tremove | tstat | tstatfs | treadlink | tfsync | rlerror =>
    exact follows_int32 fun _ => follows_done _
  case rflush | rclunk | rremove | rwstat | rrename | rsetattr | rxattrcreate | rfsync | rlink |
      rrenameat | runlinkat =>
    exact follows_done _
  case rstat => exact follows_int16 fun _ => follows_stat _ _ fun _ => follows_done _
  case twstat =>
    exact follows_int32 fun _ => follows_int16 fun _ => follows_stat _ _ fun _ => follows_done _
  case rstatfs => exact follows_statfs fun _ => follows_done _
  case tlopen => exact follows_int32 fun _ => follows_int32 fun _ => follows_done _
  case tlcreate =>
    exact follows_int32 fun _ => follows_str fun _ => follows_int32 fun _ => follows_int32 fun _ =>
      follows_int32 fun _ => follows_done _
  case tsymlink =>
    exact follows_int32 fun _ => follows_str fun _ => follows_str fun _ => follows_int32 fun _ =>
      follows_done _
  case tmknod =>
    exact follows_int32 fun _ => follows_str fun _ => follows_int32 fun _ => follows_int32 fun _ =>
      follows_int32 fun _ => follows_int32 fun _ => follows_done _
  case trename | txattrwalk | tlink =>
    exact follows_int32 fun _ => follows_int32 fun _ => follows_str fun _ => follows_done _
  case rreadlink => exact follows_str fun _ => follows_done _
  case tgetattr => exact follows_int32 fun _ => follows_int64 fun _ => follows_done _
  case rgetattr =>
    exact follows_int64 fun _ => follows_qid fun _ => follows_int32 fun _ => follows_int32 fun _ =>
      follows_int32 fun _ => follows_int64 fun _ => follows_int64 fun _ => follows_int64 fun _ =>
      follows_int64 fun _ => follows_int64 fun _ => follows_int64 fun _ => follows_int64 fun _ =>
      follows_int64 fun _ => follows_int64 fun _ => follows_int64 fun _ => follows_int64 fun _ =>
      follows_int64 fun _ => follows_int64 fun _ => follows_int64 fun _ => follows_int64 fun _ =>
      follows_done _
  case tsetattr =>
    exact follows_int32 fun _ => follows_int32 fun _ => follows_int32 fun _ =>
      follows_int32 fun _ =>
      follows_int32 fun _ => follows_int64 fun _ => follows_int64 fun _ => follows_int64 fun _ =>
      follows_int64 fun _ => follows_int64 fun _ => follows_done _
  case rxattrwalk => exact follows_int64 fun _ => follows_done _
  case txattrcreate =>
    exact follows_int32 fun _ => follows_str fun _ => follows_int64 fun _ => follows_int32 fun _ =>
      follows_done _
  case tlock =>
    exact follows_int32 fun _ => follows_int8 fun _ => follows_int32 fun _ => follows_int64 fun _ =>
      follows_int64 fun _ => follows_int32 fun _ => follows_str fun _ => follows_done _
  case rlock => exact follows_int8 fun _ => follows_done _
  case tgetlock | rgetlock =>
    exact follows_int32 fun _ => follows_int8 fun _ => follows_int64 fun _ => follows_int64 fun _ =>
      follows_int32 fun _ => follows_str fun _ => follows_done _
  case tmkdir =>
    exact follows_int32 fun _ => follows_str fun _ => follows_int32 fun _ => follows_int32 fun _ =>
      follows_done _
  case trenameat =>
    exact follows_int32 fun _ => follows_str fun _ => follows_int32 fun _ => follows_str fun _ =>
      follows_done _
  case tunlinkat =>
    exact follows_int32 fun _ => follows_str fun _ => follows_int32 fun _ => follows_done _
  case tlerror | terror => exact follows_reject

end Npfs
