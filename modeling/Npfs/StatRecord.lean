import Npfs.PacketSize

/-!
# Stat records outside of packets

`np_serialize_stat` and `np_deserialize_stat`, by which the contents of a directory are read: what
the one writes into the buffer that it is given, and what the other makes of a buffer.
-/

namespace Npfs

open LittleEndian Program

/-! ## Writing -/

/-- `np_serialize_stat`: the number of bytes that it returns, and what it leaves in the buffer. -/
def npSerializeStat (wstat : Npwstat) (buf : List UInt8) (dotu : Bool) : Nat × List UInt8 :=
  let statsz := sizeWstat wstat dotu
  if statsz > buf.length then
    (0, buf)
  else
    match PutOp.execAll (bufPutWstat wstat (.ofNat statsz) dotu)
        (Cbuf.bufInit buf 0 buf.length, default) with
    | none => (0, buf)
    | some (bufp, _) => (if bufp.bufCheckOverflow then 0 else (bufp.p - bufp.sp).toNat, bufp.mem)

/-- Records are serialised one behind the other into what is left of a buffer. -/
def serializeStats (dotu : Bool) : List Npwstat → List UInt8 → Option (List UInt8)
  | [], _ => some []
  | wstat :: wstats, buf =>
    let (size, mem) := npSerializeStat wstat buf dotu
    if size = 0 then none else (mem.take size ++ ·) <$> serializeStats dotu wstats (buf.drop size)

/-! ## Reading -/

/-- `np_deserialize_stat` on the bytes from `i` on: the record and its size. -/
def npDeserializeStat (stat : Npstat) (buf : List UInt8) (i : Nat) (dotu : Bool) :
    Option (Npstat × Nat) :=
  let (stat, bufp) := (bufGetStat stat dotu).run GetOp.exec (Cbuf.bufInit buf i (buf.length - i))
  if bufp.bufCheckOverflow then none else some (stat, (bufp.p - bufp.sp).toNat)

/-- The parser finds all the bytes that it asks for, and `post` holds of its result and of the
cursor behind them. -/
def Finds {α : Type} (post : α → Cbuf → Prop) : Get α → Cbuf → Prop
  | .done result, buf => post result buf
  | .step op next, buf =>
    buf.p + op.width ≤ buf.ep ∧ Finds post (next (op.value buf)) (buf.advance op.width)

section Finds

variable {α β : Type} {post : α → Cbuf → Prop} {parser : Get α} {buf : Cbuf}

theorem Finds.run (finds : Finds post parser buf) :
    post (parser.run GetOp.exec buf).1 (parser.run GetOp.exec buf).2 := by
  induction parser generalizing buf with
  | done result => exact finds
  | step op next ih =>
    obtain ⟨fits, rest⟩ := finds
    rw [run_step, GetOp.exec_of_fits fits]
    exact ih _ rest

/-- The parser asks for no negative number of bytes. -/
def Forward : Get α → Prop
  | .done _ => True
  | .step op next => 0 ≤ op.width ∧ ∀ reply, Forward (next reply)

/-- The second cursor stands in the window of the first, and not in front of it. -/
structure Cbuf.Leads (buf next : Cbuf) : Prop where
  start : next.sp = buf.sp
  window : next.ep = buf.ep
  forward : buf.p ≤ next.p

theorem Cbuf.Leads.trans {first second third : Cbuf} (front : first.Leads second)
    (back : second.Leads third) : first.Leads third :=
  ⟨back.start.trans front.start, back.window.trans front.window, front.forward.trans back.forward⟩

theorem leads_advance {n : Int} (positive : 0 ≤ n) : buf.Leads (buf.advance n) :=
  ⟨rfl, rfl, Int.le_add_of_nonneg_right positive⟩

/-- A failed read leaves the cursor at the end of the window or behind it. -/
theorem leads_spoil (buf : Cbuf) : buf.Leads buf.spoil ∧ buf.spoil.ep ≤ buf.spoil.p := by
  unfold Cbuf.spoil
  split_ifs with before
  · have last : buf.ep ≤ buf.ep + 1 := (Int.lt_add_one_iff.mpr le_rfl).le
    exact ⟨⟨rfl, rfl, before.le.trans last⟩, last⟩
  · exact ⟨⟨rfl, rfl, le_rfl⟩, not_lt.mp before⟩

theorem Forward.leads (forward : Forward parser) : buf.Leads (parser.run GetOp.exec buf).2 := by
  induction parser generalizing buf with
  | done result => exact ⟨rfl, rfl, le_rfl⟩
  | step op next ih =>
    obtain ⟨positive, forward⟩ := forward
    rw [run_step]
    by_cases fits : buf.p + op.width ≤ buf.ep
    · rw [GetOp.exec_of_fits fits]
      exact (leads_advance positive).trans (ih _ (forward _))
    · rw [GetOp.exec_of_missing (not_le.mp fits)]
      exact (leads_spoil buf).1.trans (ih _ (forward _))

/-- A parser whose first read is not empty does not stay in front of the end. -/
theorem Forward.moves (op : GetOp) {next : op.Reply → Get α} (forward : Forward (.step op next))
    (some : 0 < op.width) (before : buf.p < buf.ep) :
    buf.p < ((Program.step op next).run GetOp.exec buf).2.p := by
  obtain ⟨-, forward⟩ := forward
  rw [run_step]
  by_cases fits : buf.p + op.width ≤ buf.ep
  · rw [GetOp.exec_of_fits fits]
    exact (Int.lt_add_of_pos_right _ some).trans_le (forward _).leads.forward
  · rw [GetOp.exec_of_missing (not_le.mp fits)]
    obtain ⟨leads, behind⟩ := leads_spoil buf
    rw [leads.window] at behind
    exact (before.trans_le behind).trans_le (forward _).leads.forward

/-- A parser that stops in front of the end has found all the bytes that it asked for. -/
theorem Forward.finds (forward : Forward parser)
    (before : (parser.run GetOp.exec buf).2.p < buf.ep) : Finds (fun _ _ => True) parser buf := by
  induction parser generalizing buf with
  | done result => trivial
  | step op next ih =>
    obtain ⟨positive, forward⟩ := forward
    rw [run_step] at before
    by_cases fits : buf.p + op.width ≤ buf.ep
    · rw [GetOp.exec_of_fits fits] at before
      exact ⟨fits, ih _ (forward _) before⟩
    · rw [GetOp.exec_of_missing (not_le.mp fits)] at before
      obtain ⟨leads, behind⟩ := leads_spoil buf
      have further : buf.spoil.p ≤ (run GetOp.exec (next op.blank) buf.spoil).2.p :=
        (forward op.blank).leads.forward
      rw [leads.window] at behind
      exact absurd before (not_lt.mpr (behind.trans further))

end Finds

/-! ## The bytes of a record -/

/-- The cursor in front of the bytes `tail` that end the buffer. -/
def Cbuf.before (mem : List UInt8) (sp : Int) (tail : List UInt8) : Cbuf :=
  ⟨mem, sp, mem.length - tail.length, mem.length⟩

section Bytes

variable {α : Type} {post : α → Cbuf → Prop} {mem tail : List UInt8} {sp : Int}

theorem suffix_behind {piece rest : List UInt8} (suffix : piece ++ rest <:+ mem) : rest <:+ mem :=
  (List.suffix_append _ _).trans suffix

/-- A parser's first operation finds its bytes if they are there. -/
theorem finds_step (op : GetOp) {next : op.Reply → Get α} (suffix : tail <:+ mem)
    (positive : 0 ≤ op.width) : Finds post (.step op next) (.before mem sp tail) ↔
      ∃ piece rest, tail = piece ++ rest ∧ op.width = piece.length ∧
        Finds post (next (op.value (.before mem sp tail))) (.before mem sp rest) := by
  have most := suffix.length_le
  have moved (piece rest : List UInt8) (split : tail = piece ++ rest)
      (width : op.width = piece.length) :
      (Cbuf.before mem sp tail).advance op.width = .before mem sp rest := by
    subst split
    simp only [Cbuf.before, Cbuf.advance, width, List.length_append, Cbuf.mk.injEq, true_and,
      and_true]
    omega
  constructor
  · rintro ⟨fits, finds⟩
    simp only [Cbuf.before] at fits
    have width : op.width = (tail.take op.width.toNat).length := by
      rw [List.length_take]
      omega
    have split := (List.take_append_drop op.width.toNat tail).symm
    refine ⟨_, _, split, width, ?_⟩
    rwa [moved _ _ split width] at finds
  · rintro ⟨piece, rest, split, width, finds⟩
    refine ⟨?_, ?_⟩
    · simp only [Cbuf.before, split, width, List.length_append]
      omega
    · rwa [moved _ _ split width]

theorem byte_before (suffix : tail <:+ mem) (k : Nat) :
    (Cbuf.before mem sp tail).byte k = tail.getD k 0 := by
  obtain ⟨front, rfl⟩ := suffix
  have place : (Cbuf.before (front ++ tail) sp tail).p.toNat = front.length := by
    simp [Cbuf.before]
  simp only [Cbuf.byte, place]
  simp [Cbuf.before, List.getD_eq_getElem?_getD, List.getElem?_append_right]

/-- An integer is found where its bytes are there. -/
theorem finds_word (op : GetOp) {next : op.Reply → Get α} {bytes : op.Reply → List UInt8}
    (suffix : tail <:+ mem) (injective : Function.Injective bytes)
    (width : ∀ v, op.width = (bytes v).length)
    (stored : ∀ piece rest, tail = piece ++ rest → op.width = piece.length →
      bytes (op.value (.before mem sp tail)) = piece) :
    Finds post (.step op next) (.before mem sp tail) ↔
      ∃ v rest, tail = bytes v ++ rest ∧ Finds post (next v) (.before mem sp rest) := by
  have positive : 0 ≤ op.width := by
    rw [width (op.value (.before mem sp tail))]
    exact Int.natCast_nonneg _
  refine (finds_step op suffix positive).trans ?_
  constructor
  · rintro ⟨piece, rest, split, whole, finds⟩
    exact ⟨_, rest, by rw [stored piece rest split whole, split], finds⟩
  · rintro ⟨v, rest, split, finds⟩
    have same := injective (stored (bytes v) rest split (width v))
    exact ⟨bytes v, rest, split, width v, same.symm ▸ finds⟩

theorem finds_int8 {next : UInt8 → Get α} (suffix : tail <:+ mem) :
    Finds post (getInt8 >>= next) (.before mem sp tail) ↔
      ∃ v rest, tail = [v] ++ rest ∧ Finds post (next v) (.before mem sp rest) := by
  refine finds_word .int8 suffix List.singleton_injective (fun _ => rfl) ?_
  intro piece rest split width
  obtain ⟨a, rfl⟩ := List.length_eq_one_iff.mp (Int.ofNat_inj.mp width.symm)
  exact congrArg (fun v => [v]) ((byte_before suffix 0).trans (by rw [split]; rfl))

theorem finds_int16 {next : UInt16 → Get α} (suffix : tail <:+ mem) :
    Finds post (getInt16 >>= next) (.before mem sp tail) ↔
      ∃ v rest, tail = bytes16 v ++ rest ∧ Finds post (next v) (.before mem sp rest) := by
  refine finds_word .int16 suffix bytes16_injective (fun _ => rfl) ?_
  intro piece rest split width
  obtain ⟨a, b, rfl⟩ := List.length_eq_two.mp (Int.ofNat_inj.mp width.symm)
  refine (bytes16_word16 _).trans ?_
  simp only [byte_before suffix]
  rw [split]
  rfl

theorem finds_int32 {next : UInt32 → Get α} (suffix : tail <:+ mem) :
    Finds post (getInt32 >>= next) (.before mem sp tail) ↔
      ∃ v rest, tail = bytes32 v ++ rest ∧ Finds post (next v) (.before mem sp rest) := by
  refine finds_word .int32 suffix bytes32_injective (fun _ => rfl) ?_
  intro piece rest split width
  refine (bytes32_word32 _).trans ?_
  simp only [byte_before suffix]
  rw [split]
  match piece, (Int.ofNat_inj.mp width : 4 = piece.length) with
  | [_, _, _, _], _ => rfl

theorem finds_int64 {next : UInt64 → Get α} (suffix : tail <:+ mem) :
    Finds post (getInt64 >>= next) (.before mem sp tail) ↔
      ∃ v rest, tail = bytes64 v ++ rest ∧ Finds post (next v) (.before mem sp rest) := by
  refine finds_word .int64 suffix bytes64_injective (fun _ => rfl) ?_
  intro piece rest split width
  refine (bytes64_word64 _).trans ?_
  simp only [byte_before suffix]
  rw [split]
  match piece, (Int.ofNat_inj.mp width : 8 = piece.length) with
  | [_, _, _, _, _, _, _, _], _ => rfl

theorem finds_alloc {len : Nat} {next : Option Int → Get α} (suffix : tail <:+ mem) :
    Finds post (getAlloc len >>= next) (.before mem sp tail) ↔
      ∃ text rest, tail = text ++ rest ∧ text.length = len ∧
        Finds post (next (some (mem.length - tail.length : Int))) (.before mem sp rest) := by
  refine (finds_step (.alloc len) suffix (Int.natCast_nonneg len)).trans ?_
  constructor
  · rintro ⟨text, rest, split, width, finds⟩
    exact ⟨text, rest, split, (Int.ofNat_inj.mp width).symm, finds⟩
  · rintro ⟨text, rest, split, length, finds⟩
    exact ⟨text, rest, split, (congrArg Int.ofNat length).symm, finds⟩

theorem dataAt_before {text rest : List UInt8} (suffix : text ++ rest <:+ mem) :
    DataAt mem (some (mem.length - (text ++ rest).length : Int)) text := by
  obtain ⟨front, rfl⟩ := suffix
  refine ⟨front.length, ?_, ?_, ?_⟩
  · simp
  · simp only [List.length_append]
    omega
  · simp

/-- A string is found where its count and its bytes are there. -/
theorem finds_str {next : Npstr → Get α} {text rest : List UInt8}
    (suffix : wireStr text ++ rest <:+ mem) (short : text.length < 2 ^ 16)
    (onward : ∀ s, StrAt mem s text → Finds post (next s) (.before mem sp rest)) :
    Finds post (bufGetStr >>= next) (.before mem sp (wireStr text ++ rest)) := by
  have length : (UInt16.ofNat text.length).toNat = text.length := UInt16.toNat_ofNat_of_lt' short
  rw [wireStr, List.append_assoc] at suffix ⊢
  have behind : text ++ rest <:+ mem := suffix_behind suffix
  refine (finds_int16 suffix).mpr ⟨_, _, rfl, ?_⟩
  refine (finds_alloc behind).mpr ⟨text, rest, rfl, length.symm, ?_⟩
  exact onward _ ⟨length, dataAt_before behind⟩

theorem exists_str {next : Npstr → Get α} (suffix : tail <:+ mem)
    (finds : Finds post (bufGetStr >>= next) (.before mem sp tail)) :
    ∃ text rest s, tail = wireStr text ++ rest ∧ text.length < 2 ^ 16 ∧ StrAt mem s text ∧
      Finds post (next s) (.before mem sp rest) := by
  obtain ⟨len, behind, rfl, counted⟩ := (finds_int16 suffix).mp finds
  have suffix' : behind <:+ mem := suffix_behind suffix
  obtain ⟨text, rest, rfl, length, onward⟩ := (finds_alloc suffix').mp counted
  refine ⟨text, rest, _, ?_, ?_, ⟨length.symm, dataAt_before suffix'⟩, onward⟩
  · rw [wireStr, length, UInt16.ofNat_toNat, List.append_assoc]
  · rw [length]
    exact len.toNat_lt

theorem exists_qid {next : Npqid → Get α} (suffix : tail <:+ mem)
    (finds : Finds post (bufGetQid >>= next) (.before mem sp tail)) :
    ∃ qid rest, tail = wireQid qid ++ rest ∧ Finds post (next qid) (.before mem sp rest) := by
  obtain ⟨type, tail, rfl, typed⟩ := (finds_int8 suffix).mp finds
  replace suffix := suffix_behind suffix
  obtain ⟨version, tail, rfl, versioned⟩ := (finds_int32 suffix).mp typed
  replace suffix := suffix_behind suffix
  obtain ⟨path, tail, rfl, onward⟩ := (finds_int64 suffix).mp versioned
  exact ⟨⟨type, version, path⟩, tail, by simp [wireQid], onward⟩

theorem finds_qid {next : Npqid → Get α} {qid : Npqid} {rest : List UInt8}
    (suffix : wireQid qid ++ rest <:+ mem) (onward : Finds post (next qid) (.before mem sp rest)) :
    Finds post (bufGetQid >>= next) (.before mem sp (wireQid qid ++ rest)) := by
  have split : wireQid qid ++ rest =
      [qid.type] ++ (bytes32 qid.version ++ (bytes64 qid.path ++ rest)) := by simp [wireQid]
  rw [split] at suffix ⊢
  refine (finds_int8 suffix).mpr ⟨_, _, rfl, ?_⟩
  replace suffix := suffix_behind suffix
  refine (finds_int32 suffix).mpr ⟨_, _, rfl, ?_⟩
  replace suffix := suffix_behind suffix
  exact (finds_int64 suffix).mpr ⟨_, _, rfl, onward⟩

end Bytes

/-- A stat record with its strings. -/
structure RawStat where
  size : UInt16
  type : UInt16
  dev : UInt32
  qid : Npqid
  mode : UInt32
  atime : UInt32
  mtime : UInt32
  length : UInt64
  name : List UInt8
  uid : List UInt8
  gid : List UInt8
  muid : List UInt8
  extension : List UInt8
  nUid : UInt32
  nGid : UInt32
  nMuid : UInt32

namespace RawStat

/-- The fields in front of the strings. -/
def front (raw : RawStat) (rest : List UInt8) : List UInt8 :=
  bytes16 raw.size ++ (bytes16 raw.type ++ (bytes32 raw.dev ++ (wireQid raw.qid ++
    (bytes32 raw.mode ++ (bytes32 raw.atime ++ (bytes32 raw.mtime ++ (bytes64 raw.length ++
      (wireStr raw.name ++ (wireStr raw.uid ++ (wireStr raw.gid ++ rest))))))))))

/-- The fields that only 9P2000.u has. -/
def extra (raw : RawStat) (dotu : Bool) (rest : List UInt8) : List UInt8 :=
  if dotu then
    wireStr raw.extension ++ (bytes32 raw.nUid ++ (bytes32 raw.nGid ++ (bytes32 raw.nMuid ++ rest)))
  else
    rest

/-- The record in front of `rest`. -/
def wire (raw : RawStat) (dotu : Bool) (rest : List UInt8) : List UInt8 :=
  raw.front (wireStr raw.muid ++ raw.extra dotu rest)

theorem front_append (raw : RawStat) (rest : List UInt8) :
    raw.front rest = raw.front [] ++ rest := by
  simp [front, List.append_assoc]

theorem wire_append (raw : RawStat) (dotu : Bool) (rest : List UInt8) :
    raw.wire dotu rest = raw.wire dotu [] ++ rest := by
  rw [wire, wire, front_append, raw.front_append (_ ++ _)]
  cases dotu <;> simp [extra, List.append_assoc]

/-- The counts of the strings are right. -/
structure Short (raw : RawStat) (dotu : Bool) : Prop where
  name : raw.name.length < 2 ^ 16
  uid : raw.uid.length < 2 ^ 16
  gid : raw.gid.length < 2 ^ 16
  muid : raw.muid.length < 2 ^ 16
  extension : dotu = true → raw.extension.length < 2 ^ 16

/-- A record that was read from `mem`. -/
structure At (mem : List UInt8) (dotu : Bool) (raw : RawStat) (stat : Npstat) : Prop where
  size : stat.size = raw.size
  type : stat.type = raw.type
  dev : stat.dev = raw.dev
  qid : stat.qid = raw.qid
  mode : stat.mode = raw.mode
  atime : stat.atime = raw.atime
  mtime : stat.mtime = raw.mtime
  length : stat.length = raw.length
  name : StrAt mem stat.name raw.name
  uid : StrAt mem stat.uid raw.uid
  gid : StrAt mem stat.gid raw.gid
  muid : StrAt mem stat.muid raw.muid
  plain : dotu = false → stat.extension = npStrzero
  extension : dotu = true → StrAt mem stat.extension raw.extension
  nUid : dotu = true → stat.nUid = raw.nUid
  nGid : dotu = true → stat.nGid = raw.nGid
  nMuid : dotu = true → stat.nMuid = raw.nMuid

end RawStat

/-- `buf_get_stat` up to the last string of 9P2000, and `next`. -/
def getFront {α : Type} (stat : Npstat) (next : Npstat → Get α) : Get α := do
  let size ← getInt16
  let type ← getInt16
  let dev ← getInt32
  let qid ← bufGetQid
  let mode ← getInt32
  let atime ← getInt32
  let mtime ← getInt32
  let length ← getInt64
  let name ← bufGetStr
  let uid ← bufGetStr
  let gid ← bufGetStr
  next { stat with size, type, dev, qid, mode, atime, mtime, length, name, uid, gid }

/-- `buf_get_stat` from there on. -/
def getBack (dotu : Bool) (stat : Npstat) : Get Npstat := do
  let muid ← bufGetStr
  let stat := { stat with muid }
  if dotu then
    let extension ← bufGetStr
    let nUid ← getInt32
    let nGid ← getInt32
    let nMuid ← getInt32
    return { stat with extension, nUid, nGid, nMuid }
  else
    return { stat with extension := npStrzero }

theorem bufGetStat_eq (stat : Npstat) (dotu : Bool) :
    bufGetStat stat dotu = getFront stat (getBack dotu) := rfl

theorem getFront_bind {α : Type} (stat : Npstat) (next : Npstat → Get α) :
    getFront stat next = getFront stat .done >>= next := rfl

section Stat

variable {post : Npstat → Cbuf → Prop} {mem tail rest : List UInt8} {sp : Int} {dotu : Bool}
  {raw : RawStat} {stat : Npstat}

/-- The fields in front of the last string of 9P2000. -/
structure RawStat.FrontAt (mem : List UInt8) (raw : RawStat) (stat : Npstat) : Prop where
  size : stat.size = raw.size
  type : stat.type = raw.type
  dev : stat.dev = raw.dev
  qid : stat.qid = raw.qid
  mode : stat.mode = raw.mode
  atime : stat.atime = raw.atime
  mtime : stat.mtime = raw.mtime
  length : stat.length = raw.length
  name : StrAt mem stat.name raw.name
  uid : StrAt mem stat.uid raw.uid
  gid : StrAt mem stat.gid raw.gid

theorem finds_front {α : Type} {post : α → Cbuf → Prop} {next : Npstat → Get α}
    (suffix : raw.front rest <:+ mem)
    (short : raw.Short dotu)
    (onward : ∀ stat, raw.FrontAt mem stat → Finds post (next stat) (.before mem sp rest)) :
    Finds post (getFront stat next) (.before mem sp (raw.front rest)) := by
  obtain ⟨name, uid, gid, -, -⟩ := short
  rw [RawStat.front] at suffix ⊢
  refine (finds_int16 suffix).mpr ⟨_, _, rfl, ?_⟩
  replace suffix := suffix_behind suffix
  refine (finds_int16 suffix).mpr ⟨_, _, rfl, ?_⟩
  replace suffix := suffix_behind suffix
  refine (finds_int32 suffix).mpr ⟨_, _, rfl, ?_⟩
  replace suffix := suffix_behind suffix
  refine finds_qid suffix ?_
  replace suffix := suffix_behind suffix
  refine (finds_int32 suffix).mpr ⟨_, _, rfl, ?_⟩
  replace suffix := suffix_behind suffix
  refine (finds_int32 suffix).mpr ⟨_, _, rfl, ?_⟩
  replace suffix := suffix_behind suffix
  refine (finds_int32 suffix).mpr ⟨_, _, rfl, ?_⟩
  replace suffix := suffix_behind suffix
  refine (finds_int64 suffix).mpr ⟨_, _, rfl, ?_⟩
  replace suffix := suffix_behind suffix
  refine finds_str suffix name fun name nameAt => ?_
  replace suffix := suffix_behind suffix
  refine finds_str suffix uid fun uid uidAt => ?_
  replace suffix := suffix_behind suffix
  refine finds_str suffix gid fun gid gidAt => ?_
  exact onward _ ⟨rfl, rfl, rfl, rfl, rfl, rfl, rfl, rfl, nameAt, uidAt, gidAt⟩

theorem finds_back (suffix : wireStr raw.muid ++ raw.extra dotu rest <:+ mem)
    (short : raw.Short dotu) (front : raw.FrontAt mem stat)
    (onward : ∀ stat, raw.At mem dotu stat → post stat (.before mem sp rest)) :
    Finds post (getBack dotu stat) (.before mem sp (wireStr raw.muid ++ raw.extra dotu rest)) := by
  obtain ⟨-, -, -, muid, extension⟩ := short
  obtain ⟨size, type, dev, qid, mode, atime, mtime, length, name, uid, gid⟩ := front
  refine finds_str suffix muid fun muid muidAt => ?_
  replace suffix := suffix_behind suffix
  cases dotu with
  | false =>
    exact onward _ ⟨size, type, dev, qid, mode, atime, mtime, length, name, uid, gid, muidAt,
      fun _ => rfl, nofun, nofun, nofun, nofun⟩
  | true =>
    simp only [RawStat.extra, if_true] at suffix ⊢
    refine finds_str suffix (extension rfl) fun extension extensionAt => ?_
    replace suffix := suffix_behind suffix
    refine (finds_int32 suffix).mpr ⟨_, _, rfl, ?_⟩
    replace suffix := suffix_behind suffix
    refine (finds_int32 suffix).mpr ⟨_, _, rfl, ?_⟩
    replace suffix := suffix_behind suffix
    refine (finds_int32 suffix).mpr ⟨_, _, rfl, ?_⟩
    exact onward _ ⟨size, type, dev, qid, mode, atime, mtime, length, name, uid, gid, muidAt,
      nofun, fun _ => extensionAt, fun _ => rfl, fun _ => rfl, fun _ => rfl⟩

/-- A record is found where its bytes are there. -/
theorem finds_stat (suffix : raw.wire dotu rest <:+ mem) (short : raw.Short dotu)
    (onward : ∀ stat, raw.At mem dotu stat → post stat (.before mem sp rest)) :
    Finds post (bufGetStat stat dotu) (.before mem sp (raw.wire dotu rest)) := by
  rw [RawStat.wire] at suffix ⊢
  rw [bufGetStat_eq]
  have behind : wireStr raw.muid ++ raw.extra dotu rest <:+ mem := by
    rw [RawStat.front_append] at suffix
    exact suffix_behind suffix
  exact finds_front suffix short fun stat front => finds_back behind short front onward

/-- A parser that finds all its bytes finds those of a record. -/
theorem exists_stat {old : Npstat} (suffix : tail <:+ mem)
    (finds : Finds post (bufGetStat old dotu) (.before mem sp tail)) :
    ∃ (raw : RawStat) (rest : List UInt8) (stat : Npstat), tail = raw.wire dotu rest ∧
      raw.Short dotu ∧ raw.At mem dotu stat ∧ post stat (.before mem sp rest) := by
  obtain ⟨size, tail, rfl, fsize⟩ := (finds_int16 suffix).mp finds
  replace suffix := suffix_behind suffix
  obtain ⟨type, tail, rfl, ftype⟩ := (finds_int16 suffix).mp fsize
  replace suffix := suffix_behind suffix
  obtain ⟨dev, tail, rfl, fdev⟩ := (finds_int32 suffix).mp ftype
  replace suffix := suffix_behind suffix
  obtain ⟨qid, tail, rfl, fqid⟩ := exists_qid suffix fdev
  replace suffix := suffix_behind suffix
  obtain ⟨mode, tail, rfl, fmode⟩ := (finds_int32 suffix).mp fqid
  replace suffix := suffix_behind suffix
  obtain ⟨atime, tail, rfl, fatime⟩ := (finds_int32 suffix).mp fmode
  replace suffix := suffix_behind suffix
  obtain ⟨mtime, tail, rfl, fmtime⟩ := (finds_int32 suffix).mp fatime
  replace suffix := suffix_behind suffix
  obtain ⟨length, tail, rfl, flength⟩ := (finds_int64 suffix).mp fmtime
  replace suffix := suffix_behind suffix
  obtain ⟨name, tail, sname, rfl, nameShort, nameAt, fname⟩ := exists_str suffix flength
  replace suffix := suffix_behind suffix
  obtain ⟨uid, tail, suid, rfl, uidShort, uidAt, fuid⟩ := exists_str suffix fname
  replace suffix := suffix_behind suffix
  obtain ⟨gid, tail, sgid, rfl, gidShort, gidAt, fgid⟩ := exists_str suffix fuid
  replace suffix := suffix_behind suffix
  obtain ⟨muid, tail, smuid, rfl, muidShort, muidAt, fmuid⟩ := exists_str suffix fgid
  replace suffix := suffix_behind suffix
  cases dotu with
  | false =>
    exact ⟨⟨size, type, dev, qid, mode, atime, mtime, length, name, uid, gid, muid, [], 0, 0, 0⟩,
      tail, _, rfl, ⟨nameShort, uidShort, gidShort, muidShort, nofun⟩,
      ⟨rfl, rfl, rfl, rfl, rfl, rfl, rfl, rfl, nameAt, uidAt, gidAt, muidAt,
        fun _ => rfl, nofun, nofun, nofun, nofun⟩, fmuid⟩
  | true =>
    obtain ⟨extension, tail, sextension, rfl, extensionShort, extensionAt, fextension⟩ :=
      exists_str suffix fmuid
    replace suffix := suffix_behind suffix
    obtain ⟨nUid, tail, rfl, fnUid⟩ := (finds_int32 suffix).mp fextension
    replace suffix := suffix_behind suffix
    obtain ⟨nGid, tail, rfl, fnGid⟩ := (finds_int32 suffix).mp fnUid
    replace suffix := suffix_behind suffix
    obtain ⟨nMuid, tail, rfl, fnMuid⟩ := (finds_int32 suffix).mp fnGid
    exact ⟨⟨size, type, dev, qid, mode, atime, mtime, length, name, uid, gid, muid, extension,
      nUid, nGid, nMuid⟩, tail, _, rfl,
      ⟨nameShort, uidShort, gidShort, muidShort, fun _ => extensionShort⟩,
      ⟨rfl, rfl, rfl, rfl, rfl, rfl, rfl, rfl, nameAt, uidAt, gidAt, muidAt,
        nofun, fun _ => extensionAt, fun _ => rfl, fun _ => rfl, fun _ => rfl⟩, fnMuid⟩

end Stat

/-! ## What `np_deserialize_stat` accepts -/

section Accept

variable {buf : List UInt8} {i size : Nat} {dotu : Bool} {old stat : Npstat} {raw : RawStat}
  {rest : List UInt8}

theorem bufInit_before (inside : i ≤ buf.length) :
    Cbuf.bufInit buf i (buf.length - i) = .before buf i (buf.drop i) := by
  simp only [Cbuf.bufInit, Cbuf.before, List.length_drop, Cbuf.mk.injEq, true_and]
  omega

theorem forward_bufGetStat (stat : Npstat) (dotu : Bool) : Forward (bufGetStat stat dotu) := by
  cases dotu <;>
    simp [bufGetStat, bufGetQid, bufGetStr, getInt8, getInt16, getInt32, getInt64, getAlloc,
      Program.perform, Forward, GetOp.width]

/-- A record is accepted where its bytes are. -/
theorem npDeserializeStat_raw (inside : i ≤ buf.length) (bytes : buf.drop i = raw.wire dotu rest)
    (short : raw.Short dotu) : ∃ stat,
      npDeserializeStat old buf i dotu = some (stat, (raw.wire dotu []).length) ∧
        raw.At buf dotu stat := by
  have suffix : raw.wire dotu rest <:+ buf := bytes ▸ List.drop_suffix i buf
  have found : Finds (fun stat bufp => raw.At buf dotu stat ∧ bufp = .before buf i rest)
      (bufGetStat old dotu) (.before buf i (raw.wire dotu rest)) :=
    finds_stat suffix short fun stat at' => ⟨at', rfl⟩
  obtain ⟨at', behind⟩ := found.run
  rw [← bytes, ← bufInit_before inside] at at' behind
  have length := congrArg List.length bytes
  rw [RawStat.wire_append, List.length_append, List.length_drop] at length
  refine ⟨_, ?_, at'⟩
  simp only [npDeserializeStat, behind, Cbuf.before, Cbuf.bufCheckOverflow]
  have size : ((buf.length : Int) - rest.length - i).toNat = (raw.wire dotu []).length := by omega
  rw [if_neg (by simp), size]

/-- What is accepted ends inside the buffer, and what does not end the buffer is a record. -/
theorem npDeserializeStat_some (inside : i < buf.length)
    (accepted : npDeserializeStat old buf i dotu = some (stat, size)) :
    0 < size ∧ i + size ≤ buf.length ∧ (i + size < buf.length →
      ∃ (raw : RawStat) (rest : List UInt8), buf.drop i = raw.wire dotu rest ∧ raw.Short dotu) := by
  have forward := forward_bufGetStat old dotu
  obtain ⟨out, run⟩ : ∃ out, (bufGetStat old dotu).run GetOp.exec
      (Cbuf.bufInit buf i (buf.length - i)) = out := ⟨_, rfl⟩
  have leads : (Cbuf.bufInit buf i (buf.length - i)).Leads out.2 := run ▸ forward.leads
  obtain ⟨start, window, further⟩ := leads
  simp only [Cbuf.bufInit] at start window further
  have whole (before : out.2.p < buf.length) :
      ∃ (raw : RawStat) (rest : List UInt8), buf.drop i = raw.wire dotu rest ∧ raw.Short dotu := by
    have early : ((bufGetStat old dotu).run GetOp.exec
        (Cbuf.bufInit buf i (buf.length - i))).2.p < (Cbuf.bufInit buf i (buf.length - i)).ep := by
      rw [run]
      simp only [Cbuf.bufInit]
      omega
    have found := forward.finds early
    rw [bufInit_before inside.le] at found
    obtain ⟨raw, rest, stat, bytes, short, -⟩ := exists_stat (List.drop_suffix i buf) found
    exact ⟨raw, rest, bytes, short⟩
  have cursor : out.2.p = i + size ∧ out.2.p ≤ buf.length := by
    simp only [npDeserializeStat, run, Cbuf.bufCheckOverflow] at accepted
    by_cases overflow : out.2.p > out.2.ep
    · simp [overflow] at accepted
    · simp only [overflow, decide_false, Bool.false_eq_true, if_false, Option.some.injEq,
        Prod.mk.injEq] at accepted
      omega
  have moved : (Cbuf.bufInit buf i (buf.length - i)).p < out.2.p := by
    have before : (Cbuf.bufInit buf i (buf.length - i)).p <
        (Cbuf.bufInit buf i (buf.length - i)).ep := by
      simp only [Cbuf.bufInit]
      omega
    exact run ▸ Forward.moves .int16 forward (by decide) before
  simp only [Cbuf.bufInit] at moved
  exact ⟨by omega, by omega, fun before => whole (by omega)⟩

theorem run_front {α : Type} {mem : List UInt8} {sp : Int} (next : Npstat → Get α)
    (suffix : raw.front rest <:+ mem) (short : raw.Short dotu) : ∃ stat, raw.FrontAt mem stat ∧
      (getFront old next).run GetOp.exec (.before mem sp (raw.front rest)) =
        (next stat).run GetOp.exec (.before mem sp rest) := by
  have found : Finds (fun stat bufp => raw.FrontAt mem stat ∧ bufp = .before mem sp rest)
      (getFront old .done) (.before mem sp (raw.front rest)) :=
    finds_front suffix short fun stat front => ⟨front, rfl⟩
  obtain ⟨front, behind⟩ := found.run
  refine ⟨_, front, ?_⟩
  rw [getFront_bind, run_bind, behind]

/-- A record that lacks the count of its last string is accepted at the end of the buffer. -/
theorem npDeserializeStat_cut (inside : i ≤ buf.length) (bytes : buf.drop i = raw.front [])
    (short : raw.Short false) (empty : raw.muid = []) : ∃ stat,
      npDeserializeStat old buf i false = some (stat, (raw.front []).length) ∧
        raw.At buf false stat := by
  have suffix : raw.front [] <:+ buf := bytes ▸ List.drop_suffix i buf
  have length := congrArg List.length bytes
  rw [List.length_drop] at length
  obtain ⟨stat, front, ran⟩ := @run_front false old raw [] _ buf i (getBack false) suffix short
  obtain ⟨size, type, dev, qid, mode, atime, mtime, long, name, uid, gid⟩ := front
  have atEnd : (Cbuf.before buf i []).p = (Cbuf.before buf i []).ep := by
    simp [Cbuf.before]
  have none : GetOp.exec .int16 (.before buf i []) = ((0 : UInt16), .before buf i []) :=
    exec_at_end atEnd (by decide)
  have empty' : GetOp.exec (.alloc 0) (.before buf i []) =
      (some (buf.length : Int), .before buf i []) := by
    rw [GetOp.exec_of_fits (by simp [GetOp.width, atEnd])]
    simp [GetOp.value, GetOp.width, Cbuf.advance, Cbuf.before]
  have last : (getBack false stat).run GetOp.exec (.before buf i []) =
      ({ stat with muid := ⟨0, some (buf.length : Int)⟩, extension := npStrzero },
        .before buf i []) := by
    change run GetOp.exec (.step .int16 fun len => .step (.alloc len.toNat) fun str =>
      .done { stat with muid := ⟨len, str⟩, extension := npStrzero }) _ = _
    rw [run_step, none]
    change run GetOp.exec (.done { stat with
      muid := ⟨0, (GetOp.exec (.alloc 0) (.before buf i [])).1⟩, extension := npStrzero })
      (GetOp.exec (.alloc 0) (.before buf i [])).2 = _
    rw [empty']
    rfl
  have muid : StrAt buf ⟨0, some (buf.length : Int)⟩ raw.muid := by
    rw [empty]
    exact ⟨rfl, buf.length, rfl, by simp, by simp⟩
  have legacy {P : Prop} (extended : false = true) : P := by cases extended
  refine ⟨{ stat with muid := ⟨0, some (buf.length : Int)⟩, extension := npStrzero }, ?_,
    ⟨size, type, dev, qid, mode, atime, mtime, long, name, uid, gid, muid, fun _ => rfl,
      legacy, legacy, legacy, legacy⟩⟩
  have cursor : ((buf.length : Int) - i).toNat = (raw.front []).length := by omega
  rw [npDeserializeStat, bufInit_before inside, bytes, bufGetStat_eq, ran, last]
  simp [Cbuf.before, Cbuf.bufCheckOverflow, cursor]

/-- In front of other bytes it is not, or they are taken for its last string. -/
theorem npDeserializeStat_behind (inside : i ≤ buf.length) (bytes : buf.drop i = raw.front rest)
    (short : raw.Short false) (more : rest ≠ [])
    (accepted : npDeserializeStat old buf i false = some (stat, size)) :
    (raw.front []).length < size := by
  have suffix : raw.front rest <:+ buf := bytes ▸ List.drop_suffix i buf
  have length := congrArg List.length bytes
  rw [RawStat.front_append, List.length_drop, List.length_append] at length
  obtain ⟨stat, -, run⟩ := @run_front false old raw rest _ buf i (getBack false) suffix short
  have positive := List.length_pos_iff.mpr more
  have forward : Forward (getBack false stat) := by
    simp [getBack, bufGetStr, getInt16, getAlloc, Program.perform, Forward, GetOp.width]
  have before : (Cbuf.before buf i rest).p < (Cbuf.before buf i rest).ep := by
    simp only [Cbuf.before]
    omega
  have moved : (Cbuf.before buf i rest).p <
      ((getBack false stat).run GetOp.exec (.before buf i rest)).2.p :=
    Forward.moves .int16 forward (by decide) before
  have start : ((getBack false stat).run GetOp.exec (.before buf i rest)).2.sp = i :=
    forward.leads.start
  rw [npDeserializeStat, bufInit_before inside, bytes, bufGetStat_eq, run] at accepted
  have cursor : (Cbuf.before buf i rest).p = buf.length - rest.length := rfl
  rw [cursor] at moved
  simp only at accepted
  split_ifs at accepted
  simp only [Option.some.injEq, Prod.mk.injEq] at accepted
  omega

end Accept

/-! ## What `np_serialize_stat` writes -/

/-- The record that is written for `wstat`. -/
def RawStat.ofWstat (wstat : Npwstat) (dotu : Bool) : RawStat where
  size := .ofNat (sizeWstat wstat dotu)
  type := wstat.type
  dev := wstat.dev
  qid := wstat.qid
  mode := wstat.mode
  atime := wstat.atime
  mtime := wstat.mtime
  length := wstat.length
  name := CStr.bytes? wstat.name
  uid := CStr.bytes? wstat.uid
  gid := CStr.bytes? wstat.gid
  muid := CStr.bytes? wstat.muid
  extension := CStr.bytes? wstat.extension
  nUid := wstat.nUid
  nGid := wstat.nGid
  nMuid := wstat.nMuid

theorem sizeWstat_ge (wstat : Npwstat) (dotu : Bool) : 47 ≤ sizeWstat wstat dotu := by
  rw [sizeWstat]
  omega

/-! The start of the window stays where it is. -/

theorem bufCheckSize_of_missing {buf : Cbuf} {len : Int} (missing : buf.ep < buf.p + len) :
    buf.bufCheckSize len = (false, buf.spoil) := if_pos missing

theorem bufCheckSize_sp (buf : Cbuf) (len : Int) : (buf.bufCheckSize len).2.sp = buf.sp := by
  unfold Cbuf.bufCheckSize
  split_ifs <;> rfl

theorem bufPut_sp {β : Type} (bytes : List UInt8) (val : β) (pval : Npfcall → β → Npfcall)
    (packing : Packing) : (bufPut bytes val pval packing).1.sp = packing.1.sp := by
  have check := bufCheckSize_sp packing.1 bytes.length
  unfold bufPut
  split <;> rename_i tested <;> rw [tested] at check <;> exact check

theorem bufAlloc_sp (buf : Cbuf) (len : Int) : (buf.bufAlloc len).2.sp = buf.sp := by
  have check := bufCheckSize_sp buf len
  unfold Cbuf.bufAlloc
  split <;> rename_i tested <;> rw [tested] at check <;> exact check

theorem memmove_sp {buf moved : Cbuf} {dst : Option Int} {src : List UInt8}
    (done : buf.memmove dst src = some moved) : moved.sp = buf.sp := by
  unfold Cbuf.memmove at done
  split_ifs at done
  · rw [← Option.some.inj done]
  · split at done
    · cases done
    · split_ifs at done
      rw [← Option.some.inj done]

theorem exec_sp {op : PutOp} {packing next : Packing} (done : op.exec packing = some next) :
    next.1.sp = packing.1.sp := by
  cases op with
  | int8 | int16 | int32 | int64 =>
    rw [← Option.some.inj done]
    exact bufPut_sp ..
  | str s ps =>
    have check := bufCheckSize_sp packing.1 (2 + (CStr.bytes? s).length)
    simp only [PutOp.exec, bufPutStr] at done
    split at done
    · rename_i buf tested
      obtain ⟨moved, copied, done⟩ := Option.bind_eq_some_iff.mp done
      rw [← Option.some.inj done]
      simp only
      rw [memmove_sp copied, bufAlloc_sp, bufPutInt16, bufPut_sp]
      rwa [tested] at check
    · rename_i buf tested
      rw [← Option.some.inj done]
      rwa [tested] at check
  | alloc count =>
    rw [← Option.some.inj done]
    exact bufAlloc_sp ..
  | data count src guarded =>
    simp only [PutOp.exec] at done
    split_ifs at done
    · rw [← Option.some.inj done]
      exact bufAlloc_sp ..
    · obtain ⟨moved, copied, done⟩ := Option.bind_eq_some_iff.mp done
      rw [← Option.some.inj done]
      exact (memmove_sp copied).trans (bufAlloc_sp ..)
  | assign change =>
    rw [← Option.some.inj done]

theorem execAll_sp {ops : List PutOp} {packing last : Packing}
    (done : PutOp.execAll ops packing = some last) : last.1.sp = packing.1.sp := by
  induction ops generalizing packing with
  | nil => rw [Option.some.inj done]
  | cons op ops ih =>
    obtain ⟨next, first, rest⟩ := Option.bind_eq_some_iff.mp done
    exact (ih rest).trans (exec_sp first)

section Serialize

variable {wstat : Npwstat} {wstats : List Npwstat} {dotu : Bool} {buf : List UInt8}

/-- The statements up to the last string of 9P2000. -/
def putFront (wstat : Npwstat) (statsz : UInt16) : List PutOp :=
  (bufPutWstat wstat statsz false).take 13

theorem packed_putFront : packed (putFront wstat (.ofNat (sizeWstat wstat dotu))) [] =
    (RawStat.ofWstat wstat dotu).front [] := by
  simp [putFront, bufPutWstat, bufPutQid, packed, PutOp.bytes, RawStat.front, RawStat.ofWstat,
    wireStr, wireQid]

theorem packed_wstat : packed (bufPutWstat wstat (.ofNat (sizeWstat wstat dotu)) dotu) [] =
    (RawStat.ofWstat wstat dotu).wire dotu [] := by
  cases dotu <;>
    simp [bufPutWstat, bufPutQid, packed, PutOp.bytes, RawStat.wire, RawStat.front, RawStat.extra,
      RawStat.ofWstat, wireStr, wireQid]

theorem wire_length : ((RawStat.ofWstat wstat dotu).wire dotu []).length =
    2 + sizeWstat wstat dotu := by
  rw [← packed_wstat, packed_bufPutWstat_length]

theorem bufInit_holds (buf : List UInt8) :
    Packing.Holds buf.length [] (Cbuf.bufInit buf 0 buf.length, default) :=
  ⟨rfl, by simp [Cbuf.bufInit], rfl, List.nil_prefix⟩

/-- What the first statements write where they have room. -/
theorem execAll_bufInit {ops : List PutOp} (fits : ∀ op ∈ ops, op.Fits)
    (room : (packed ops []).length ≤ buf.length) :
    ∃ packing, PutOp.execAll ops (Cbuf.bufInit buf 0 buf.length, default) = some packing ∧
      packing.Holds buf.length (packed ops []) := by
  obtain ⟨packing, stored, holds⟩ := execAll_holds (bufInit_holds buf) fits (by simpa using room)
  exact ⟨packing, stored, holds⟩

/-- With enough room the whole record is written, and the rest of the buffer stays. -/
theorem npSerializeStat_stored (fits : sizeWstat wstat dotu < 2 ^ 16)
    (room : 2 + sizeWstat wstat dotu ≤ buf.length) : ∃ mem,
      npSerializeStat wstat buf dotu = (2 + sizeWstat wstat dotu, mem) ∧
        mem.length = buf.length ∧ (RawStat.ofWstat wstat dotu).wire dotu [] <+: mem := by
  have length := @packed_bufPutWstat_length wstat dotu (.ofNat (sizeWstat wstat dotu))
  obtain ⟨⟨bufp, fc⟩, stored, holds⟩ := execAll_bufInit (fits_bufPutWstat fits)
    (length.trans_le room)
  obtain ⟨kept, window, position, placed⟩ := holds
  have start : bufp.sp = 0 := execAll_sp stored
  have inside : ¬ bufp.bufCheckOverflow = true := by
    simp only [Cbuf.bufCheckOverflow, decide_eq_true_eq, not_lt]
    simp only [length] at window position
    omega
  rw [packed_wstat] at placed
  refine ⟨bufp.mem, ?_, kept, placed⟩
  rw [npSerializeStat, if_neg (by omega), stored]
  simp only [inside, if_neg, Bool.false_eq_true, not_false_eq_true, Prod.mk.injEq, and_true]
  simp only [length] at position
  omega

/-- With enough room the whole record is written. -/
theorem npSerializeStat_room (fits : sizeWstat wstat dotu < 2 ^ 16)
    (room : 2 + sizeWstat wstat dotu ≤ buf.length) :
    (npSerializeStat wstat buf dotu).1 = 2 + sizeWstat wstat dotu ∧
      (npSerializeStat wstat buf dotu).2.take (2 + sizeWstat wstat dotu) =
        (RawStat.ofWstat wstat dotu).wire dotu [] := by
  obtain ⟨mem, written, -, placed⟩ := npSerializeStat_stored fits room
  rw [written, ← wire_length]
  exact ⟨rfl, (List.prefix_iff_eq_take.mp placed).symm⟩

/-- A field that overruns the buffer makes the function return 0. -/
theorem npSerializeStat_overrun (inside : sizeWstat wstat dotu ≤ buf.length) {bufp : Cbuf}
    {fc : Npfcall} (stored : PutOp.execAll (bufPutWstat wstat (.ofNat (sizeWstat wstat dotu)) dotu)
      (Cbuf.bufInit buf 0 buf.length, default) = some (bufp, fc)) (behind : bufp.ep < bufp.p) :
    (npSerializeStat wstat buf dotu).1 = 0 := by
  rw [npSerializeStat, if_neg (not_lt.mpr inside), stored]
  exact if_pos (decide_eq_true behind)

/-- There is room for all of a record but the count of its last string, which is empty. -/
def CutsShort (wstat : Npwstat) (dotu : Bool) (buf : List UInt8) : Prop :=
  dotu = false ∧ CStr.bytes? wstat.muid = [] ∧ buf.length = sizeWstat wstat dotu

/-- Without room for the last two bytes nothing is written, or all but an empty last string. -/
theorem npSerializeStat_short (fits : sizeWstat wstat dotu < 2 ^ 16)
    (short : buf.length < 2 + sizeWstat wstat dotu) :
    (npSerializeStat wstat buf dotu).1 = 0 ∧ ¬ CutsShort wstat dotu buf ∨
      CutsShort wstat dotu buf ∧ (npSerializeStat wstat buf dotu).1 = sizeWstat wstat dotu ∧
        (npSerializeStat wstat buf dotu).2.take (sizeWstat wstat dotu) =
          (RawStat.ofWstat wstat dotu).front [] := by
  by_cases enough : sizeWstat wstat dotu ≤ buf.length
  case neg =>
    refine .inl ⟨?_, fun cut => enough cut.2.2.ge⟩
    rw [npSerializeStat, if_pos (not_le.mp enough)]
  have length := @packed_bufPutWstat_length wstat dotu (.ofNat (sizeWstat wstat dotu))
  have allFit := @fits_bufPutWstat wstat dotu (.ofNat (sizeWstat wstat dotu)) fits
  cases dotu with
  | true =>
    refine .inl ⟨?_, fun cut => Bool.false_ne_true cut.1.symm⟩
    have split : bufPutWstat wstat (.ofNat (sizeWstat wstat true)) true =
        (bufPutWstat wstat (.ofNat (sizeWstat wstat true)) true).dropLast ++
          [PutOp.int32 wstat.nMuid (fcStat fun stat nMuid => { stat with nMuid })] := rfl
    have front : (packed (bufPutWstat wstat (.ofNat (sizeWstat wstat true)) true).dropLast
        []).length + 4 = 2 + sizeWstat wstat true := by
      have whole := length
      rw [split, packed_append, packed_tail, List.length_append] at whole
      simp only [packed, PutOp.bytes, List.length_append, bytes32_length, List.length_nil] at whole
      omega
    obtain ⟨⟨bufp, fc⟩, stored, holds⟩ := @execAll_bufInit buf _
      (fun op member => allFit op (List.dropLast_subset _ member)) (by omega)
    obtain ⟨-, window, position, -⟩ := holds
    simp only at window position
    have missing : bufp.ep < bufp.p + (bytes32 wstat.nMuid).length := by
      rw [bytes32_length]
      omega
    have overrun : bufp.spoil = { bufp with p := bufp.ep + 1 } := if_pos (by omega)
    have done : PutOp.execAll (bufPutWstat wstat (.ofNat (sizeWstat wstat true)) true)
        (Cbuf.bufInit buf 0 buf.length, default) = some (bufp.spoil, fc) := by
      rw [split, execAll_append, stored]
      exact congrArg some (bufPut_missing missing)
    refine npSerializeStat_overrun enough done ?_
    rw [overrun]
    exact Int.lt_succ _
  | false =>
    have split : bufPutWstat wstat (.ofNat (sizeWstat wstat false)) false =
        putFront wstat (.ofNat (sizeWstat wstat false)) ++
          [.str wstat.muid (fcStat fun stat muid => { stat with muid }),
            .assign fun fc => { fc with stat := { fc.stat with extension := npStrzero } }] := rfl
    have front : (packed (putFront wstat (.ofNat (sizeWstat wstat false))) []).length +
        (CStr.bytes? wstat.muid).length = sizeWstat wstat false := by
      have whole := length
      rw [split, packed_append, packed_tail, List.length_append] at whole
      simp only [packed, PutOp.bytes, List.length_append, bytes16_length, List.append_nil] at whole
      omega
    obtain ⟨⟨bufp, fc⟩, stored, holds⟩ := @execAll_bufInit buf
      (putFront wstat (.ofNat (sizeWstat wstat false)))
      (fun op member => allFit op (List.mem_of_mem_take member)) (by omega)
    have start : bufp.sp = 0 := execAll_sp stored
    obtain ⟨-, window, position, placed⟩ := holds
    simp only at window position placed
    have missing : bufp.ep < bufp.p + (2 + (CStr.bytes? wstat.muid).length : Int) := by omega
    have done : PutOp.execAll (bufPutWstat wstat (.ofNat (sizeWstat wstat false)) false)
        (Cbuf.bufInit buf 0 buf.length, default) =
          some (bufp.spoil, { fc with stat := { fc.stat with extension := npStrzero } }) := by
      rw [split, execAll_append, stored]
      simp [PutOp.execAll, PutOp.exec, bufPutStr, bufCheckSize_of_missing missing]
    by_cases full : bufp.p < bufp.ep
    · have overrun : bufp.spoil = { bufp with p := bufp.ep + 1 } := if_pos full
      refine .inl ⟨npSerializeStat_overrun enough done ?_, fun cut => ?_⟩
      · rw [overrun]
        exact Int.lt_succ _
      · obtain ⟨_, empty, exact⟩ := cut
        rw [empty, List.length_nil] at front
        omega
    · have kept : bufp.spoil = bufp := if_neg full
      rw [kept] at done
      have empty : CStr.bytes? wstat.muid = [] := List.eq_nil_of_length_eq_zero (by omega)
      rw [empty, List.length_nil, Nat.add_zero] at front
      have inside : ¬ bufp.bufCheckOverflow = true := by
        simp only [Cbuf.bufCheckOverflow, decide_eq_true_eq, not_lt]
        omega
      have taken := (List.prefix_iff_eq_take.mp placed).symm
      rw [front, packed_putFront] at taken
      refine .inr ⟨⟨rfl, empty, by omega⟩, ?_⟩
      rw [npSerializeStat, if_neg (by omega), done]
      simp only [inside, Bool.false_eq_true, if_false]
      exact ⟨by omega, taken⟩

/-- The bytes of a list of records. -/
def wires (dotu : Bool) (wstats : List Npwstat) : List UInt8 :=
  wstats.flatMap fun wstat => (RawStat.ofWstat wstat dotu).wire dotu []

/-- The bytes end with a record that lacks the count of its last string. -/
def CutList (wstats : List Npwstat) (dotu : Bool) (reply : List UInt8) : Prop :=
  ∃ front last, wstats = front ++ [last] ∧ dotu = false ∧ CStr.bytes? last.muid = [] ∧
    reply = wires dotu front ++ (RawStat.ofWstat last dotu).front []

theorem wires_cons (wstat : Npwstat) (wstats : List Npwstat) : wires dotu (wstat :: wstats) =
    (RawStat.ofWstat wstat dotu).wire dotu [] ++ wires dotu wstats := rfl

theorem front_length (empty : CStr.bytes? wstat.muid = []) :
    ((RawStat.ofWstat wstat false).front []).length = sizeWstat wstat false := by
  have whole := @wire_length wstat false
  rw [RawStat.wire, RawStat.front_append, List.length_append] at whole
  simp only [RawStat.ofWstat, empty, wireStr, RawStat.extra, Bool.false_eq_true, if_false,
    List.append_nil, List.length_nil, bytes16_length] at whole ⊢
  omega

theorem npSerializeStat_nil : (npSerializeStat wstat [] dotu).1 = 0 := by
  have positive : sizeWstat wstat dotu > 0 := by
    rw [sizeWstat]
    omega
  rw [npSerializeStat, List.length_nil, if_pos positive]

/-- What is written back to back. -/
theorem serializeStats_some (fits : ∀ wstat ∈ wstats, sizeWstat wstat dotu < 2 ^ 16)
    {reply : List UInt8} (done : serializeStats dotu wstats buf = some reply) :
    reply = wires dotu wstats ∨ CutList wstats dotu reply := by
  induction wstats generalizing buf reply with
  | nil => exact .inl (Option.some.inj done).symm
  | cons wstat wstats ih =>
    have fit := fits wstat List.mem_cons_self
    simp only [serializeStats] at done
    by_cases room : 2 + sizeWstat wstat dotu ≤ buf.length
    · obtain ⟨size, taken⟩ := npSerializeStat_room fit room
      rw [size, if_neg (by omega), taken] at done
      obtain ⟨rest, behind, rfl⟩ := Option.map_eq_some_iff.mp done
      rcases ih (fun wstat member => fits wstat (List.mem_cons_of_mem _ member)) behind with
        whole | ⟨front, last, rfl, plain, empty, rfl⟩
      · exact .inl (by rw [whole, wires_cons])
      · exact .inr ⟨wstat :: front, last, rfl, plain, empty, by rw [wires_cons, List.append_assoc]⟩
    · rcases npSerializeStat_short fit (not_le.mp room) with ⟨none, -⟩ | ⟨cut, size, taken⟩
      · rw [none, if_pos rfl] at done
        cases done
      · obtain ⟨rfl, empty, exact⟩ := cut
        have positive : sizeWstat wstat false ≠ 0 := by
          rw [sizeWstat]
          omega
        rw [size, if_neg positive, taken, List.drop_of_length_le exact.le] at done
        obtain ⟨rest, behind, rfl⟩ := Option.map_eq_some_iff.mp done
        cases wstats with
        | nil =>
          obtain rfl := Option.some.inj behind
          exact .inr ⟨[], wstat, rfl, rfl, empty, by simp [wires]⟩
        | cons next wstats =>
          simp [serializeStats, npSerializeStat_nil] at behind

theorem serializeStats_wires (fits : ∀ wstat ∈ wstats, sizeWstat wstat dotu < 2 ^ 16)
    (more : List Npwstat) (room : (wires dotu wstats).length ≤ buf.length) :
    serializeStats dotu (wstats ++ more) buf = (wires dotu wstats ++ ·) <$>
      serializeStats dotu more (buf.drop (wires dotu wstats).length) := by
  induction wstats generalizing buf with
  | nil =>
    change serializeStats dotu more buf = Option.map (fun rest => rest) _
    rw [Option.map_id']
    rfl
  | cons wstat wstats ih =>
    rw [wires_cons, List.length_append, wire_length] at room
    obtain ⟨size, taken⟩ := npSerializeStat_room (fits wstat List.mem_cons_self)
      (show 2 + sizeWstat wstat dotu ≤ buf.length by omega)
    have behind : (wires dotu wstats).length ≤ (buf.drop (2 + sizeWstat wstat dotu)).length := by
      rw [List.length_drop]
      omega
    simp only [List.cons_append, serializeStats, size, taken, wires_cons, List.length_append,
      wire_length]
    rw [if_neg (by omega), ih (fun wstat member => fits wstat (List.mem_cons_of_mem _ member))
      behind, List.drop_drop]
    simp [Function.comp_def, List.append_assoc]

theorem serializeStats_cut (fits : ∀ wstat ∈ wstats, sizeWstat wstat dotu < 2 ^ 16)
    {reply : List UInt8} (cut : CutList wstats dotu reply) :
    serializeStats dotu wstats reply = some reply := by
  obtain ⟨front, last, rfl, rfl, empty, rfl⟩ := cut
  have length := front_length empty
  have fit := fits last (by simp)
  rw [serializeStats_wires (fun wstat member => fits wstat (by simp [member])) _ (by simp),
    List.drop_left]
  obtain ⟨-, missing⟩ | ⟨-, size, taken⟩ := npSerializeStat_short fit
    (show ((RawStat.ofWstat last false).front []).length < _ by omega)
  · exact absurd ⟨rfl, empty, length⟩ missing
  · have positive : sizeWstat last false ≠ 0 := by
      rw [sizeWstat]
      omega
    simp [serializeStats, size, taken, positive]

end Serialize

end Npfs
