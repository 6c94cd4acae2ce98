import Npfs.UfsRun
import Npfs.XattrValue

/-!
# Reading a directory with cookies

`npfs_readdir` of a directory that does not change.  The stream of the C library is a position among
the entries; `telldir` and the `d_off` of an entry give cookies for positions, and `seekdir` goes back
to one.
-/

namespace Npfs

namespace Ufs

open LittleEndian Program

/-! ## Entries -/

/-- What a client gets of an entry. -/
structure Entry where
  qid : Npqid
  offset : UInt64
  type : UInt8
  name : List UInt8
  deriving DecidableEq

namespace Entry

/-- `buf_put_dirent`. -/
def wire (e : Entry) : List UInt8 :=
  e.qid.type :: bytes32 e.qid.version ++ bytes64 e.qid.path ++ bytes64 e.offset ++ e.type ::
    bytes16 (.ofNat e.name.length) ++ e.name

/-- The entry in front, and what is behind it. -/
def parse (bytes : List UInt8) : Option (Entry × List UInt8) :=
  let length := (word16 fun i => bytes.getD (22 + i) 0).toNat
  if 24 + length ≤ bytes.length then
    let qid : Npqid :=
      { type := bytes.getD 0 0
        version := word32 fun i => bytes.getD (1 + i) 0
        path := word64 fun i => bytes.getD (5 + i) 0 }
    some (⟨qid, word64 fun i => bytes.getD (13 + i) 0, bytes.getD 21 0,
      (bytes.drop 24).take length⟩, bytes.drop (24 + length))
  else
    none

/-- What a client makes of a reply: nothing, if it does not consist of whole entries. -/
def parseAll : (turns : ℕ) → List UInt8 → Option (List Entry)
  | _, [] => some []
  | 0, _ :: _ => none
  | turns + 1, byte :: bytes => do
    let (e, rest) ← parse (byte :: bytes)
    let entries ← parseAll turns rest
    return e :: entries

variable {e : Entry} {entries : List Entry} {rest : List UInt8}

theorem length_wire : e.wire.length = 24 + e.name.length := by
  simp only [wire, List.length_append, List.length_cons, bytes32_length, bytes64_length,
    bytes16_length]

theorem wire_cons : ∃ bytes, e.wire = e.qid.type :: bytes := ⟨_, rfl⟩

theorem parse_wire (short : e.name.length < 2 ^ 16) : parse (e.wire ++ rest) = some (e, rest) := by
  obtain ⟨⟨type, version, path⟩, offset, kind, name⟩ := e
  obtain ⟨bytes, is⟩ : ∃ bytes, (⟨⟨type, version, path⟩, offset, kind, name⟩ : Entry).wire ++ rest =
      bytes := ⟨_, rfl⟩
  have length : (word16 fun i => bytes.getD (22 + i) 0) = .ofNat name.length := by
    rw [← is]
    exact word16_bytes16 (.ofNat name.length)
  have low : (UInt16.ofNat name.length).toNat = name.length := by
    rw [UInt16.toNat_ofNat']
    exact Nat.mod_eq_of_lt short
  have version' : (word32 fun i => bytes.getD (1 + i) 0) = version := by
    rw [← is]
    exact word32_bytes32 version
  have path' : (word64 fun i => bytes.getD (5 + i) 0) = path := by
    rw [← is]
    exact word64_bytes64 path
  have offset' : (word64 fun i => bytes.getD (13 + i) 0) = offset := by
    rw [← is]
    exact word64_bytes64 offset
  have first : bytes.getD 0 0 = type := by
    rw [← is]
    rfl
  have kind' : bytes.getD 21 0 = kind := by
    rw [← is]
    rfl
  have behind : bytes.drop 24 = name ++ rest := by
    rw [← is]
    rfl
  have enough : 24 + name.length ≤ bytes.length := by
    rw [← is, List.length_append, length_wire]
    exact Nat.le_add_right _ _
  rw [is, parse]
  simp only [length, low, if_pos enough, version', path', offset', first, kind']
  rw [behind, ← List.drop_drop, behind, List.take_left, List.drop_left]

/-- A client finds the entries that a reply was made of. -/
theorem parseAll_wire {turns : ℕ} (short : ∀ e ∈ entries, e.name.length < 2 ^ 16)
    (enough : entries.length ≤ turns) : parseAll turns (entries.flatMap wire) = some entries := by
  induction entries generalizing turns with
  | nil => cases turns <;> rfl
  | cons e entries ih =>
      obtain ⟨turns, rfl⟩ := Nat.exists_eq_succ_of_ne_zero (Nat.ne_of_gt (Nat.zero_lt_of_lt enough))
      have further := ih (fun e member => short e (List.mem_cons_of_mem _ member))
        (Nat.le_of_succ_le_succ enough)
      have front := @parse_wire e (entries.flatMap wire) (short e List.mem_cons_self)
      obtain ⟨bytes, split⟩ := @wire_cons e
      rw [List.flatMap_cons]
      rw [split, List.cons_append] at front ⊢
      rw [parseAll, front]
      simp only [Option.bind_eq_bind, Option.bind_some, further]
      rfl

end Entry

/-! ## `np_serialize_dirent` -/

section Serialize

variable {qid : Npqid} {offset : UInt64} {type : UInt8} {name : CStr} {buf : List UInt8}

/-- With enough room the whole entry is written, and the rest of the buffer stays. -/
theorem npSerializeDirent_stored (short : name.strlen < 2 ^ 16)
    (room : (⟨qid, offset, type, name.bytes⟩ : Entry).wire.length ≤ buf.length) : ∃ mem,
      npSerializeDirent qid offset type name buf =
        ((⟨qid, offset, type, name.bytes⟩ : Entry).wire.length, mem) ∧
        mem.length = buf.length ∧ (⟨qid, offset, type, name.bytes⟩ : Entry).wire <+: mem := by
  have content : packed (bufPutQid qid (fun _ fc => fc) ++
      [PutOp.int64 offset null, .int8 type null, .str (some name) null]) [] =
        (⟨qid, offset, type, name.bytes⟩ : Entry).wire := by
    simp [bufPutQid, packed, PutOp.bytes, Entry.wire, CStr.bytes?]
  have fits : ∀ op ∈ bufPutQid qid (fun _ fc => fc) ++
      [PutOp.int64 offset null, .int8 type null, .str (some name) null], op.Fits := by
    simpa [bufPutQid, CStr.bytes?, CStr.strlen] using short
  obtain ⟨⟨bufp, fc⟩, stored, holds⟩ := execAll_bufInit fits
    ((congrArg List.length content).trans_le room)
  rw [content] at holds
  obtain ⟨kept, window, position, placed⟩ := holds
  have start : bufp.sp = 0 := execAll_sp stored
  have inside : ¬ bufp.bufCheckOverflow = true := by
    simp only [Cbuf.bufCheckOverflow, decide_eq_true_eq, not_lt]
    dsimp only at window position
    omega
  have enough : ¬ 13 + 8 + 1 + 2 + name.strlen > buf.length := by
    rw [Entry.length_wire] at room
    exact not_lt.mpr room
  refine ⟨bufp.mem, ?_, kept, placed⟩
  rw [npSerializeDirent, if_neg enough, stored]
  dsimp only at position ⊢
  rw [if_neg inside, position, start]
  simp

/-- Without room nothing is written. -/
theorem npSerializeDirent_full
    (full : buf.length < (⟨qid, offset, type, name.bytes⟩ : Entry).wire.length) :
    npSerializeDirent qid offset type name buf = (0, buf) := by
  rw [Entry.length_wire] at full
  exact if_pos full

end Serialize

/-! ## A directory -/

/-- A directory that does not change, in the order of its stream, and the host that it is on. -/
structure HostDir where
  entries : List Dirent
  /-- What the other system calls return. -/
  answer : (call : SysCall) → call.Reply
  /-- The memory of a packet that is allocated. -/
  heap : Malloc
  /-- The names have room in a `struct dirent`. -/
  named : ∀ dirent ∈ entries, dirent.name.strlen < 256
  /-- Each position has its own cookie, 0 being the one of the start. -/
  apart : (0 :: entries.map (·.off)).Nodup

/-- The state of a connection, and the position of the stream. -/
abbrev Streaming := Session Fid ℕ

namespace HostDir

variable (d : HostDir) (u : Ufssrv)

/-- The cookies of the positions. -/
def cookies : List UInt64 := 0 :: d.entries.map (·.off)

/-- Make a system call. -/
def exec (call : SysCall) (at' : ℕ) : call.Reply × ℕ :=
  match call with
  | .data (.readdir _) =>
    (.ok { (default : Returned) with dirent := d.entries[at']? },
      if at' < d.entries.length then at' + 1 else at')
  | .data (.rewinddir _) => (.ok default, 0)
  | .data (.telldir _) => (.ok { (default : Returned) with number := d.cookies.getD at' 0 }, at')
  | .data (.seekdir _ cookie) => (.ok default, d.cookies.idxOf cookie)
  | call => (d.answer call, at')

/-- What the operations of `libnpfs` need of their environment.  The callbacks are not run here. -/
def env : Env Fid ℕ where
  answer callback _ at' := ⟨callback.silence, none, false, none, at'⟩
  malloc at' := (d.heap, at')
  flush _ at' := (true, at')
  reset _ at' := at'

/-- Perform an operation of `libufs`. -/
def execOp : (op : Op) → Streaming → op.Reply × Streaming
  | .sys call, s => ((d.exec call s.world).1, { s with world := (d.exec call s.world).2 })
  | .aux fid, s => s.load fid (·.aux) none
  | .setAux fid aux, s => ((), s.modify fid fun f => { f with aux := some aux })
  | .np op, s => Npfs.exec d.env op s
  | .ufs, s => (u, s)

/-! ## What it is for -/

/-- What `npfs_readdir` asks about an entry of which the stream does not say the type. -/
def lstat (f : Fid) (dirent : Dirent) : Except Errno Stat :=
  d.answer (.lstat (ufsJoin f.path.bytes dirent.name.bytes))

/-- Nothing is known about an entry. -/
def Unknown (f : Fid) (dirent : Dirent) : Prop :=
  dirent.type = DT_UNKNOWN ∧ (d.lstat f dirent).toOption = none

/-- The qid of an entry. -/
def qid (f : Fid) (dirent : Dirent) : Npqid :=
  if dirent.type = DT_UNKNOWN then ((d.lstat f dirent).toOption.map ustat2qid).getD default
  else
    { path := dirent.ino
      version := 0
      type := flag (dirent.type = DT_DIR) Qtdir.toUInt8 ||| flag (dirent.type = DT_LNK) Qtsymlink }

/-- What a client is to get of an entry. -/
def entry (f : Fid) (dirent : Dirent) : Entry :=
  ⟨d.qid f dirent, dirent.off, shownType f dirent, dirent.name.bytes⟩

/-- What a client is to get from a position on: all entries other than `.` and `..`. -/
def ahead (f : Fid) (at' : ℕ) : List Entry :=
  ((d.entries.drop at').filter fun dirent => !isDots dirent.name).map (d.entry f)

/-- What a client is to get behind a cookie. -/
def behind (f : Fid) (cookie : UInt64) : List Entry := d.ahead f (d.cookies.idxOf cookie)

variable {d u} {s : Streaming} {fid : FidPtr} {f : Fid} {dirent : Dirent} {at' : ℕ}

theorem ahead_end (none' : d.entries[at']? = none) : d.ahead f at' = [] := by
  rw [ahead, List.drop_eq_nil_of_le (List.getElem?_eq_none_iff.mp none')]
  rfl

theorem ahead_next (found : d.entries[at']? = some dirent) : d.ahead f at' =
    if isDots dirent.name then d.ahead f (at' + 1)
    else d.entry f dirent :: d.ahead f (at' + 1) := by
  obtain ⟨inside, is⟩ := List.getElem?_eq_some_iff.mp found
  rw [ahead, ahead, List.drop_eq_getElem_cons inside, is, List.filter_cons]
  cases isDots dirent.name <;> rfl

theorem short_ahead {e : Entry} (member : e ∈ d.ahead f at') : e.name.length < 256 := by
  obtain ⟨dirent, known, rfl⟩ := List.mem_map.mp member
  exact d.named dirent (List.mem_of_mem_drop (List.mem_of_mem_filter known))

/-- A cookie leads back to its position. -/
theorem idxOf_cookie (inside : at' ≤ d.entries.length) :
    d.cookies.idxOf (d.cookies.getD at' 0) = at' := by
  have within : at' < d.cookies.length := by
    rw [cookies, List.length_cons, List.length_map]
    exact Nat.lt_succ_of_le inside
  rw [List.getD_eq_getElem _ _ within]
  exact d.apart.idxOf_getElem at' within

/-! ## The loop -/

section Loop

variable {dir : UInt64} {count turns n : ℕ} {buf : List UInt8}

/-- The bytes behind the first `n` ones of a buffer are as many whole entries as there is room for,
and the stream is back where the first one begins that is not written. -/
structure Paged (d : HostDir) (f : Fid) (at' count n : ℕ) (front buf : List UInt8) (n' : ℕ)
    (at'' : ℕ) (entries : List Entry) : Prop where
  inside : n' ≤ buf.length
  below : n' ≤ count
  written : buf.take n' = front ++ entries.flatMap Entry.wire
  size : n' = n + (entries.flatMap Entry.wire).length
  taken : d.ahead f at' = entries ++ d.ahead f at''
  full : ∀ e ∈ (d.ahead f at'').head?, count ≤ n' + e.wire.length
  within : at'' ≤ d.entries.length

theorem run_turn_end (below : n < count) (none' : d.entries[at']? = none) :
    (readdirLoop f dir count (turns + 1) buf n).run (d.execOp u) { s with world := at' } =
      (some (buf, n), { s with world := at' }) := by
  have last : ¬ at' < d.entries.length := not_lt.mpr (List.getElem?_eq_none_iff.mp none')
  rw [readdirLoop, if_pos below]
  simp only [data, step_bind, done_bind, run_step, execOp, exec, none', Except.toOption,
    Option.bind_some, if_neg last]
  rfl

theorem run_turn_dots (below : n < count) (found : d.entries[at']? = some dirent)
    (dots : isDots dirent.name = true) :
    (readdirLoop f dir count (turns + 1) buf n).run (d.execOp u) { s with world := at' } =
      (readdirLoop f dir count turns buf n).run (d.execOp u) { s with world := at' + 1 } := by
  have inside := (List.getElem?_eq_some_iff.mp found).1
  rw [readdirLoop, if_pos below]
  simp only [data, step_bind, done_bind, run_step, execOp, exec, found, Except.toOption,
    Option.bind_some, if_pos inside, if_pos dots]

theorem run_direntQid : (direntQid f dirent).run (d.execOp u) s =
    (if dirent.type = DT_UNKNOWN then (d.lstat f dirent).map ustat2qid
      else .ok (d.qid f dirent), s) := by
  unfold direntQid qid
  split_ifs <;> rfl

/-- A turn for an entry of which nothing is known. -/
theorem run_turn_unknown (below : n < count) (found : d.entries[at']? = some dirent)
    (dots : ¬ isDots dirent.name = true) (unknown : d.Unknown f dirent) : ∃ e : Nperror,
    (readdirLoop f dir count (turns + 1) buf n).run (d.execOp u) { s with world := at' } =
      (none, { s with error := some e, world := at' + 1 }) := by
  have inside := (List.getElem?_eq_some_iff.mp found).1
  obtain ⟨untyped, failed⟩ := unknown
  cases answered : d.lstat f dirent with
  | ok st =>
      rw [answered] at failed
      cases failed
  | error err =>
      refine ⟨.of (u.strerror err) err, ?_⟩
      rw [readdirLoop, if_pos below]
      simp only [data, step_bind, done_bind, run_step, execOp, exec, found, Except.toOption,
        Option.bind_some, if_pos inside, if_neg dots]
      rw [run_bind, run_direntQid, if_pos untyped, answered]
      rfl

/-- A turn for any other entry. -/
theorem run_turn (below : n < count) (found : d.entries[at']? = some dirent)
    (dots : ¬ isDots dirent.name = true) (known : ¬ d.Unknown f dirent) :
    (readdirLoop f dir count (turns + 1) buf n).run (d.execOp u) { s with world := at' } =
      let (i, mem) := npSerializeDirent (d.qid f dirent) dirent.off (shownType f dirent) dirent.name
        ((buf.drop n).take (count - n - 1))
      if i = 0 then (some (store buf n mem, n), { s with world := at' })
      else (readdirLoop f dir count turns (store buf n mem) (n + i)).run (d.execOp u)
        { s with world := at' + 1 } := by
  have inside := (List.getElem?_eq_some_iff.mp found).1
  have made : (if dirent.type = DT_UNKNOWN then (d.lstat f dirent).map ustat2qid
      else .ok (d.qid f dirent)) = .ok (d.qid f dirent) := by
    split_ifs with untyped
    · cases answered : d.lstat f dirent with
      | error err => exact absurd ⟨untyped, by rw [answered]; rfl⟩ known
      | ok st =>
          rw [qid, if_pos untyped, answered]
          rfl
    · rfl
  rw [readdirLoop, if_pos below]
  simp only [data, step_bind, done_bind, run_step, execOp, exec, found, Except.toOption,
    Option.bind_some, if_pos inside, if_neg dots]
  rw [run_bind, run_direntQid, made]
  dsimp only
  rw [run_ite]
  simp only [run_step, execOp, exec, Option.map_some, Option.getD_some, idxOf_cookie inside.le]
  rfl

theorem window_length (room : count ≤ buf.length + 1) :
    ((buf.drop n).take (count - n - 1)).length = count - n - 1 := by
  rw [List.length_take_of_le]
  rw [List.length_drop]
  omega

theorem named_short (found : d.entries[at']? = some dirent) : dirent.name.strlen < 2 ^ 16 :=
  (d.named dirent (List.mem_of_getElem? found)).trans (by decide)

/-- There is room for the entry. -/
theorem run_turn_room (below : n < count) (found : d.entries[at']? = some dirent)
    (dots : ¬ isDots dirent.name = true) (known : ¬ d.Unknown f dirent) (most : n ≤ buf.length)
    (room : count ≤ buf.length + 1) (fits : (d.entry f dirent).wire.length ≤ count - n - 1) :
    ∃ buf', (readdirLoop f dir count (turns + 1) buf n).run (d.execOp u) { s with world := at' } =
        (readdirLoop f dir count turns buf' (n + (d.entry f dirent).wire.length)).run (d.execOp u)
          { s with world := at' + 1 } ∧ buf'.length = buf.length ∧
      buf'.take (n + (d.entry f dirent).wire.length) = buf.take n ++ (d.entry f dirent).wire := by
  have window := @window_length count n buf room
  obtain ⟨mem, stored, length, placed⟩ : ∃ mem,
      npSerializeDirent (d.qid f dirent) dirent.off (shownType f dirent) dirent.name
        ((buf.drop n).take (count - n - 1)) = ((d.entry f dirent).wire.length, mem) ∧
      mem.length = ((buf.drop n).take (count - n - 1)).length ∧ (d.entry f dirent).wire <+: mem :=
    npSerializeDirent_stored (named_short found) (fits.trans window.ge)
  have positive : (d.entry f dirent).wire.length ≠ 0 := by
    rw [Entry.length_wire]
    omega
  refine ⟨store buf n mem, ?_, length_store (by omega), ?_⟩
  · rw [run_turn below found dots known, stored]
    exact if_neg positive
  · rw [take_store_part most (by rw [length, window]; exact fits),
      ← List.prefix_iff_eq_take.mp placed]

/-- There is no room for the entry, and the stream goes back to it. -/
theorem run_turn_full (below : n < count) (found : d.entries[at']? = some dirent)
    (dots : ¬ isDots dirent.name = true) (known : ¬ d.Unknown f dirent) (most : n ≤ buf.length)
    (room : count ≤ buf.length + 1) (full : ¬ (d.entry f dirent).wire.length ≤ count - n - 1) :
    ∃ buf', (readdirLoop f dir count (turns + 1) buf n).run (d.execOp u) { s with world := at' } =
        (some (buf', n), { s with world := at' }) ∧ n ≤ buf'.length ∧ buf'.take n = buf.take n := by
  have window := @window_length count n buf room
  have refused : npSerializeDirent (d.qid f dirent) dirent.off (shownType f dirent) dirent.name
      ((buf.drop n).take (count - n - 1)) = (0, (buf.drop n).take (count - n - 1)) := by
    refine npSerializeDirent_full ?_
    rw [window]
    exact not_le.mp full
  refine ⟨store buf n ((buf.drop n).take (count - n - 1)), ?_, le_length_store most, ?_⟩
  · rw [run_turn below found dots known, refused]
    rfl
  · have none' := take_store_part most (Nat.zero_le ((buf.drop n).take (count - n - 1)).length)
    rwa [Nat.add_zero, List.take_zero, List.append_nil] at none'

/-- An entry that is passed over is behind the loop at once. -/
theorem Paged.dots {front buf : List UInt8} {n' at'' : ℕ} {entries : List Entry}
    (found : d.entries[at']? = some dirent) (dots : isDots dirent.name = true)
    (paged : Paged d f (at' + 1) count n front buf n' at'' entries) :
    Paged d f at' count n front buf n' at'' entries :=
  { paged with taken := by rw [ahead_next found, if_pos dots, paged.taken] }

/-- A whole entry is written, and the loop goes on behind it. -/
theorem Paged.whole {front buf : List UInt8} {n' at'' : ℕ} {entries : List Entry}
    (found : d.entries[at']? = some dirent) (dots : ¬ isDots dirent.name = true)
    (paged : Paged d f (at' + 1) count (n + (d.entry f dirent).wire.length)
      (front ++ (d.entry f dirent).wire) buf n' at'' entries) :
    Paged d f at' count n front buf n' at'' (d.entry f dirent :: entries) where
  inside := paged.inside
  below := paged.below
  written := by rw [paged.written, List.flatMap_cons, List.append_assoc]
  size := by rw [paged.size, List.flatMap_cons, List.length_append, Nat.add_assoc]
  taken := by rw [ahead_next found, if_neg dots, paged.taken, List.cons_append]
  full := paged.full
  within := paged.within

/-- Nothing is written. -/
theorem Paged.stop {buf' : List UInt8} (length : n ≤ buf'.length) (below : n ≤ count)
    (within : at' ≤ d.entries.length)
    (full : ∀ e ∈ (d.ahead f at').head?, count ≤ n + e.wire.length)
    (kept : buf'.take n = buf.take n) : Paged d f at' count n (buf.take n) buf' n at' [] where
  inside := length
  below := below
  written := by rw [kept, List.flatMap_nil, List.append_nil]
  size := rfl
  taken := rfl
  full := full
  within := within

/-- By induction on the turns: the stream moves on by one entry in each of them. -/
theorem run_readdirLoop (within : at' ≤ d.entries.length)
    (enough : d.entries.length < at' + turns) (most : n ≤ buf.length) (below : n ≤ count)
    (room : count ≤ buf.length + 1) :
    (∃ buf' n' at'' entries,
      (readdirLoop f dir count turns buf n).run (d.execOp u) { s with world := at' } =
        (some (buf', n'), { s with world := at'' }) ∧
      Paged d f at' count n (buf.take n) buf' n' at'' entries) ∨
    ∃ e at'', (readdirLoop f dir count turns buf n).run (d.execOp u) { s with world := at' } =
        (none, { s with error := some e, world := at'' }) ∧ at'' ≤ d.entries.length ∧
      ∃ dirent ∈ d.entries, ¬ isDots dirent.name = true ∧ d.Unknown f dirent := by
  induction turns generalizing at' n buf with
  | zero => exact absurd within (not_le.mpr enough)
  | succ turns ih =>
      by_cases done : n < count
      case neg =>
        refine .inl ⟨buf, n, at', [], ?_, .stop most below within (fun e _ => by omega) rfl⟩
        rw [readdirLoop, if_neg done]
        rfl
      cases found : d.entries[at']? with
      | none =>
          refine .inl ⟨buf, n, at', [], run_turn_end done found, .stop most below within ?_ rfl⟩
          rw [ahead_end found]
          intro e member
          cases member
      | some dirent =>
          have inside := (List.getElem?_eq_some_iff.mp found).1
          have enough' : d.entries.length < at' + 1 + turns := by omega
          by_cases dots : isDots dirent.name = true
          · have turn := @run_turn_dots d u s f dirent at' dir count turns n buf done found dots
            rw [turn]
            rcases ih inside enough' most below room with
              ⟨buf', n', at'', entries, ran, paged⟩ | ⟨error, at'', ran, bound, unknown⟩
            · exact .inl ⟨buf', n', at'', entries, ran, paged.dots found dots⟩
            · exact .inr ⟨error, at'', ran, bound, unknown⟩
          by_cases known : d.Unknown f dirent
          · obtain ⟨error, ran⟩ :=
              @run_turn_unknown d u s f dirent at' dir count turns n buf done found dots known
            exact .inr ⟨error, at' + 1, ran, inside, dirent, List.mem_of_getElem? found, dots, known⟩
          by_cases fits : (d.entry f dirent).wire.length ≤ count - n - 1
          · obtain ⟨buf₁, turn, length, front⟩ := @run_turn_room d u s f dirent at' dir count turns n
              buf done found dots known most room fits
            rw [turn]
            have inside' : n + (d.entry f dirent).wire.length ≤ buf₁.length := by omega
            have below' : n + (d.entry f dirent).wire.length ≤ count := by omega
            rcases ih inside enough' inside' below' (room.trans (by rw [length])) with
              ⟨buf', n', at'', entries, ran, paged⟩ | ⟨error, at'', ran, bound, unknown⟩
            · rw [front] at paged
              exact .inl ⟨buf', n', at'', _, ran, paged.whole found dots⟩
            · exact .inr ⟨error, at'', ran, bound, unknown⟩
          · obtain ⟨buf', turn, length, front⟩ := @run_turn_full d u s f dirent at' dir count turns n
              buf done found dots known most room fits
            refine .inl ⟨buf', n, at', [], turn, .stop length below within ?_ front⟩
            rw [ahead_next found, if_neg dots]
            intro e member
            obtain rfl := Option.some.inj member
            omega

end Loop

/-! ## A call -/

section Call

variable {offset : UInt64} {count : UInt32}

/-- The user of a fid is known, where it is asked for. -/
def Owned (u : Ufssrv) (s : Streaming) (fid : FidPtr) : Prop :=
  u.sameuser = true ∨ ((s.fids.get fid).bind (·.user)).isSome

/-- The process is that of the user of a fid, or can become it. -/
def Trusted (d : HostDir) (u : Ufssrv) (s : Streaming) (fid : FidPtr) : Prop :=
  u.sameuser = true ∨ ∃ user, (s.fids.get fid).bind (·.user) = some user ∧
    ((d.answer (.data .geteuid)).toOption.map (·.number.toUInt32) = some (u.uid user) ∨
      (d.answer (.data (.changeUser (u.uid user)))).isOk)

/-- The directory of a fid cannot be opened. -/
def Closed (d : HostDir) (f : Fid) : Prop :=
  f.dir = none ∧ ¬ (d.answer (.data (.fdopendir (f.fd.getD noFd)))).isOk

theorem run_userUid {user : UserPtr} (owner : (s.fids.get fid).bind (·.user) = some user) :
    (userUid fid).run (d.execOp u) s = (u.uid user, s) := by
  obtain ⟨g, live, known⟩ := Option.bind_eq_some_iff.mp owner
  simp [userUid, ufs, np, execOp, Npfs.exec, Session.load, live, known]

theorem run_npfsSetUser (owned : Owned u s fid) : ∃ error,
    (npfsSetUser fid).run (d.execOp u) s = ((), { s with error }) ∧
      (d.Trusted u s fid → error = s.error) := by
  by_cases same : u.sameuser = true
  · exact ⟨s.error, by simp [npfsSetUser, ufs, execOp, same], fun _ => rfl⟩
  obtain ⟨user, owner⟩ := Option.isSome_iff_exists.mp (owned.resolve_left same)
  have uid := @run_userUid d u s fid user owner
  by_cases already : (d.answer (.data .geteuid)).toOption.map (·.number.toUInt32) =
      some (u.uid user)
  · refine ⟨s.error, ?_, fun _ => rfl⟩
    simp only [npfsSetUser, ufs, step_bind, done_bind, run_step, execOp, same, Bool.false_eq_true,
      if_false]
    rw [run_bind, uid]
    simp only [data, step_bind, done_bind, run_step, execOp, exec, already, if_true]
    rfl
  cases changed : d.answer (.data (.changeUser (u.uid user))) with
  | ok r =>
      refine ⟨s.error, ?_, fun _ => rfl⟩
      simp only [npfsSetUser, ufs, step_bind, done_bind, run_step, execOp, same, Bool.false_eq_true,
        if_false]
      rw [run_bind, uid]
      simp only [data, step_bind, done_bind, run_step, execOp, exec, already, if_false, changed]
      rfl
  | error err =>
      refine ⟨some (.of (u.strerror err) err), ?_, fun trusted => ?_⟩
      · simp only [npfsSetUser, ufs, step_bind, done_bind, run_step, execOp, same,
          Bool.false_eq_true, if_false]
        rw [run_bind, uid]
        simp only [data, step_bind, done_bind, run_step, execOp, exec, already, if_false, changed]
        rfl
      · obtain ⟨user', owner', able⟩ := trusted.resolve_left same
        obtain rfl : user = user' := Option.some.inj (owner.symm.trans owner')
        have accepted := able.resolve_left already
        rw [changed] at accepted
        cases accepted

theorem rreaddir_reserved (small : count.toNat + 11 < 2 ^ 31) (heap : Malloc) :
    ∃ ret, npAllocRreaddir count heap = some ret ∧ Reserved .rreaddir count ret ∧
      ret.type = MsgType.rreaddir.code := by
  obtain ⟨ret, created, reserved⟩ := ((reserves_iff count).mpr small).allocRreaddir heap
  have size : (4 + count : UInt32).toNat = 4 + count.toNat := by
    rw [UInt32.toNat_add]
    exact Nat.mod_eq_of_lt (by simpa using by omega)
  refine ⟨ret, created, reserved, ?_⟩
  exact (npCreate_keeps (by simp) (fun _ _ => rfl) created).trans
    (npCreateCommon_type heap .rreaddir (by omega))

theorem setRread_type (ret : Npfcall) (buf : List UInt8) (n : ℕ) :
    (setRread ret buf n).type = ret.type := by
  simp only [setRread, npSetCount, bufPutInt32]
  rw [@bufPut_keeps _ Npfcall.type _ _ _ _ fun _ _ => by simp only,
    @bufPut_keeps _ Npfcall.type _ _ _ _ fun _ _ => by simp only]

/-- The position from which a call reads. -/
def startOf (offset : UInt64) (at' : ℕ) : ℕ := if offset = 0 then 0 else at'

theorem run_rewind {dir : UInt64} : (rewind dir offset).run (d.execOp u) s =
    ((), { s with world := startOf offset s.world }) := by
  unfold rewind startOf
  split_ifs <;> rfl

/-- What a call returns: as many whole entries as there is room for, or an error. -/
structure Called (d : HostDir) (f : Fid) (count : UInt32) (at' at'' : ℕ) (rc : Option Npfcall) :
    Prop where
  failed : rc = none → d.Closed f ∨
    ∃ dirent ∈ d.entries, ¬ isDots dirent.name = true ∧ d.Unknown f dirent
  type : ∀ rc' ∈ rc, rc'.type = MsgType.rreaddir.code
  listed : ∀ rc' ∈ rc, ∃ entries : List Entry, readBytes rc' = entries.flatMap Entry.wire ∧
    (readBytes rc').length ≤ count.toNat ∧ d.ahead f at' = entries ++ d.ahead f at'' ∧
      ∀ e ∈ (d.ahead f at'').head?, count.toNat ≤ (readBytes rc').length + e.wire.length

/-- What a call leaves behind: it may open the directory. -/
def after (s : Streaming) (fid : FidPtr) (f : Fid) (dir : Option UInt64) (error : Option Nperror)
    (at' : ℕ) : Streaming :=
  { s with
    fids := s.fids.modify fid fun g => { g with aux := some { f with dir } }
    error
    world := at' }

section Open

variable {g : Npfid Fid} {ret : Npfcall} {error : Option Nperror}

theorem run_aux (live : s.fids.get fid = some g) (aux : g.aux = some f) :
    s.load fid (·.aux) none = (some f, s) := by
  simp only [Session.load, live, aux]

/-- The directory cannot be opened. -/
theorem run_npfsReaddir_closed (live : s.fids.get fid = some g) (aux : g.aux = some f)
    (created : npAllocRreaddir count d.heap = some ret)
    (user : (npfsSetUser fid).run (d.execOp u) s = ((), { s with error })) {err : Errno}
    (opened : (openDir f).run (d.execOp u) { s with error } = (.error err, { s with error })) :
    (npfsReaddir fid offset count).run (d.execOp u) s =
      (none, after s fid f none (some (.of (u.strerror err) err)) s.world) := by
  have fault : (s.fault || (s.fids.get fid).isNone) = s.fault := by simp [live]
  rw [npfsReaddir, withAux, run_step]
  simp only [execOp, run_aux live aux]
  simp only [create, step_bind, done_bind, run_step, execOp, Npfs.exec, env, created]
  rw [run_bind, user]
  dsimp only
  rw [run_bind, opened]
  simp only [setAux, step_bind, done_bind, run_step, execOp, Session.modify, fault]
  rfl

/-- The directory is open, and the loop fills the reply. -/
theorem run_npfsReaddir_open (live : s.fids.get fid = some g) (aux : g.aux = some f)
    (created : npAllocRreaddir count d.heap = some ret)
    (user : (npfsSetUser fid).run (d.execOp u) s = ((), { s with error })) {dir : UInt64}
    (opened : (openDir f).run (d.execOp u) { s with error } = (.ok dir, { s with error }))
    {listed : Option (List UInt8 × ℕ)} {s' : Streaming}
    (ran : (readdirLoop f dir count.toNat u.turns ((ret.pkt.drop 11).take count.toNat) 0).run
      (d.execOp u) (after s fid f (some dir) error (startOf offset s.world)) = (listed, s')) :
    (npfsReaddir fid offset count).run (d.execOp u) s =
      (listed.map fun listed => setRread ret listed.1 listed.2, s') := by
  have fault : (s.fault || (s.fids.get fid).isNone) = s.fault := by simp [live]
  rw [npfsReaddir, withAux, run_step]
  simp only [execOp, run_aux live aux]
  simp only [create, step_bind, done_bind, run_step, execOp, Npfs.exec, env, created]
  rw [run_bind, user]
  dsimp only
  rw [run_bind, opened]
  simp only [setAux, step_bind, done_bind, run_step, execOp, Session.modify, fault, check]
  rw [run_bind, run_rewind]
  simp only [ufs, step_bind, done_bind, run_step, execOp]
  rw [run_bind]
  rw [show ({ s with
      fids := s.fids.modify fid fun g => { g with
        aux := some { f with dir := (Except.ok dir : Except Errno UInt64).toOption } }
      error, fault := s.fault, world := startOf offset s.world } : Streaming) =
        after s fid f (some dir) error (startOf offset s.world) from rfl, ran]
  cases listed <;> rfl

end Open

/-- `npfs_readdir`. -/
theorem run_npfsReaddir (aux : (s.fids.get fid).map (·.aux) = some (some f))
    (owned : Owned u s fid) (within : s.world ≤ d.entries.length)
    (turns : d.entries.length < u.turns) (small : count.toNat + 11 < 2 ^ 31) :
    ∃ rc dir error at'', (npfsReaddir fid offset count).run (d.execOp u) s =
        (rc, after s fid f dir error at'') ∧ (dir = f.dir ∨ dir.isSome) ∧
      at'' ≤ d.entries.length ∧ Called d f count (startOf offset s.world) at'' rc ∧
        (d.Trusted u s fid → rc.isSome → error = s.error) ∧ (rc = none → error ≠ none) := by
  obtain ⟨g, live, aux⟩ := Option.map_eq_some_iff.mp aux
  obtain ⟨ret, created, reserved, type⟩ := rreaddir_reserved small d.heap
  obtain ⟨error, user, quiet⟩ := @run_npfsSetUser d u s fid owned
  obtain ⟨dir, opened, closed, kept⟩ : ∃ dir, (openDir f).run (d.execOp u) { s with error } =
      (dir, { s with error }) ∧ (dir.toOption = none → d.Closed f) ∧
        (dir.toOption = f.dir ∨ dir.toOption.isSome) := by
    unfold openDir Closed
    cases f.dir with
    | some dir => exact ⟨.ok dir, rfl, fun none' => (by cases none'), .inl rfl⟩
    | none =>
        refine ⟨_, rfl, fun none' => ⟨rfl, ?_⟩, Option.eq_none_or_eq_some _ |>.imp_right ?_⟩
        swap
        · rintro ⟨dir, is⟩
          rw [is]
          rfl
        dsimp only [execOp, exec] at none'
        intro ok
        cases answered : d.answer (.data (.fdopendir (f.fd.getD noFd))) with
        | ok r =>
            rw [answered] at none'
            cases none'
        | error err =>
            rw [answered] at ok
            cases ok
  cases dir with
  | error err =>
      exact ⟨none, none, _, s.world, run_npfsReaddir_closed live aux created user opened, kept,
        within, ⟨fun _ => .inl (closed rfl), fun rc member => (by cases member),
          fun rc member => (by cases member)⟩, fun _ some' => (by cases some'),
        fun _ none' => (by cases none')⟩
  | ok dir =>
      have begins : startOf offset s.world ≤ d.entries.length := by
        unfold startOf
        split_ifs
        · exact Nat.zero_le _
        · exact within
      have window := reserved.window
      rcases @run_readdirLoop d u (after s fid f (some dir) error s.world) f
        (startOf offset s.world) dir count.toNat u.turns 0 ((ret.pkt.drop 11).take count.toNat)
        begins (by omega) (Nat.zero_le _) (Nat.zero_le _) (by omega) with
        ⟨buf, n, at'', entries, ran, paged⟩ | ⟨e, at'', ran, bound, unknown⟩
      · have below := paged.below
        have bytes := readBytes_setRread reserved (by omega) paged.inside
        have written : buf.take n = entries.flatMap Entry.wire := paged.written
        have size : n = (entries.flatMap Entry.wire).length := by
          rw [paged.size, Nat.zero_add]
        refine ⟨some (setRread ret buf n), some dir, error, at'',
          run_npfsReaddir_open live aux created user opened ran, .inr rfl, paged.within,
          ⟨fun none' => (by cases none'), ?_, ?_⟩, fun trusted _ => quiet trusted,
          fun none' => (by cases none')⟩
        · rintro rc' ⟨⟩
          exact (setRread_type ret buf n).trans type
        · rintro rc' ⟨⟩
          rw [bytes, written, ← size]
          exact ⟨entries, rfl, below, paged.taken, paged.full⟩
      · exact ⟨none, some dir, some e, at'', run_npfsReaddir_open live aux created user opened ran,
          .inr rfl, bound, ⟨fun _ => .inr unknown, fun rc member => (by cases member),
            fun rc member => (by cases member)⟩, fun _ some' => (by cases some'),
          fun _ none' => (by cases none')⟩

end Call

/-! ## A listing -/

/-- A reply: what was asked for, and the bytes that have come, unless it is an error. -/
structure Page where
  offset : UInt64
  count : UInt32
  bytes : Option (List UInt8)

/-- The entries that a client finds in a reply. -/
def Page.entries (page : Page) : List Entry :=
  (page.bytes.bind fun bytes => Entry.parseAll bytes.length bytes).getD []

/-- What a client has received. -/
def received (pages : List Page) : List Entry := pages.flatMap Page.entries

/-- The cookie of the last entry. -/
def lastCookie (entries : List Entry) : UInt64 := (entries.getLast?.map (·.offset)).getD 0

/-- A connection, and the replies that have come one after another. -/
structure Listing where
  session : Streaming
  pages : List Page

/-- A call with an offset and a count. -/
def Listing.call (d : HostDir) (u : Ufssrv) (fid : FidPtr) (l : Listing)
    (asked : UInt64 × UInt32) : Option Listing :=
  let (rc, session) := (npfsReaddir fid asked.1 asked.2).run (d.execOp u) l.session
  some ⟨session, l.pages ++ [⟨asked.1, asked.2, rc.map readBytes⟩]⟩

/-- The listing goes on where it has got to, with room for the next entry. -/
def Listing.Follows (d : HostDir) (f : Fid) (l : Listing) (asked : UInt64 × UInt32) : Prop :=
  asked.1 = lastCookie (received l.pages) ∧
    ∀ e ∈ ((d.ahead f 0).drop (received l.pages).length).head?, e.wire.length < asked.2.toNat

instance (l : Listing) (asked : UInt64 × UInt32) : Decidable (l.Follows d f asked) :=
  inferInstanceAs (Decidable (_ = _ ∧ _))

/-- A reply of `count` bytes can be allocated, and the host gives what it is asked for: the stream,
and what there is to know about each entry. -/
structure Clear (d : HostDir) (f : Fid) (count : UInt32) : Prop where
  small : count.toNat + 11 < 2 ^ 31
  opened : ¬ d.Closed f
  known : ∀ dirent ∈ d.entries, ¬ isDots dirent.name = true → ¬ d.Unknown f dirent

/-- Nothing has been asked for.  The stream may be anywhere. -/
structure Listing.Starts (d : HostDir) (u : Ufssrv) (fid : FidPtr) (f : Fid) (l : Listing) :
    Prop where
  aux : (l.session.fids.get fid).map (·.aux) = some (some f)
  owned : Owned u l.session fid
  within : l.session.world ≤ d.entries.length
  sound : l.session.fault = false
  pages : l.pages = []
  /-- All turns of the loop are followed. -/
  turns : d.entries.length < u.turns

/-- All entries come, each once and in order, and only the end is empty. -/
structure Listing.Right (d : HostDir) (f : Fid) (l : Listing) : Prop where
  sound : l.session.fault = false
  ordered : received l.pages <+: d.ahead f 0
  whole : ∀ page ∈ l.pages, ∃ bytes, page.bytes = some bytes ∧
    bytes = page.entries.flatMap Entry.wire ∧ bytes.length ≤ page.count.toNat
  ended : ∀ i page, l.pages[i]? = some page → page.bytes = some [] →
    received (l.pages.take i) = d.ahead f 0
  progress : min (d.ahead f 0).length l.pages.length ≤ (received l.pages).length

section Run

variable {l l' : Listing} {asked : UInt64 × UInt32} {entries rest : List Entry}

theorem received_snoc (pages : List Page) (page : Page) :
    received (pages ++ [page]) = received pages ++ page.entries := by
  simp [received]

theorem offset_ne_zero {e : Entry} (member : e ∈ d.ahead f at') : e.offset ≠ 0 := by
  obtain ⟨dirent, known, rfl⟩ := List.mem_map.mp member
  intro zero
  have first := (List.nodup_cons.mp d.apart).1
  rw [← zero] at first
  exact first (List.mem_map.mpr ⟨dirent, List.mem_of_mem_drop (List.mem_of_mem_filter known), rfl⟩)

/-- The offset is 0 only as long as nothing has come. -/
theorem lastCookie_eq_zero (front : entries <+: d.ahead f at') :
    lastCookie entries = 0 ↔ entries = [] := by
  constructor
  · intro zero
    by_contra some'
    rw [lastCookie, List.getLast?_eq_some_getLast some'] at zero
    exact offset_ne_zero (front.subset (List.getLast_mem some')) zero
  · rintro rfl
    rfl

/-- A client finds the entries of a reply. -/
theorem entries_of_bytes {offset : UInt64} {count : UInt32}
    (front : entries <+: d.ahead f at') :
    (⟨offset, count, some (entries.flatMap Entry.wire)⟩ : Page).entries = entries := by
  have short : ∀ e ∈ entries, e.name.length < 2 ^ 16 :=
    fun e member => (short_ahead (front.subset member)).trans (by decide)
  have enough : entries.length ≤ (entries.flatMap Entry.wire).length := by
    rw [List.length_flatMap]
    refine (List.length_le_sum_of_one_le (entries.map fun e => e.wire.length) ?_).trans' ?_
    · intro n member
      obtain ⟨e, -, rfl⟩ := List.mem_map.mp member
      rw [Entry.length_wire]
      omega
    · rw [List.length_map]
  rw [Page.entries, Option.bind_some, Entry.parseAll_wire short enough, Option.getD_some]

theorem wires_eq_nil : entries.flatMap Entry.wire = [] ↔ entries = [] := by
  cases entries with
  | nil => simp
  | cons e entries =>
      obtain ⟨bytes, split⟩ := @Entry.wire_cons e
      simp [split]

/-- What stays true of a listing: the stream is behind what has been received. -/
structure Listing.Keeps (d : HostDir) (u : Ufssrv) (fid : FidPtr) (f : Fid) (l : Listing) :
    Prop where
  right : l.Right d f
  aux : ∃ dir, (l.session.fids.get fid).map (·.aux) = some (some { f with dir }) ∧
    (dir = f.dir ∨ dir.isSome)
  owned : Owned u l.session fid
  within : l.session.world ≤ d.entries.length
  split : d.ahead f 0 = received l.pages ++
    d.ahead f (startOf (lastCookie (received l.pages)) l.session.world)

theorem after_aux {dir : Option UInt64} {error : Option Nperror}
    (aux : (s.fids.get fid).map (·.aux) = some (some f)) :
    ((after s fid f dir error at').fids.get fid).map (·.aux) = some (some { f with dir }) := by
  obtain ⟨g, live, -⟩ := Option.map_eq_some_iff.mp aux
  simp [after, live]

theorem after_owned {dir : Option UInt64} {error : Option Nperror}
    (owned : Owned u s fid) : Owned u (after s fid f dir error at') fid := by
  refine owned.imp_right fun owner => ?_
  obtain ⟨user, owner⟩ := Option.isSome_iff_exists.mp owner
  obtain ⟨g, live, known⟩ := Option.bind_eq_some_iff.mp owner
  simp [after, live, known]

theorem Listing.Starts.keeps (starts : l.Starts d u fid f) : l.Keeps d u fid f where
  right :=
    { sound := starts.sound
      ordered := by rw [starts.pages]; exact List.nil_prefix
      whole := by simp [starts.pages]
      ended := by simp [starts.pages]
      progress := by simp [starts.pages] }
  aux := ⟨f.dir, starts.aux, .inl rfl⟩
  owned := starts.owned
  within := starts.within
  split := by
    rw [starts.pages]
    rfl

/-- A page with the entries that are next is added. -/
theorem Listing.Right.page {session : Streaming} {page : Page} {at'' : ℕ}
    (right : l.Right d f) (sound : session.fault = false)
    (split : d.ahead f 0 = received l.pages ++ (page.entries ++ d.ahead f at''))
    (bytes : page.bytes = some (page.entries.flatMap Entry.wire))
    (size : (page.entries.flatMap Entry.wire).length ≤ page.count.toNat)
    (moves : page.entries = [] → d.ahead f at'' = []) :
    ({ session, pages := l.pages ++ [page] } : Listing).Right d f where
  sound := sound
  ordered := by
    rw [received_snoc, split, ← List.append_assoc]
    exact List.prefix_append _ _
  whole := by
    intro page' member
    rcases List.mem_append.mp member with earlier | last
    · exact right.whole page' earlier
    · obtain rfl := List.mem_singleton.mp last
      exact ⟨_, bytes, rfl, size⟩
  ended := by
    intro i page' found empty
    rcases Nat.lt_or_ge i l.pages.length with inside | behind
    · rw [List.getElem?_append_left inside] at found
      rw [List.take_append_of_le_length inside.le]
      exact right.ended i page' found empty
    · rw [List.getElem?_append_right behind] at found
      obtain ⟨at_last, rfl⟩ : i - l.pages.length = 0 ∧ page' = page := by
        cases is : i - l.pages.length with
        | zero =>
            rw [is] at found
            exact ⟨rfl, (Option.some.inj found).symm⟩
        | succ k =>
            rw [is] at found
            cases found
      rw [bytes] at empty
      have none' := wires_eq_nil.mp (Option.some.inj empty)
      rw [List.take_left' (by omega), split, none', moves none', List.append_nil, List.append_nil]
  progress := by
    have earlier := right.progress
    rw [received_snoc, List.length_append, List.length_append, List.length_singleton]
    by_cases none' : page.entries = []
    · have all : (d.ahead f 0).length = (received l.pages).length := by
        rw [split, none', moves none', List.append_nil, List.append_nil]
      omega
    · have some' := List.length_pos_iff.mpr none'
      omega

theorem Listing.call_eq {offset : UInt64} {count : UInt32} {rc : Option Npfcall}
    (ran : (npfsReaddir fid offset count).run (d.execOp u) l.session = (rc, s)) :
    l.call d u fid (offset, count) =
      some ⟨s, l.pages ++ [⟨offset, count, rc.map readBytes⟩]⟩ := by
  unfold Listing.call
  rw [ran]

theorem Listing.Keeps.call (keeps : l.Keeps d u fid f) (turns : d.entries.length < u.turns)
    (follows : l.Follows d f asked) (clear : d.Clear f asked.2)
    (taken : l.call d u fid asked = some l') : l'.Keeps d u fid f := by
  obtain ⟨offset, count⟩ := asked
  obtain ⟨rfl, room⟩ := follows
  obtain ⟨right, ⟨dir, aux, opened⟩, owned, within, split⟩ := keeps
  obtain ⟨rc, dir', error, at'', ran, opened', within', called, -, -⟩ :=
    @run_npfsReaddir d u l.session fid { f with dir } (lastCookie (received l.pages)) count aux owned
      within turns clear.small
  have stays : dir' = f.dir ∨ dir'.isSome := by
    rcases opened' with rfl | opened'
    · exact opened
    · exact .inr opened'
  have open' : ¬ d.Closed { f with dir } := by
    rintro ⟨none', refused⟩
    rcases opened with rfl | opened
    · exact clear.opened ⟨none', refused⟩
    · rw [show dir = none from none'] at opened
      cases opened
  cases rc with
  | none =>
      rcases called.failed rfl with closed | ⟨dirent, member, proper, unknown⟩
      · exact absurd closed open'
      · exact absurd unknown (clear.known dirent member proper)
  | some rc =>
      obtain ⟨entries, bytes, size, next, full⟩ := called.listed rc rfl
      change d.ahead f (startOf (lastCookie (received l.pages)) l.session.world) =
        entries ++ d.ahead f at'' at next
      have front : entries <+: d.ahead f (startOf (lastCookie (received l.pages)) l.session.world) :=
        next ▸ List.prefix_append _ _
      have found : (⟨lastCookie (received l.pages), count, some (readBytes rc)⟩ : Page).entries =
          entries := by
        rw [bytes]
        exact entries_of_bytes front
      obtain rfl : l' = ⟨after l.session fid { f with dir } dir' error at'',
          l.pages ++ [⟨lastCookie (received l.pages), count, some (readBytes rc)⟩]⟩ := by
        rw [Listing.call_eq ran] at taken
        exact (Option.some.inj taken).symm
      have split' : d.ahead f 0 = received l.pages ++ (entries ++ d.ahead f at'') := by
        rw [← next]
        exact split
      refine ⟨?_, ⟨dir', ?_, stays⟩, after_owned owned, within', ?_⟩
      · refine @Listing.Right.page d f l _ _ at'' right right.sound ?_ ?_ ?_ ?_
        · rw [found]
          exact split'
        · rw [found, ← bytes]
        · rw [found, ← bytes]
          exact size
        · intro none'
          rw [found] at none'
          rw [bytes, none'] at full
          have remaining : (d.ahead f 0).drop (received l.pages).length = d.ahead f at'' := by
            rw [split', none', List.nil_append, List.drop_left]
          rw [remaining] at room
          cases ahead : d.ahead f at'' with
          | nil => rfl
          | cons e rest =>
              have fits : e.wire.length < count.toNat := room e (by rw [ahead]; rfl)
              have tight : count.toNat ≤ 0 + e.wire.length :=
                full e (by
                  change e ∈ (d.ahead f at'').head?
                  rw [ahead]
                  rfl)
              omega
      · exact after_aux aux
      · rw [received_snoc, found]
        by_cases none' : received l.pages ++ entries = []
        · rw [none']
          rfl
        · have later : startOf (lastCookie (received l.pages ++ entries)) at'' = at'' := by
            have front : received l.pages ++ entries <+: d.ahead f 0 := by
              rw [split', ← List.append_assoc]
              exact List.prefix_append _ _
            exact if_neg (mt (lastCookie_eq_zero front).mp none')
          change d.ahead f 0 = received l.pages ++ entries ++
            d.ahead f (startOf (lastCookie (received l.pages ++ entries)) at'')
          rw [later, List.append_assoc]
          exact split'

/-- The listing is right in every run whose calls are clear. -/
theorem entries_of_run {l₀ : Listing} (starts : l₀.Starts d u fid f)
    (run : Transition.Reaches (Listing.call d u fid)
      (fun l asked => l.Follows d f asked ∧ d.Clear f asked.2) l₀ l) : l.Right d f :=
  (Transition.Reaches.invariant (Listing.Keeps d u fid f) starts.keeps
    (fun keeps allowed taken => keeps.call starts.turns allowed.1 allowed.2 taken) run).right

end Run

/-! ### A directory with two files -/

/-- A directory with two files. -/
def twoFiles : HostDir where
  entries := [(".", 1), ("..", 2), ("a", 3), ("b", 4)].map fun entry =>
    ⟨7, entry.2, 8, cstr entry.1⟩
  answer call := (hostSingle.exec call).1
  heap := ⟨default, fun _ => 0⟩
  named := by decide
  apart := by decide

/-- A server that follows as many turns. -/
def following : Ufssrv := { Ufssrv.single with turns := 5 }

/-- The directory is open. -/
def openFid : Fid := { npfsFidalloc (cstr "/") with dir := some 0 }

/-- A connection with the fid 0, of the type of a directory. -/
def streaming : Streaming where
  srv := { msize := 8216, dotu := true, dotl := true, auth := none, fiddestroy := true }
  conn := { msize := 8216, dotu := true, dotl := true }
  fids := Cells.empty.push
    { (Npfid.new 0 : Npfid Fid) with refcount := 1, omode := 0, type := Qtdir, aux := some openFid }
  pool := Function.update (fun _ => none) 0 (some 0)
  users := fun _ => 0
  error := none
  reqFid := none
  world := 0
  fault := false

theorem starts_twoFiles : ({ session := streaming, pages := [] } : Listing).Starts twoFiles
    following 0 openFid where
  aux := rfl
  owned := .inl rfl
  within := by decide
  sound := rfl
  pages := rfl
  turns := by decide

theorem clear_twoFiles {count : UInt32} (small : count.toNat + 11 < 2 ^ 31) :
    twoFiles.Clear openFid count where
  small := small
  opened closed := by cases closed.1
  known := by
    rintro dirent member - unknown
    have typed : ∀ dirent ∈ twoFiles.entries, dirent.type ≠ DT_UNKNOWN := by decide
    exact typed dirent member unknown.1

/-- A count that is too large for a packet gets an empty reply. -/
theorem not_entries_of_run : ¬ ∀ (d : HostDir) (u : Ufssrv) (fid : FidPtr) (f : Fid)
    (l₀ l : Listing), l₀.Starts d u fid f →
      Transition.Reaches (Listing.call d u fid) (fun l asked => l.Follows d f asked) l₀ l →
        l.Right d f := by
  intro all
  have played : (Transition.play (Listing.call twoFiles following 0) (fun _ _ => True)
      ⟨streaming, []⟩ [(0, 0xFFFFFFFF)]).map (fun l => l.pages.map (·.bytes)) = some [some []] := by
    decide +kernel
  obtain ⟨l, is, empty⟩ := Option.map_eq_some_iff.mp played
  have taken : Listing.call twoFiles following 0 ⟨streaming, []⟩ (0, 0xFFFFFFFF) = some l := by
    simpa [Transition.play] using is
  have follows : (⟨streaming, []⟩ : Listing).Follows twoFiles openFid (0, 0xFFFFFFFF) := by
    refine ⟨rfl, ?_⟩
    decide +kernel
  have right := all twoFiles following 0 openFid _ l starts_twoFiles (.step .start follows taken)
  obtain ⟨page, pages⟩ : ∃ page, l.pages = [page] := by
    refine List.length_eq_one_iff.mp ?_
    simpa using congrArg List.length empty
  rw [pages] at empty
  have ended := right.ended 0 page (by rw [pages]; rfl) (List.cons.inj empty).1
  have shown : (twoFiles.ahead openFid 0).length = 2 := by decide +kernel
  rw [← ended] at shown
  cases shown

/-- With counts for one entry, both come one after the other. -/
theorem entries_of_run_three : ∃ l : Listing, l.pages.length = 3 ∧ l.Right twoFiles openFid := by
  have played : (Transition.play (Listing.call twoFiles following 0)
      (fun l asked => l.Follows twoFiles openFid asked ∧ asked.2.toNat + 11 < 2 ^ 31)
      ⟨streaming, []⟩ [(0, 26), (3, 26), (4, 26)]).map (·.pages.length) = some 3 := by
    decide +kernel
  obtain ⟨l, is, length⟩ := Option.map_eq_some_iff.mp played
  exact ⟨l, length, entries_of_run starts_twoFiles ((Transition.reaches_of_play is).mono
    fun l asked allowed => ⟨allowed.1, clear_twoFiles allowed.2⟩)⟩

end HostDir

end Ufs

end Npfs
