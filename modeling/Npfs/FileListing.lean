import Npfs.LinkedChain
import Npfs.Transition
import Npfs.XattrValue

/-!
# Listing the children of a file

`npfile_read` of `libnpfs/file.c` on a directory whose children do not change.  The fid keeps the
first child that has not been returned, with a reference to it, from one request to the next.
-/

namespace Npfs.FileListing

open LinkedChain

/-- An `Npfile *`. -/
abbrev FilePtr := ℕ

/-- An `Npuser`, as `file2wstat` reads it. -/
structure Npuser where
  uname : CStr
  uid : UInt32

/-- An `Npgroup`. -/
structure Npgroup where
  gname : CStr
  gid : UInt32

/-- An `Npfile`, as `file2wstat` reads it. -/
structure Npfile where
  qid : Npqid
  mode : UInt32
  atime : UInt32
  mtime : UInt32
  length : UInt64
  name : CStr
  uid : Npuser
  gid : Npgroup
  muid : Npuser
  extension : Option CStr

/-- `file2wstat`. -/
def file2wstat (file : Npfile) : Npwstat where
  type := 0
  dev := 0
  qid := file.qid
  mode := file.mode
  atime := file.atime
  mtime := file.mtime
  length := file.length
  name := some file.name
  uid := some file.uid.uname
  gid := some file.gid.gname
  muid := some file.muid.uname
  extension := file.extension
  nUid := file.uid.uid
  nGid := file.gid.gid
  nMuid := file.muid.uid

/-- `npfile_incref`. -/
def npfileIncref (refcount : FilePtr → ℤ) : Option FilePtr → FilePtr → ℤ
  | none => refcount
  | some f => Function.update refcount f (refcount f + 1)

/-- `npfile_decref` of a file with other references. -/
def npfileDecref (refcount : FilePtr → ℤ) : Option FilePtr → FilePtr → ℤ
  | none => refcount
  | some f => Function.update refcount f (refcount f - 1)

/-- A directory and what its operations return. -/
structure Dir where
  file : FilePtr → Npfile
  /-- `dops->first`, which takes a reference. -/
  first : Option FilePtr
  /-- `dops->next`, which takes a reference. -/
  next : FilePtr → Option FilePtr
  /-- `fid->conn->dotu`. -/
  dotu : Bool

/-- The fields of the `Npfilefid` of a directory, the references to files, and the replies since the
listing was last read from its start, each with the count that was asked for. -/
structure Listing where
  dirent : Option FilePtr
  diroffset : UInt64
  refcount : FilePtr → ℤ
  replies : List (UInt32 × List UInt8)

/-- A `Tread` of the directory, and the memory of its reply. -/
structure Read where
  offset : UInt64
  count : UInt32
  heap : Malloc

namespace Dir

variable (d : Dir)

/-- The loop of `npfile_read`: the bytes behind `ret->data`, their number, and the child that it
ends at.  No turn writes less than one byte, so `count` turns are enough. -/
def readLoop (count : ℕ) : (turns : ℕ) → (buf : List UInt8) → (n : ℕ) → (cf : Option FilePtr) →
    (refcount : FilePtr → ℤ) → List UInt8 × ℕ × Option FilePtr × (FilePtr → ℤ)
  | 0, buf, n, cf, refcount => (buf, n, cf, refcount)
  | _ + 1, buf, n, none, refcount => (buf, n, none, refcount)
  | turns + 1, buf, n, some cf, refcount =>
    if n < count then
      let (i, mem) := npSerializeStat (file2wstat (d.file cf))
        ((buf.drop n).take (count - n - 1)) d.dotu
      let buf := store buf n mem
      if i = 0 then (buf, n, some cf, refcount)
      else
        let cf1 := d.next cf
        readLoop count turns buf (n + i) cf1 (npfileDecref (npfileIncref refcount cf1) (some cf))
    else (buf, n, some cf, refcount)

/-- The listing goes back to its start when the offset is 0. -/
def restart (s : Listing) (offset : UInt64) : Listing :=
  if offset = 0 then
    { s with
      dirent := d.first
      refcount := npfileIncref (npfileDecref s.refcount s.dirent) d.first
      diroffset := 0
      replies := [] }
  else s

/-- `npfile_read`, which follows `NULL` if there is no memory for its reply. -/
def npfileRead (s : Listing) (read : Read) : Option (Npfcall × Listing) :=
  (npAllocRread read.count read.heap).map fun ret =>
    let s := d.restart s read.offset
    let (buf, n, cf, refcount) := d.readLoop read.count.toNat read.count.toNat
      ((ret.pkt.drop 11).take read.count.toNat) 0 s.dirent s.refcount
    (Ufs.setRread ret buf n,
      { s with dirent := cf, refcount, diroffset := s.diroffset + .ofNat n })

/-- A request is answered. -/
def step (s : Listing) (read : Read) : Option Listing :=
  (d.npfileRead s read).map fun (rc, s) =>
    { s with replies := s.replies ++ [(read.count, Ufs.readBytes rc)] }

/-! ## What it is for -/

/-- The records of children. -/
def records (children : List FilePtr) : List UInt8 :=
  wires d.dotu (children.map fun c => file2wstat (d.file c))

/-- The size of the record of a child. -/
def size (c : FilePtr) : ℕ := 2 + sizeWstat (file2wstat (d.file c)) d.dotu

/-- Each reply holds the records of the next children, as many as its count has room for with a byte
to spare, and the fid has a reference to the child that comes next. -/
structure Listed (children : List FilePtr) (refcount : FilePtr → ℤ) (s : Listing) : Prop where
  parts : ∃ (parts : List (List FilePtr)) (rest : List FilePtr), children = parts.flatten ++ rest ∧
    s.replies.map (·.2) = parts.map d.records ∧ s.dirent = rest.head?
  short : ∀ reply ∈ s.replies, reply.2.length ≤ reply.1.toNat
  full : ∀ reply ∈ s.replies.getLast?, ∀ c ∈ s.dirent,
    reply.1.toNat ≤ reply.2.length + d.size c
  refs : s.refcount = npfileIncref refcount s.dirent

/-- Where a request starts. -/
def cursor (s : Listing) (read : Read) : Option FilePtr :=
  if read.offset = 0 then d.first else s.dirent

/-- A request reads from the start of the directory, or goes on. -/
def Follows (s : Listing) (read : Read) : Prop := read.offset = 0 ∨ read.offset = s.diroffset

/-- For no child that comes next, and whose `muid` has an empty name, is there room for all but the
last two bytes of its record. -/
def Clear (s : Listing) (read : Read) : Prop :=
  read.count.toNat + 11 < 2 ^ 31 ∧ ∀ front c back,
    Path d.next (d.cursor s read) (front ++ c :: back) → d.dotu = false →
      (d.file c).muid.uname.bytes = [] → (d.records front).length + d.size c ≠ read.count.toNat + 1

/-- A fid that has been opened. -/
def start (refcount : FilePtr → ℤ) : Listing where
  dirent := none
  diroffset := 0
  refcount := refcount
  replies := []

/-! ## The loop -/

variable {d : Dir} {count turns n : ℕ} {buf : List UInt8} {cf : Option FilePtr}
  {refcount : FilePtr → ℤ} {rest : List FilePtr}

theorem records_cons (c : FilePtr) (children : List FilePtr) : d.records (c :: children) =
    (RawStat.ofWstat (file2wstat (d.file c)) d.dotu).wire d.dotu [] ++ d.records children := rfl

theorem length_records_cons (c : FilePtr) (children : List FilePtr) :
    (d.records (c :: children)).length = d.size c + (d.records children).length := by
  rw [records_cons, List.length_append, wire_length]
  rfl

/-- The reference moves on with the cursor. -/
theorem moved (c : FilePtr) (cf1 : Option FilePtr) :
    npfileDecref (npfileIncref (npfileIncref refcount (some c)) cf1) (some c) =
      npfileIncref refcount cf1 := by
  cases cf1 with
  | none => simp [npfileIncref, npfileDecref]
  | some c' =>
      funext f
      simp only [npfileIncref, npfileDecref, Function.update_apply]
      split_ifs <;> grind -linarith

/-- A turn. -/
theorem readLoop_turn {c : FilePtr} {i : ℕ} {mem : List UInt8} (inside : n < count)
    (written : npSerializeStat (file2wstat (d.file c)) ((buf.drop n).take (count - n - 1)) d.dotu =
      (i, mem)) : d.readLoop count (turns + 1) buf n (some c) refcount =
        if i = 0 then (store buf n mem, n, some c, refcount)
        else d.readLoop count turns (store buf n mem) (n + i) (d.next c)
          (npfileDecref (npfileIncref refcount (d.next c)) (some c)) := by
  simp only [readLoop, if_pos inside, written]

/-- What the loop leaves behind. -/
structure Looped (d : Dir) (rest : List FilePtr) (refcount : FilePtr → ℤ) (count n : ℕ)
    (front : List UInt8) (result : List UInt8 × ℕ × Option FilePtr × (FilePtr → ℤ))
    (part back : List FilePtr) : Prop where
  split : rest = part ++ back
  number : result.2.1 = n + (d.records part).length
  cursor : result.2.2.1 = back.head?
  refs : result.2.2.2 = npfileIncref refcount back.head?
  content : result.1.take result.2.1 = front ++ d.records part
  inside : result.2.1 ≤ result.1.length
  short : n ≤ count → result.2.1 ≤ count
  full : ∀ c ∈ back.head?, count ≤ result.2.1 + d.size c

/-- By induction on the children that come next. -/
theorem readLoop_spec (path : Path d.next cf rest)
    (fits : ∀ c ∈ rest, d.size c < 2 ^ 16 + 2)
    (clear : ∀ front c back, rest = front ++ c :: back → d.dotu = false →
      (d.file c).muid.uname.bytes = [] → n + (d.records front).length + d.size c ≠ count + 1)
    (enough : count ≤ n + turns) (most : n ≤ buf.length) (room : count ≤ buf.length + 1) :
    ∃ part back, d.Looped rest refcount count n (buf.take n)
      (d.readLoop count turns buf n cf (npfileIncref refcount cf)) part back := by
  induction path generalizing turns n buf with
  | nil =>
      have ended : d.readLoop count turns buf n none (npfileIncref refcount none) =
          (buf, n, none, refcount) := by
        cases turns <;> rfl
      rw [ended]
      exact ⟨[], [], rfl, rfl, rfl, rfl, (List.append_nil _).symm, most, id, by simp⟩
  | @cons c rest tail ih =>
      have stopped {buf' : List UInt8} (kept : buf'.take n = buf.take n) (most' : n ≤ buf'.length)
          (full : count ≤ n + d.size c) (stop : d.readLoop count turns buf n (some c)
            (npfileIncref refcount (some c)) = (buf', n, some c, npfileIncref refcount (some c))) :
          ∃ part back, d.Looped (c :: rest) refcount count n (buf.take n)
            (d.readLoop count turns buf n (some c) (npfileIncref refcount (some c))) part back := by
        rw [stop]
        exact ⟨[], c :: rest, rfl, rfl, rfl, rfl, kept.trans (List.append_nil _).symm, most', id,
          fun c' here => by rw [← Option.some.inj here]; exact full⟩
      by_cases inside : n < count
      · obtain ⟨turns, rfl⟩ := Nat.exists_eq_succ_of_ne_zero (show turns ≠ 0 by omega)
        have fit : sizeWstat (file2wstat (d.file c)) d.dotu < 2 ^ 16 := by
          have fit := fits c List.mem_cons_self
          rw [size] at fit
          omega
        have window : ((buf.drop n).take (count - n - 1)).length = count - n - 1 := by
          rw [List.length_take_of_le]
          rw [List.length_drop]
          omega
        have sized : d.size c = 2 + sizeWstat (file2wstat (d.file c)) d.dotu := rfl
        by_cases whole : d.size c ≤ count - n - 1
        · obtain ⟨mem, written, length, placed⟩ :=
            npSerializeStat_stored fit (whole.trans window.ge)
          have kept : (store buf n mem).length = buf.length := length_store (by omega)
          have front : (store buf n mem).take (n + d.size c) = buf.take n ++ d.records [c] := by
            have one : d.records [c] = mem.take (d.size c) := by
              rw [records_cons, List.prefix_iff_eq_take.mp placed, wire_length]
              exact List.append_nil _
            rw [one, take_store_part most (by omega)]
          rw [readLoop_turn inside written, if_neg (by omega), ← sized, moved]
          have clear' (front : List FilePtr) (c' : FilePtr) (back : List FilePtr)
              (split : rest = front ++ c' :: back) (plain : d.dotu = false)
              (empty : (d.file c').muid.uname.bytes = []) :
              n + d.size c + (d.records front).length + d.size c' ≠ count + 1 := by
            have other := clear (c :: front) c' back (by rw [split]; rfl) plain empty
            rw [length_records_cons] at other
            omega
          obtain ⟨part, back, looped⟩ := @ih turns (n + d.size c) (store buf n mem)
            (fun c' here => fits c' (List.mem_cons_of_mem _ here)) clear' (by omega) (by omega)
            (by omega)
          obtain ⟨split, number, cursor, refs, content, inside', short, full⟩ := looped
          refine ⟨c :: part, back, by rw [split]; rfl, ?_, cursor, refs, ?_, inside', fun _ => ?_,
            full⟩
          · rw [number, length_records_cons, Nat.add_assoc]
          · rw [content, front, List.append_assoc]
            simp only [records_cons, List.append_assoc]
            rfl
          · exact short (by omega)
        · rcases npSerializeStat_short fit (window.trans_lt (not_le.mp whole)) with
            ⟨none', -⟩ | ⟨⟨plain, empty, exact'⟩, -⟩
          · obtain ⟨mem, written⟩ : ∃ mem, npSerializeStat (file2wstat (d.file c))
                ((buf.drop n).take (count - n - 1)) d.dotu = (0, mem) :=
              ⟨_, Prod.ext none' rfl⟩
            have same := @take_store_part buf mem n 0 most (Nat.zero_le _)
            refine stopped (same.trans (List.append_nil _)) (le_length_store most) (by omega) ?_
            rw [readLoop_turn inside written, if_pos rfl]
          · refine absurd ?_ (clear [] c rest rfl plain empty)
            simp only [records, List.map_nil, wires, List.flatMap_nil, List.length_nil]
            omega
      · refine stopped rfl most (by omega) ?_
        cases turns with
        | zero => rfl
        | succ turns => exact if_neg inside

/-! ## A request -/

/-- The rest of a chain starts with its first element. -/
theorem path_rest {start : Option FilePtr} {front : List FilePtr}
    (path : Path d.next start (front ++ rest)) : Path d.next rest.head? rest := by
  cases rest with
  | nil => exact .nil
  | cons c back => exact .cons path.suffix

theorem returned (cf : Option FilePtr) : npfileDecref (npfileIncref refcount cf) cf = refcount := by
  cases cf with
  | none => rfl
  | some c => simp [npfileIncref, npfileDecref]

variable {s s' : Listing} {read : Read} {children : List FilePtr}

/-- Where a request goes on: some of the children have been returned. -/
structure Listed.At (children : List FilePtr) (refcount : FilePtr → ℤ) (s : Listing)
    (parts : List (List FilePtr)) (rest : List FilePtr) : Prop where
  split : children = parts.flatten ++ rest
  replies : s.replies.map (·.2) = parts.map d.records
  cursor : s.dirent = rest.head?
  short : ∀ reply ∈ s.replies, reply.2.length ≤ reply.1.toNat
  refs : s.refcount = npfileIncref refcount s.dirent

/-- A request goes on where the last one has ended, or it starts again. -/
theorem restart_at (path : Path d.next d.first children)
    (sound : s = start refcount ∨ d.Listed children refcount s) (follows : Follows s read) :
    ∃ parts rest, Listed.At (d := d) children refcount (d.restart s read.offset) parts rest ∧
      Path d.next (d.cursor s read) rest ∧ (d.restart s read.offset).dirent = d.cursor s read := by
  have refs : s.refcount = npfileIncref refcount s.dirent := by
    rcases sound with rfl | listed
    · rfl
    · exact listed.refs
  by_cases zero : read.offset = 0
  · rw [restart, cursor, if_pos zero, if_pos zero]
    refine ⟨[], children, ⟨rfl, rfl, path.start_eq, fun _ none' => absurd none' List.not_mem_nil, ?_⟩,
      path, rfl⟩
    change npfileIncref (npfileDecref s.refcount s.dirent) d.first = _
    rw [refs, returned]
  · rw [restart, cursor, if_neg zero, if_neg zero]
    rcases sound with rfl | listed
    · exact absurd (follows.resolve_left zero) zero
    · obtain ⟨parts, rest, split, replies, head⟩ := listed.parts
      rw [split] at path
      exact ⟨parts, rest, ⟨split, replies, head, listed.short, refs⟩, head ▸ path_rest path, rfl⟩

/-- A request that meets the condition keeps the listing right. -/
theorem listed_step (path : Path d.next d.first children)
    (fits : ∀ c ∈ children, d.size c < 2 ^ 16 + 2)
    (sound : s = start refcount ∨ d.Listed children refcount s) (follows : Follows s read)
    (clear : d.Clear s read) (taken : d.step s read = some s') : d.Listed children refcount s' := by
  obtain ⟨parts, rest, ⟨split, replies, cursor, short, refs⟩, onward, here⟩ :=
    restart_at path sound follows
  obtain ⟨small, clear⟩ := clear
  obtain ⟨ret, created, reserved⟩ := @npAllocRread_reserved read.count read.heap small
  obtain ⟨part, back, looped⟩ := @readLoop_spec d read.count.toNat read.count.toNat 0
    ((ret.pkt.drop 11).take read.count.toNat) (d.cursor s read) refcount rest onward
    (fun c mem => fits c (by rw [split]; exact List.mem_append_right _ mem))
    (fun front c back split' plain empty => by
      rw [split'] at onward
      rw [Nat.zero_add]
      exact clear front c back onward plain empty)
    (Nat.zero_add _).ge (Nat.zero_le _) (by rw [reserved.window]; exact Nat.le_succ _)
  rw [← here, ← refs] at looped
  obtain ⟨⟨buf, n, cf, moved⟩, ran⟩ : ∃ result, d.readLoop read.count.toNat read.count.toNat
      ((ret.pkt.drop 11).take read.count.toNat) 0 (d.restart s read.offset).dirent
        (d.restart s read.offset).refcount = result := ⟨_, rfl⟩
  rw [ran] at looped
  obtain ⟨split', number, cursor', refs', content, inside, few, full⟩ := looped
  simp only [Nat.zero_add] at number cursor' refs' content inside few full
  have few := few (Nat.zero_le _)
  have bytes : Ufs.readBytes (Ufs.setRread ret buf n) = d.records part := by
    rw [Ufs.readBytes_setRread reserved (by omega) inside, content]
    rfl
  have after : s' = { d.restart s read.offset with
      dirent := cf
      refcount := moved
      diroffset := (d.restart s read.offset).diroffset + .ofNat n
      replies := (d.restart s read.offset).replies ++ [(read.count, d.records part)] } := by
    rw [step, npfileRead, created, Option.map_some, Option.map_some] at taken
    simp only [ran, bytes] at taken
    exact (Option.some.inj taken).symm
  rw [after]
  constructor
  · refine ⟨parts ++ [part], back, ?_, ?_, cursor'⟩
    · rw [split, split', List.flatten_append, List.flatten_singleton, List.append_assoc]
    · rw [List.map_append, replies, List.map_append]
      rfl
  · intro reply member
    rcases List.mem_append.mp member with old | new
    · exact short reply old
    · obtain rfl := List.mem_singleton.mp new
      exact number ▸ few
  · intro reply last c next
    rw [List.getLast?_concat] at last
    obtain rfl := Option.some.inj last
    rw [← number]
    exact full c (cursor' ▸ next)
  · exact refs'.trans (by rw [← cursor'])

/-- The request is answered. -/
theorem isSome_step (small : read.count.toNat + 11 < 2 ^ 31) : (d.step s read).isSome := by
  obtain ⟨ret, created, -⟩ := @npAllocRread_reserved read.count read.heap small
  rw [step, npfileRead, created]
  rfl

/-- Every reply of a listing holds complete records of the children that come next, if each request
meets the condition. -/
theorem returned_of_run (path : Path d.next d.first children)
    (fits : ∀ c ∈ children, d.size c < 2 ^ 16 + 2) (started : s.replies ≠ [])
    (run : Transition.Reaches d.step (fun s read => Follows s read ∧ d.Clear s read)
      (start refcount) s) : d.Listed children refcount s := by
  have sound : s = start refcount ∨ d.Listed children refcount s :=
    run.invariant (fun s => s = start refcount ∨ d.Listed children refcount s) (.inl rfl)
      fun sound guard taken => .inr (listed_step path fits sound guard.1 guard.2 taken)
  refine sound.resolve_left fun new => started ?_
  rw [new]
  rfl

/-! ## A directory with two files -/

/-- A file of a user without a name. -/
def nameless : Npfile where
  qid := default
  mode := 0
  atime := 0
  mtime := 0
  length := 0
  name := cstr "a"
  uid := ⟨cstr "", 0⟩
  gid := ⟨cstr "", 0⟩
  muid := ⟨cstr "", 0⟩
  extension := none

/-- A directory with two such files. -/
def twoFiles (dotu : Bool) : Dir where
  file _ := nameless
  first := some 0
  next c := if c = 0 then some 1 else none
  dotu := dotu

theorem path_twoFiles {dotu : Bool} : Path (twoFiles dotu).next (twoFiles dotu).first [0, 1] :=
  .cons (.cons .nil)

theorem size_twoFiles (c : FilePtr) : (twoFiles false).size c = 50 := by
  change (twoFiles false).size 0 = 50
  decide +kernel

/-- A request for `count` bytes. -/
def readAt (offset : UInt64) (count : UInt32) : Read := ⟨offset, count, ⟨default, fun _ => 0⟩⟩

instance (s : Listing) (read : Read) : Decidable (Follows s read) :=
  inferInstanceAs (Decidable (_ ∨ _))

/-- With 49 bytes, the record of the first file is returned without its last two bytes. -/
theorem not_returned_of_run : ¬ ∀ (d : Dir) (children : List FilePtr) (refcount : FilePtr → ℤ)
    (s : Listing), Path d.next d.first children → (∀ c ∈ children, d.size c < 2 ^ 16 + 2) →
      s.replies ≠ [] → Transition.Reaches d.step
        (fun s read => Follows s read ∧ read.count.toNat + 11 < 2 ^ 31) (start refcount) s →
          d.Listed children refcount s := by
  intro all
  have played : (Transition.play (twoFiles false).step
      (fun s read => Follows s read ∧ read.count.toNat + 11 < 2 ^ 31) (start fun _ => 1)
        [readAt 0 49]).map (fun s => s.replies.map (·.2.length)) = some [48] := by
    decide +kernel
  obtain ⟨s, run, lengths⟩ := Option.map_eq_some_iff.mp played
  have started : s.replies ≠ [] := by
    intro none'
    rw [none'] at lengths
    cases lengths
  have fits : ∀ c ∈ ([0, 1] : List FilePtr), (twoFiles false).size c < 2 ^ 16 + 2 := by
    intro c _
    rw [size_twoFiles]
    decide
  obtain ⟨parts, rest, split, replies, -⟩ := (all (twoFiles false) [0, 1] (fun _ => 1) s
    path_twoFiles fits started (Transition.reaches_of_play run)).parts
  have sizes : parts.map (fun part => ((twoFiles false).records part).length) = [48] := by
    have same := congrArg (List.map List.length) replies
    rw [List.map_map, List.map_map] at same
    exact same.symm.trans lengths
  obtain ⟨part, more, rfl, size, -⟩ := List.map_eq_cons_iff.mp sizes
  cases part with
  | nil => cases size
  | cons c part =>
      rw [length_records_cons, size_twoFiles] at size
      omega

/-- In 9P2000.u, one record at a time. -/
theorem returned_of_run_twice : ∃ s : Listing, s.replies.map (·.2.length) = [64, 64] ∧
    (twoFiles true).Listed [0, 1] (fun _ => 1) s := by
  have played : (Transition.play (twoFiles true).step
      (fun s read => Follows s read ∧ read.count.toNat + 11 < 2 ^ 31) (start fun _ => 1)
        [readAt 0 70, readAt 64 70]).map (fun s => s.replies.map (·.2.length)) =
          some [64, 64] := by
    decide +kernel
  obtain ⟨s, run, lengths⟩ := Option.map_eq_some_iff.mp played
  have clear (s : Listing) (read : Read)
      (guard : Follows s read ∧ read.count.toNat + 11 < 2 ^ 31) :
      Follows s read ∧ (twoFiles true).Clear s read :=
    ⟨guard.1, guard.2, fun _ _ _ _ plain => by cases plain⟩
  have fits : ∀ c ∈ ([0, 1] : List FilePtr), (twoFiles true).size c < 2 ^ 16 + 2 := by
    decide +kernel
  refine ⟨s, lengths, returned_of_run path_twoFiles fits (fun none' => ?_)
    ((Transition.reaches_of_play run).mono clear)⟩
  rw [none'] at lengths
  cases lengths

end Dir

end Npfs.FileListing
