import Npfs.Fid

/-!
# The qid paths of a mailbox

`fs/mboxfs.c`: the directory of a message has the index of the message in the upper half of its
path, its files have a small number in the lowest bits, and the parts of a multipart have their
index shifted to the left by a number of bits that depends on the enclosing levels.
-/

namespace Npfs

namespace Mboxfs

/-- `struct mailmime`, by `mm_type`. -/
inductive Mailmime where
  /-- `MAILMIME_NONE`. -/
  | none
  | single
  /-- With `mm_mp_list`. -/
  | multiple (parts : List Mailmime)
  /-- With `mm_msg_mime`. -/
  | message (mime : Mailmime)

/-- The small numbers of the files. -/
def QRAW : UInt64 := 1
def QRAWBODY : UInt64 := 2
def QRAWHEADER : UInt64 := 3
def QSUBJECT : UInt64 := 4
def QTO : UInt64 := 5
def QCC : UInt64 := 6
def QFROM : UInt64 := 7
def QBODY : UInt64 := 8
def QDATE : UInt64 := 9
def QREPLYTO : UInt64 := 11
def QTYPE : UInt64 := 12

/-- A file with `name` and `qid.path`. -/
structure Npfile where
  name : CStr
  path : UInt64

/-- `sizebits`. -/
def sizebits (size : ℕ) : ℕ :=
  if size >>> 1 = 0 then 0 else sizebits (size >>> 1) + 1
termination_by size
decreasing_by
  rw [Nat.shiftRight_one] at *
  omega

/-- `i<<n` of two `int`s, as a `u64`.  Processors take the lowest five bits of `n`. -/
def shl (i n : ℕ) : UInt64 := (Int32.ofNat i <<< Int32.ofNat n).toInt64.toUInt64

/-- `sprintf(buf, "%d", i)`. -/
def decimal (i : ℕ) : CStr := cstr (toString i)

/-- `create_field_file`. -/
def createFieldFile (dir : UInt64) (name : CStr) (qpath : UInt64) : Npfile := ⟨name, dir ||| qpath⟩

mutual

/-- `create_mime_files` for a directory with the path `dir`, which is not the root, and `mime_first`
for the directories that it makes in there. -/
def createMimeFiles (dir : UInt64) (qpidx : ℕ) : Mailmime → List Npfile
  | .none => []
  | .message mm =>
    [createFieldFile dir (cstr "subject") QSUBJECT, createFieldFile dir (cstr "from") QFROM,
      createFieldFile dir (cstr "to") QTO, createFieldFile dir (cstr "cc") QCC,
      createFieldFile dir (cstr "replyto") QREPLYTO, createFieldFile dir (cstr "date") QDATE,
      ⟨cstr "raw", dir ||| QRAW⟩, ⟨cstr "rawbody", dir ||| QRAWBODY⟩,
      ⟨cstr "rawheader", dir ||| QRAWHEADER⟩] ++
    match mm with
    | .single | .multiple _ => createMimeFiles dir qpidx mm
    | .none | .message _ => []
  | .multiple parts =>
    let n := sizebits parts.length + qpidx
    [⟨cstr "type", dir ||| QTYPE⟩, ⟨cstr "mimeheader", dir ||| QRAWHEADER⟩] ++
      createParts dir n 0 parts
  | .single =>
    [⟨cstr "type", dir ||| QTYPE⟩, ⟨cstr "mimeheader", dir ||| QRAWHEADER⟩,
      ⟨cstr "body", dir ||| QBODY⟩]

/-- The loop of `create_mime_files` over the parts of a multipart, from the part `i` on. -/
def createParts (dir : UInt64) (n : ℕ) : (i : ℕ) → List Mailmime → List Npfile
  | _, [] => []
  | i, mm :: parts =>
    ⟨decimal i, dir ||| shl i n⟩ :: createMimeFiles (dir ||| shl i n) n mm ++
      createParts dir n (i + 1) parts

end

/-- A message, with `idx` and its structure. -/
structure Message where
  idx : UInt32
  mime : Mailmime

/-- The directory that `folder_first` makes of a message. -/
def Message.dir (m : Message) : Npfile := ⟨decimal m.idx.toNat, m.idx.toUInt64 <<< 32⟩

/-- The directory of a message, and the files that `message_first` makes in it. -/
def Message.files (msgnum : ℕ) (m : Message) : List Npfile :=
  m.dir :: createMimeFiles m.dir.path (sizebits msgnum + 1) m.mime

/-- The root. -/
def root : Npfile := ⟨cstr "", 0⟩

/-- All files of a mailbox. -/
def files (messages : List Message) : List Npfile :=
  root :: messages.flatMap (Message.files messages.length)

/-- The paths are pairwise distinct. -/
def UniquePaths (messages : List Message) : Prop := ((files messages).map (·.path)).Nodup

/-- A multipart has no parts, and what is in a message is a message again. -/
def Mailmime.Plain : Mailmime → Prop
  | .none | .single => True
  | .multiple parts => parts = []
  | .message .none | .message (.message _) => True
  | .message .single | .message (.multiple _) => False

/-! ## The path of a file of a message -/

section Paths

variable {idx idx' : UInt32} {q q' : UInt64}

/-- A path with the index of a message in its upper half. -/
def place (idx : UInt32) (q : UInt64) : UInt64 := idx.toUInt64 <<< 32 ||| q

theorem place_toNat (small : q.toNat < 2 ^ 32) :
    (place idx q).toNat = idx.toNat * 2 ^ 32 + q.toNat := by
  have bound := idx.toNat_lt
  have shifted : idx.toNat <<< 32 % 2 ^ 64 = idx.toNat <<< 32 := by
    rw [Nat.shiftLeft_eq]
    omega
  have amount : (32 : UInt64).toNat % 64 = 32 := rfl
  rw [place, UInt64.toNat_or, UInt64.toNat_shiftLeft, UInt32.toNat_toUInt64, amount, shifted,
    ← Nat.shiftLeft_add_eq_or_of_lt small, Nat.shiftLeft_eq]

theorem place_inj (small : q.toNat < 2 ^ 32) (small' : q'.toNat < 2 ^ 32) :
    place idx q = place idx' q' ↔ idx = idx' ∧ q = q' := by
  rw [← UInt64.toNat_inj, place_toNat small, place_toNat small', ← UInt32.toNat_inj,
    ← UInt64.toNat_inj]
  omega

/-- The first part has the path of the directory that it is in. -/
theorem shl_zero (n : ℕ) : shl 0 n = 0 := by
  have zero : Int32.ofNat 0 <<< Int32.ofNat n = 0 := Int32.zero_shiftLeft
  rw [shl, zero]
  rfl

theorem dir_path (m : Message) : m.dir.path = place m.idx 0 := UInt64.or_zero.symm

end Paths

/-! ## The files of a message -/

section Files

variable {m m' : Message} {msgnum : ℕ}

/-- The small numbers of the files of a message, with its directory. -/
def Mailmime.numbers : Mailmime → List UInt64
  | .none => [0]
  | .single => [0, QTYPE, QRAWHEADER, QBODY]
  | .multiple _ => [0, QTYPE, QRAWHEADER]
  | .message _ =>
    [0, QSUBJECT, QFROM, QTO, QCC, QREPLYTO, QDATE, QRAW, QRAWBODY, QRAWHEADER]

theorem Mailmime.nodup_numbers (mm : Mailmime) : mm.numbers.Nodup := by
  cases mm with
  | none | single => decide
  | multiple parts =>
      change ([0, QTYPE, QRAWHEADER] : List UInt64).Nodup
      decide
  | message mm =>
      change ([0, QSUBJECT, QFROM, QTO, QCC, QREPLYTO, QDATE, QRAW, QRAWBODY,
        QRAWHEADER] : List UInt64).Nodup
      decide

theorem Mailmime.small_numbers (mm : Mailmime) : ∀ q ∈ mm.numbers, q.toNat < 2 ^ 32 := by
  have largest : ([0, 1, 2, 3, 4, 5, 6, 7, 8, 9, 11, 12] : List UInt64).all (· < 13) := rfl
  have among : mm.numbers ⊆ [0, 1, 2, 3, 4, 5, 6, 7, 8, 9, 11, 12] := by
    cases mm <;> simp [numbers, QTYPE, QRAWHEADER, QBODY, QSUBJECT, QFROM, QTO, QCC, QREPLYTO,
      QDATE, QRAW, QRAWBODY]
  intro q member
  have small : q < 13 := of_decide_eq_true (List.all_eq_true.mp largest q (among member))
  have below : q.toNat < 13 := UInt64.lt_iff_toNat_lt.mp small
  omega

theorem map_path_files (plain : m.mime.Plain) :
    (m.files msgnum).map (·.path) = m.mime.numbers.map (place m.idx) := by
  obtain ⟨idx, mime⟩ := m
  have dir := dir_path ⟨idx, mime⟩
  cases mime with
  | none => simp [Message.files, createMimeFiles, Mailmime.numbers, dir]
  | single =>
      simp [Message.files, createMimeFiles, Mailmime.numbers, dir]
      simp [place]
  | multiple parts =>
      obtain rfl : parts = [] := plain
      simp [Message.files, createMimeFiles, createParts, Mailmime.numbers, dir]
      simp [place]
  | message mm =>
      have nothing : createMimeFiles (Message.dir ⟨idx, .message mm⟩).path (sizebits msgnum + 1)
          (.message mm) = createMimeFiles (Message.dir ⟨idx, .message mm⟩).path
            (sizebits msgnum + 1) (.message .none) := by
        cases mm with
        | none | message _ => rfl
        | single | multiple _ => exact absurd plain not_false
      rw [Message.files, nothing]
      simp [createMimeFiles, createFieldFile, Mailmime.numbers, dir]
      simp [place]

theorem nodup_files (plain : m.mime.Plain) : ((m.files msgnum).map (·.path)).Nodup := by
  rw [map_path_files plain]
  refine m.mime.nodup_numbers.map_on fun q member q' member' same => ?_
  exact ((place_inj (m.mime.small_numbers q member) (m.mime.small_numbers q' member')).mp same).2

/-- The directory of a multipart shares its path with its first part, and the header of a message
its path with that of its only part. -/
theorem plain_of_nodup (nodup : ((m.files msgnum).map (·.path)).Nodup) : m.mime.Plain := by
  obtain ⟨idx, mime⟩ := m
  cases mime with
  | none | single => trivial
  | multiple parts =>
      cases parts with
      | nil => rfl
      | cons mm parts =>
          refine absurd ?_ (List.nodup_cons.mp nodup).1
          simp [createMimeFiles, createParts, shl_zero]
  | message mm =>
      cases mm with
      | none | message _ => trivial
      | single =>
          simp [Message.files, createMimeFiles] at nodup
      | multiple parts =>
          simp [Message.files, createMimeFiles] at nodup

theorem dir_mem : place m.idx 0 ∈ (m.files msgnum).map (·.path) := by
  rw [← dir_path]
  exact List.mem_cons_self

theorem disjoint_files (plain : m.mime.Plain) (plain' : m'.mime.Plain) (other : m.idx ≠ m'.idx) :
    ((m.files msgnum).map (·.path)).Disjoint ((m'.files msgnum).map (·.path)) := by
  rw [map_path_files plain, map_path_files plain']
  intro path member member'
  obtain ⟨q, known, rfl⟩ := List.mem_map.mp member
  obtain ⟨q', known', same⟩ := List.mem_map.mp member'
  exact other ((place_inj (m'.mime.small_numbers q' known')
    (m.mime.small_numbers q known)).mp same).1.symm

theorem root_notMem (plain : m.mime.Plain) (proper : m.idx ≠ 0) :
    0 ∉ (m.files msgnum).map (·.path) := by
  rw [map_path_files plain]
  intro member
  obtain ⟨q, known, zero⟩ := List.mem_map.mp member
  have first : place 0 0 = 0 := rfl
  rw [← first] at zero
  exact proper ((place_inj (m.mime.small_numbers q known) (by decide)).mp zero).1

end Files

/-! ## A whole mailbox -/

/-- The paths of a mailbox are distinct if and only if the indexes of its messages are, none of them
is zero, and no message has parts. -/
theorem uniquePaths_iff (messages : List Message) : UniquePaths messages ↔
    (messages.map (·.idx)).Nodup ∧ 0 ∉ messages.map (·.idx) ∧
      ∀ m ∈ messages, m.mime.Plain := by
  have paths : (files messages).map (·.path) = 0 :: messages.flatMap fun m =>
      (m.files messages.length).map (·.path) := by
    rw [files, List.map_cons, List.map_flatMap]
    rfl
  have indexes : (messages.map (·.idx)).Nodup ↔
      messages.Pairwise fun m m' => m.idx ≠ m'.idx := List.pairwise_map
  rw [UniquePaths, paths, List.nodup_cons, List.nodup_flatMap, indexes]
  constructor
  · rintro ⟨fresh, nodup, apart⟩
    refine ⟨apart.imp fun {m m'} disjoint same => ?_, fun member => fresh ?_, fun m member =>
      plain_of_nodup (nodup m member)⟩
    · have shared : place m.idx 0 ∈ (m'.files messages.length).map (·.path) := by
        rw [same]
        exact dir_mem
      exact disjoint dir_mem shared
    · obtain ⟨m, known, zero⟩ := List.mem_map.mp member
      refine List.mem_flatMap.mpr ⟨m, known, ?_⟩
      have here := @dir_mem m messages.length
      rwa [zero] at here
  · rintro ⟨apart, proper, plain⟩
    refine ⟨fun member => ?_, fun m member => nodup_files (plain m member), ?_⟩
    · obtain ⟨m, known, here⟩ := List.mem_flatMap.mp member
      exact root_notMem (plain m known) (fun zero => proper (List.mem_map.mpr ⟨m, known, zero⟩))
        here
    · exact apart.imp_of_mem fun {m m'} known known' other =>
        disjoint_files (plain m known) (plain m' known') other

/-- A mailbox with one message, of plain text. -/
theorem not_uniquePaths_all : ¬ ∀ messages : List Message,
    (messages.map (·.idx)).Nodup → 0 ∉ messages.map (·.idx) → UniquePaths messages := by
  intro all
  have unique := all [⟨1, .message .single⟩] (by decide) (by decide)
  revert unique
  simp [UniquePaths, files, Message.files, createMimeFiles]

end Mboxfs

end Npfs
