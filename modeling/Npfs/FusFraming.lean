import Npfs.Create
import Npfs.Transition

/-!
# How `fus` cuts its input into messages

A worker of `fs/fus.c` takes the reader lock, gets the header of a message, and hands the message to
its handler, which reads the body by `readrest` and gives up the lock. What comes in behind the body
is kept in `conn->buf`. A step is what one worker does with the lock, whatever number of bytes each
`read` returns; `conn->msize` is the one that the messages keep to.
-/

namespace Npfs.Fus

open LittleEndian

/-- `sizeof(conn->buf)`. -/
abbrev bufSize : ℕ := 23

/-- `Tfirst`. -/
def Tfirst : UInt8 := 100

/-- `Tlast`. -/
def Tlast : UInt8 := 126

/-- `Twrite`. -/
def Twrite : UInt8 := 118

/-- The size, the type and the tag of a message. -/
structure Header where
  size : UInt32
  type : UInt8
  tag : UInt16
  deriving DecidableEq

/-- A message as a handler gets it. -/
structure Handed where
  /-- The worker. -/
  wt : ℕ
  header : Header
  body : List UInt8

/-- The fields of a `Conn` that have to do with its input, and what has been done with the input. -/
structure Input where
  /-- What `conn->sock` has not returned yet. -/
  sock : List UInt8
  msize : UInt32
  /-- `conn->size`, `conn->type` and `conn->tag`, if the size is not `~0`. -/
  next : Option Header
  buf : List UInt8
  bpos : ℕ
  handed : List Handed
  /-- Something was written behind the end of `conn->buf` or of a worker's buffer. -/
  overflown : Bool
  /-- An assertion has failed, the connection is closed, or nobody can take the reader lock. -/
  ended : Bool

/-- The header at the start of `conn->buf`. -/
def gheader (buf : List UInt8) : Header where
  size := word32 fun k => buf.getD k 0
  type := buf.getD 4 0
  tag := word16 fun k => buf.getD (5 + k) 0

/-- `!fhndlrs[(type-Tfirst)/2]`, and the tests in front of it. -/
def unhandled (type : UInt8) : Bool :=
  type &&& 1 ≠ 0 || type < Tfirst || type > Tlast || (type - Tfirst) / 2 = 3

namespace Input

/-- The loop of `connproc` that reads a header, with what each `read` returns; `none` if it is not
done with them. -/
def readHeader : Input → List ℕ → Option (Input × List ℕ)
  | _, [] => none
  | s, n :: reads =>
    if 0 < n ∧ n ≤ bufSize - s.bpos ∧ n ≤ s.sock.length then
      let s := { s with
        buf := store s.buf s.bpos (s.sock.take n)
        bpos := s.bpos + n
        sock := s.sock.drop n }
      if s.bpos < 7 then readHeader s reads else some (s, reads)
    else none

/-- The loop of `readrest`, with what is in `buf` and with what each `read` returns. -/
def fill (size : ℕ) : Input → List UInt8 → List ℕ → Option (Input × List UInt8 × List ℕ)
  | s, buf, [] => if size ≤ buf.length then some (s, buf, []) else none
  | s, buf, n :: reads =>
    if size ≤ buf.length then some (s, buf, n :: reads)
    else if 0 < n ∧ n ≤ size - buf.length + bufSize ∧ n ≤ s.sock.length then
      fill size { s with sock := s.sock.drop n } (buf ++ s.sock.take n) reads
    else none

/-- The start of `readrest`: what is in `conn->buf` behind the header comes first. -/
def takeAhead (s : Input) (size : ℕ) : Input × List UInt8 :=
  if 7 < s.bpos then
    let n := min (s.bpos - 7) size
    ({ s with
      buf := store s.buf 0 ((s.buf.drop (7 + n)).take (s.bpos - 7 - n))
      bpos := s.bpos - (7 + n) }, (s.buf.drop 7).take n)
  else (s, [])

/-- The end of `readrest`: what was read behind the message goes to `conn->buf`, and there may be a
header. -/
def keepAhead (s : Input) (size : ℕ) (buf : List UInt8) : Input :=
  let rest := buf.drop size
  let s := { s with
    overflown := s.overflown || decide (bufSize < s.bpos + rest.length) ||
      decide (s.msize.toNat + bufSize < buf.length)
    buf := (store s.buf s.bpos rest).take bufSize
    bpos := s.bpos + rest.length }
  if 7 < s.bpos then
    let header := gheader s.buf
    { s with
      next := some header
      ended := s.ended || !decide (header.size > 0 ∧ header.size ≤ s.msize ∧ header.type ≥ 100) }
  else s

/-- `readrest`: what it reads, and what of `reads` is left. -/
def readrest (s : Input) (size : ℕ) (reads : List ℕ) : Option (Input × List UInt8 × List ℕ) :=
  let (s, buf) := s.takeAhead size
  (fill size s buf reads).map fun (s, buf, reads) =>
    (s.keepAhead size buf, buf.take size, reads)

/-- `connproc` with the reader lock, up to the call of the handler: the header of the message. -/
def receive (s : Input) (reads : List ℕ) : Option (Input × Header × List ℕ) :=
  match s.next with
  | some header => some ({ s with next := none }, header, reads)
  | none => (s.readHeader reads).map fun (s, reads) =>
    let header := gheader s.buf
    ({ s with
      ended := s.ended || !decide (header.size > 0 ∧ header.size < s.msize ∧ header.type ≥ 100) },
      header, reads)

/-- A handler reads the body.  `p9write` does not when there is no count, and keeps the lock; and it
reads again when the fid is a directory. -/
def handle (s : Input) (wt : ℕ) (header : Header) (reads : List ℕ) (dir : Bool) : Option Input :=
  let size := (header.size - 7).toNat
  if header.size > s.msize ∨ unhandled header.type ∨ 2 ^ 31 ≤ size ∨
      header.type = Twrite ∧ size < 16 then
    some { s with ended := true }
  else
    (s.readrest size reads).bind fun (s, body, reads) =>
      let s := { s with handed := s.handed ++ [⟨wt, header, body⟩] }
      if header.type = Twrite ∧ dir then (s.readrest (size - 16) reads).map (·.1)
      else if reads = [] then some s
      else none

/-- A worker has the reader lock: what each `read` returns, and whether the fid of a Twrite is a
directory. -/
structure Turn where
  wt : ℕ
  reads : List ℕ
  dir : Bool

/-- What a worker does with the reader lock. -/
def step (s : Input) (turn : Turn) : Option Input :=
  if s.ended then none
  else
    (s.receive turn.reads).bind fun (s, header, reads) =>
      if s.ended then some s else s.handle turn.wt header reads turn.dir

end Input

/-! ## What it is for -/

/-- A message that a client sends. -/
structure Frame where
  type : UInt8
  tag : UInt16
  body : List UInt8

namespace Frame

def size (frame : Frame) : ℕ := 7 + frame.body.length

def header (frame : Frame) : Header := ⟨.ofNat frame.size, frame.type, frame.tag⟩

/-- The seven bytes of the header. -/
def front (frame : Frame) : List UInt8 :=
  bytes32 (.ofNat frame.size) ++ frame.type :: bytes16 frame.tag

def bytes (frame : Frame) : List UInt8 := frame.front ++ frame.body

/-- A T-message of at most `msize` bytes: each has something behind its header, and a Twrite its fid,
its offset and its count. -/
structure Valid (frame : Frame) (msize : UInt32) : Prop where
  handled : unhandled frame.type = false
  some : frame.body ≠ []
  write : frame.type = Twrite → 16 ≤ frame.body.length
  small : frame.size ≤ msize.toNat

end Frame

namespace Input

/-- A connection on which the messages will arrive. -/
def start (msize : UInt32) (frames : List Frame) : Input where
  sock := frames.flatMap Frame.bytes
  msize := msize
  next := none
  buf := List.replicate bufSize 0
  bpos := 0
  handed := []
  overflown := false
  ended := false

/-- The messages are handed to the handlers in their order, and completely. -/
structure Framed (frames : List Frame) (s : Input) : Prop where
  running : s.ended = false
  inside : s.overflown = false
  order : s.handed.map (fun handed => (handed.header, handed.body)) =
    (frames.take s.handed.length).map fun frame => (frame.header, frame.body)
  /-- The header that is kept is the one of the next message. -/
  next : ∀ header ∈ s.next, ∃ frame, frames[s.handed.length]? = some frame ∧
    header = frame.header
  /-- As long as there is a message, a worker can hand it to its handler. -/
  more : s.handed.length < frames.length → ∀ wt, ∃ reads, (s.step ⟨wt, reads, false⟩).isSome

/-- If `connproc` reads the header, the message is shorter than `msize`, and no `read` ends right
behind the header, unless the message is the last one.  No Twrite is for a directory, and the size
of each body is an `int`. -/
def Clear (frames : List Frame) (s : Input) (turn : Turn) : Prop :=
  ∀ frame ∈ frames[s.handed.length]?, frame.body.length < 2 ^ 31 ∧
    (s.next = none → frame.size < s.msize.toNat ∧ (s.handed.length + 1 = frames.length ∨
      ∀ i < turn.reads.length, s.bpos + (turn.reads.take (i + 1)).sum ≠ 7)) ∧
    (frame.type = Twrite → turn.dir = false)

end Input

/-! ## The header -/

namespace Frame

variable {frame : Frame}

@[simp] theorem length_front : frame.front.length = 7 := rfl

@[simp] theorem length_bytes : frame.bytes.length = 7 + frame.body.length := by
  simp [bytes]

theorem gheader_front (rest : List UInt8) : gheader (frame.front ++ rest) = frame.header := by
  have size : (gheader (frame.front ++ rest)).size = .ofNat frame.size :=
    word32_bytes32 (.ofNat frame.size)
  have tag : (gheader (frame.front ++ rest)).tag = frame.tag := word16_bytes16 frame.tag
  have type : (gheader (frame.front ++ rest)).type = frame.type := rfl
  rw [header, ← size, ← tag, ← type]

/-- Seven bytes that have come in are enough for the header. -/
theorem gheader_of_ahead {buf sock rest : List UInt8} {bpos : ℕ} (least : 7 ≤ bpos)
    (most : bpos ≤ buf.length) (stream : buf.take bpos ++ sock = frame.bytes ++ rest) :
    gheader buf = frame.header := by
  have front : buf.take 7 = frame.front := by
    have same := congrArg (List.take 7) stream
    rw [List.take_append_of_le_length (by simp; omega), List.take_take, min_eq_left least, bytes,
      List.append_assoc, List.take_left' length_front] at same
    exact same
  rw [← List.take_append_drop 7 buf, front, gheader_front]

end Frame

namespace Input

variable {s s' : Input} {reads reads' : List ℕ} {size : ℕ} {buf buf' body rest : List UInt8}

/-! ## The two loops -/

theorem readHeader_spec (length : s.buf.length = bufSize) (inside : s.bpos ≤ 7)
    (done : s.readHeader reads = some (s', reads')) : ∃ buf sock, ∃ i < reads.length,
      s' = { s with buf, sock, bpos := s.bpos + (reads.take (i + 1)).sum } ∧
      buf.length = bufSize ∧ 7 ≤ s'.bpos ∧ s.bpos < s'.bpos ∧ s'.bpos ≤ bufSize ∧
      s'.buf.take s'.bpos ++ s'.sock = s.buf.take s.bpos ++ s.sock := by
  induction reads generalizing s with
  | nil => cases done
  | cons n reads ih =>
      rw [readHeader] at done
      split_ifs at done with allowed
      obtain ⟨positive, room, there⟩ := allowed
      have taken : (s.sock.take n).length = n := List.length_take_of_le there
      have room' : s.bpos + (s.sock.take n).length ≤ s.buf.length := by omega
      have stored := @take_store s.buf (s.sock.take n) s.bpos (by omega)
      rw [taken] at stored
      dsimp only at done
      split_ifs at done with short
      · obtain ⟨buf, sock, i, inside', rfl, length', least, more, most, stream⟩ :=
          ih ((length_store room').trans length) short.le done
        refine ⟨buf, sock, i + 1, Nat.succ_lt_succ inside', ?_, length', least, ?_, most, ?_⟩
        · simp [Nat.add_assoc]
        · simp only at more ⊢
          omega
        · rw [stream]
          simp only [stored, List.append_assoc, List.take_append_drop]
      · obtain ⟨rfl, rfl⟩ := Prod.mk.inj (Option.some.inj done)
        refine ⟨store s.buf s.bpos (s.sock.take n), s.sock.drop n, 0, Nat.succ_pos _, ?_,
          (length_store room').trans length, not_lt.mp short, ?_, ?_, ?_⟩
        · simp
        · simp only
          omega
        · simp only
          omega
        · simp only [stored, List.append_assoc, List.take_append_drop]

theorem fill_spec (done : fill size s buf reads = some (s', buf', reads')) :
    ∃ sock more, s' = { s with sock } ∧ buf' = buf ++ more ∧ s.sock = more ++ sock ∧
      size ≤ buf'.length ∧ (size ≤ buf.length → more = []) ∧
      buf'.length ≤ max buf.length (size + bufSize) := by
  induction reads generalizing s buf with
  | nil =>
      rw [fill] at done
      split_ifs at done with enough
      obtain ⟨rfl, rfl, -⟩ : s = s' ∧ buf = buf' ∧ [] = reads' := by simpa using done
      exact ⟨s.sock, [], rfl, by simp, rfl, enough, fun _ => rfl, le_max_left _ _⟩
  | cons n reads ih =>
      rw [fill] at done
      split_ifs at done with enough allowed
      · obtain ⟨rfl, rfl, -⟩ : s = s' ∧ buf = buf' ∧ n :: reads = reads' := by simpa using done
        exact ⟨s.sock, [], rfl, by simp, rfl, enough, fun _ => rfl, le_max_left _ _⟩
      · obtain ⟨positive, room, there⟩ := allowed
        obtain ⟨sock, more, rfl, rfl, rest, least, -, most⟩ := ih done
        refine ⟨sock, s.sock.take n ++ more, rfl, by simp, ?_, least, fun whole => ?_, ?_⟩
        · rw [List.append_assoc, ← rest, List.take_append_drop]
        · exact absurd whole enough
        · refine most.trans (max_le ?_ (le_max_right _ _))
          rw [List.length_append, List.length_take_of_le there]
          refine le_max_of_le_right ?_
          omega

/-- One `read` is enough for a header that is not all there. -/
theorem readHeader_more (inside : s.bpos ≤ 7) (enough : 7 < s.bpos + s.sock.length) :
    ∃ n s', 7 < s'.bpos ∧ ∀ reads, s.readHeader (n :: reads) = some (s', reads) := by
  obtain ⟨n, amount⟩ : ∃ n, min (bufSize - s.bpos) s.sock.length = n := ⟨_, rfl⟩
  have capacity : bufSize = 23 := rfl
  have allowed : 0 < n ∧ n ≤ bufSize - s.bpos ∧ n ≤ s.sock.length := by omega
  have whole : 7 < s.bpos + n := by omega
  refine ⟨n, { s with
    buf := store s.buf s.bpos (s.sock.take n)
    bpos := s.bpos + n
    sock := s.sock.drop n }, whole, fun reads => ?_⟩
  rw [readHeader, if_pos allowed]
  exact if_neg whole.le.not_gt

/-- One `read` is enough for the body, too. -/
theorem fill_more (enough : size ≤ buf.length + s.sock.length) :
    ∃ reads s' buf', fill size s buf reads = some (s', buf', []) := by
  by_cases ready : size ≤ buf.length
  · exact ⟨[], s, buf, by rw [fill, if_pos ready]⟩
  · have allowed : 0 < size - buf.length ∧ size - buf.length ≤ size - buf.length + bufSize ∧
        size - buf.length ≤ s.sock.length := by omega
    have done : size ≤ (buf ++ s.sock.take (size - buf.length)).length := by
      rw [List.length_append, List.length_take_of_le allowed.2.2]
      omega
    exact ⟨[size - buf.length], _, _, by
      rw [fill, if_neg ready, if_pos allowed, fill, if_pos done]⟩

/-! ## `readrest` -/

/-- What is in `conn->buf` behind the header is divided between the body and what stays. -/
theorem takeAhead_spec (length : s.buf.length = bufSize) (ahead : 7 < s.bpos)
    (most : s.bpos ≤ bufSize) : ∃ buf bpos got, s.takeAhead size = ({ s with buf, bpos }, got) ∧
      buf.length = bufSize ∧ got.length = min (s.bpos - 7) size ∧ bpos = s.bpos - 7 - got.length ∧
      got ++ buf.take bpos = (s.buf.take s.bpos).drop 7 := by
  obtain ⟨n, same⟩ : ∃ n, min (s.bpos - 7) size = n := ⟨_, rfl⟩
  have small : n ≤ s.bpos - 7 := same ▸ min_le_left _ _
  have moved : ((s.buf.drop (7 + n)).take (s.bpos - 7 - n)).length = s.bpos - 7 - n := by
    rw [List.length_take_of_le]
    rw [List.length_drop]
    omega
  have room : 0 + ((s.buf.drop (7 + n)).take (s.bpos - 7 - n)).length ≤ s.buf.length := by omega
  have got : ((s.buf.drop 7).take n).length = n := by
    rw [List.length_take_of_le]
    rw [List.length_drop]
    omega
  refine ⟨_, s.bpos - (7 + n), _, ?_, (length_store room).trans length, got.trans same.symm, ?_, ?_⟩
  · rw [takeAhead, if_pos ahead, same]
  · omega
  · have stored := @take_store s.buf ((s.buf.drop (7 + n)).take (s.bpos - 7 - n)) 0 (Nat.zero_le _)
    rw [Nat.zero_add, moved, List.take_zero, List.nil_append] at stored
    have bpos : s.bpos - (7 + n) = s.bpos - 7 - n := by omega
    rw [bpos, stored, List.drop_take, ← List.drop_drop, ← List.take_add]
    congr 1
    omega

/-- The connection after `readrest`: what has come in is the rest of the stream. -/
structure Rested (s : Input) (rest : List UInt8) (s' : Input) : Prop where
  length : s'.buf.length = bufSize
  most : s'.bpos ≤ bufSize
  stream : s'.buf.take s'.bpos ++ s'.sock = rest
  msize : s'.msize = s.msize
  handed : s'.handed = s.handed
  inside : s'.overflown = s.overflown
  short : s'.bpos ≤ 7 → s'.next = s.next ∧ s'.ended = s.ended
  long : 7 < s'.bpos → s'.next = some (gheader s'.buf) ∧ s'.ended = (s.ended ||
    !decide ((gheader s'.buf).size > 0 ∧ (gheader s'.buf).size ≤ s.msize ∧
      (gheader s'.buf).type ≥ 100))

/-- What is read beyond the body is the front of the rest, wherever the body ends. -/
theorem surplus_behind {got ahead more sock : List UInt8}
    (behind : got ++ ahead ++ (more ++ sock) = body ++ rest)
    (least : body.length ≤ (got ++ more).length)
    (divided : ahead = [] ∨ more = [] ∧ got.length = body.length) :
    got ++ more = body ++ (got ++ more).drop body.length ∧
      ahead ++ (got ++ more).drop body.length ++ sock = rest := by
  rcases divided with rfl | ⟨rfl, enough⟩
  · rw [List.append_nil, ← List.append_assoc] at behind
    have front : (got ++ more).take body.length = body := by
      have same := congrArg (List.take body.length) behind
      rwa [List.take_append_of_le_length least, List.take_left] at same
    have split := List.take_append_drop body.length (got ++ more)
    rw [front] at split
    refine ⟨split.symm, ?_⟩
    rw [← split, List.append_assoc] at behind
    rw [List.nil_append]
    exact List.append_cancel_left behind
  · rw [List.append_assoc] at behind
    obtain ⟨rfl, after⟩ := List.append_inj behind enough
    rw [List.append_nil, List.drop_length, List.append_nil, List.append_nil]
    exact ⟨rfl, after⟩

/-- `readrest` reads the body. -/
theorem readrest_spec {front : List UInt8} (length : s.buf.length = bufSize) (ahead : 7 < s.bpos)
    (most : s.bpos ≤ bufSize) (header : front.length = 7) (fits : body.length ≤ s.msize.toNat)
    (stream : s.buf.take s.bpos ++ s.sock = front ++ (body ++ rest))
    (done : s.readrest body.length reads = some (s', buf', reads')) :
    buf' = body ∧ s.Rested rest s' := by
  obtain ⟨buf, bpos, got, taken, length', gotLength, bposEq, divided⟩ :=
    @takeAhead_spec s body.length length ahead most
  have behind : got ++ buf.take bpos ++ s.sock = body ++ rest := by
    have same := congrArg (List.drop 7) stream
    rw [List.drop_append_of_le_length (by simp; omega), List.drop_left' header] at same
    rw [divided, same]
  rw [readrest, taken] at done
  obtain ⟨⟨s₂, whole, reads₂⟩, filled, result⟩ := Option.map_eq_some_iff.mp done
  obtain ⟨sock, more, rfl, rfl, socket, least, ready, bound⟩ := fill_spec filled
  simp only [Prod.mk.injEq] at result
  obtain ⟨rfl, rfl, -⟩ := result
  simp only at socket
  -- Either all that was there belongs to the body, or nothing more is read.
  have cases' : bpos = 0 ∨ more = [] ∧ got.length = body.length := by
    by_cases all : s.bpos - 7 ≤ body.length
    · exact .inl (by omega)
    · have enough : got.length = body.length := by omega
      exact .inr ⟨ready enough.ge, enough⟩
  rw [socket] at behind
  obtain ⟨whole, onward⟩ := surplus_behind behind least (cases'.imp (by simp +contextual) id)
  have surplus : bpos + ((got ++ more).drop body.length).length ≤ bufSize := by
    rcases cases' with none' | ⟨rfl, enough⟩
    · rw [List.length_drop]
      omega
    · rw [List.append_nil, ← enough, List.drop_length, List.length_nil]
      omega
  have room : bpos + ((got ++ more).drop body.length).length ≤ buf.length := by omega
  have stored := @take_store buf ((got ++ more).drop body.length) bpos (by omega)
  have kept : (store buf bpos ((got ++ more).drop body.length)).take bufSize =
      store buf bpos ((got ++ more).drop body.length) :=
    List.take_of_length_le (by rw [length_store room, length'])
  have capacity : (got ++ more).length ≤ s.msize.toNat + bufSize := by omega
  have taken : (got ++ more).take body.length = body := by
    rw [whole, List.take_left]
  refine ⟨taken, ?_⟩
  have inside : (s.overflown || decide (bufSize < bpos + ((got ++ more).drop body.length).length) ||
      decide (s.msize.toNat + bufSize < (got ++ more).length)) = s.overflown := by
    rw [decide_eq_false (not_lt.mpr surplus), decide_eq_false (not_lt.mpr capacity), Bool.or_false,
      Bool.or_false]
  rw [keepAhead]
  simp only [kept, inside]
  split_ifs with long
  · exact ⟨(length_store room).trans length', surplus, by simpa only [stored] using onward, rfl, rfl,
      rfl, fun short => absurd long (not_lt.mpr short), fun _ => ⟨rfl, rfl⟩⟩
  · exact ⟨(length_store room).trans length', surplus, by simpa only [stored] using onward, rfl, rfl,
      rfl, fun _ => ⟨rfl, rfl⟩, fun far => absurd far long⟩

/-- `readrest` returns, if the body comes in. -/
theorem readrest_more (length : s.buf.length = bufSize) (ahead : 7 < s.bpos) (most : s.bpos ≤ bufSize)
    (enough : 7 + size ≤ (s.buf.take s.bpos ++ s.sock).length) :
    ∃ reads s' buf', s.readrest size reads = some (s', buf', []) := by
  obtain ⟨buf, bpos, got, taken, -, gotLength, -, -⟩ := @takeAhead_spec s size length ahead most
  rw [List.length_append, List.length_take, length, min_eq_left most] at enough
  have there : size ≤ got.length + s.sock.length := by omega
  obtain ⟨reads, s', buf', filled⟩ := @fill_more { s with buf, bpos } size got there
  refine ⟨reads, s'.keepAhead size buf', buf'.take size, ?_⟩
  rw [readrest, taken]
  simp only [filled, Option.map_some]

/-- When nothing follows on the message, what is left in `conn->buf` does not matter. -/
theorem readrest_last (length : s.buf.length = bufSize) (exact' : s.bpos = 7)
    (fits : body.length ≤ s.msize.toNat) (stream : s.sock = body)
    (done : s.readrest body.length reads = some (s', buf', reads')) : buf' = body ∧
      ∃ buf, buf.length = bufSize ∧ s' = { s with sock := [], buf } := by
  rw [readrest, takeAhead, if_neg (by omega)] at done
  obtain ⟨⟨s₂, whole, reads₂⟩, filled, result⟩ := Option.map_eq_some_iff.mp done
  obtain ⟨sock, more, rfl, rfl, socket, least, -, bound⟩ := fill_spec filled
  simp only [Prod.mk.injEq] at result
  obtain ⟨rfl, rfl, -⟩ := result
  rw [stream] at socket
  have lengths := congrArg List.length socket
  rw [List.length_append] at lengths
  have none' : sock = [] := List.eq_nil_of_length_eq_zero (by omega)
  rw [none', List.append_nil] at socket
  rw [← socket, List.take_length]
  refine ⟨rfl, (store s.buf s.bpos []).take bufSize, ?_, ?_⟩
  · have stored : (store s.buf s.bpos []).length = s.buf.length := length_store (by
      rw [length, exact']
      decide)
    rw [List.length_take, stored, length, min_self]
  · have small : ¬ s.msize.toNat + bufSize < body.length := by omega
    have inside : ¬ bufSize < 7 := by decide
    simp [keepAhead, exact', small, none', inside]

end Input

/-! ## One message -/

section Message

variable {frame : Frame} {msize : UInt32}

/-- What the tests of `connproc` and of the handlers see. -/
theorem Frame.Valid.header (valid : frame.Valid msize) :
    frame.header.size.toNat = frame.size ∧ (frame.header.size - 7).toNat = frame.body.length ∧
      frame.header.size > 0 ∧ frame.header.size ≤ msize ∧ frame.header.type ≥ 100 := by
  have bound := valid.small
  have limit := msize.toNat_lt
  have size : frame.header.size.toNat = frame.size := by
    simp only [Frame.header, UInt32.toNat_ofNat']
    omega
  have seven : (7 : UInt32) ≤ frame.header.size := by
    rw [UInt32.le_iff_toNat_le, size, Frame.size]
    exact Nat.le_add_right 7 _
  have type : ¬ frame.type < Tfirst := by
    have handled := valid.handled
    simp only [unhandled, Bool.or_eq_false_iff, decide_eq_false_iff_not] at handled
    exact handled.1.1.2
  refine ⟨size, ?_, ?_, ?_, UInt8.not_lt.mp type⟩
  · rw [UInt32.toNat_sub_of_le _ _ seven, size, Frame.size]
    exact Nat.add_sub_cancel_left 7 _
  · rw [gt_iff_lt, UInt32.lt_iff_toNat_lt, size, Frame.size]
    exact Nat.lt_of_lt_of_le (by decide) (Nat.le_add_right 7 _)
  · rw [UInt32.le_iff_toNat_le, size]
    exact bound

/-- The handler of the message goes on to read its body. -/
theorem Frame.Valid.passes (valid : frame.Valid msize) (small : frame.body.length < 2 ^ 31) :
    ¬ (frame.header.size > msize ∨ unhandled frame.header.type ∨
      2 ^ 31 ≤ (frame.header.size - 7).toNat ∨
        frame.header.type = Twrite ∧ (frame.header.size - 7).toNat < 16) := by
  obtain ⟨-, bodySize, -, most, -⟩ := valid.header
  rw [bodySize]
  rintro (large | unhandled | large | ⟨write, short⟩)
  · exact absurd most (UInt32.not_le.mpr large)
  · exact absurd valid.handled (ne_of_eq_of_ne unhandled (by decide))
  · omega
  · exact absurd (valid.write write) (not_le.mpr short)

namespace Input

variable {s s' : Input} {reads reads' : List ℕ} {rest : List UInt8} {wt : ℕ}

/-- The header of the message has come in. -/
structure Headed (s : Input) (frame : Frame) (rest : List UInt8) : Prop where
  length : s.buf.length = bufSize
  least : 7 ≤ s.bpos
  most : s.bpos ≤ bufSize
  stream : s.buf.take s.bpos ++ s.sock = frame.bytes ++ rest

/-- What a worker gets under the reader lock, from the connection that it finds. -/
theorem readHeader_headed (length : s.buf.length = bufSize) (inside : s.bpos ≤ 7)
    (stream : s.buf.take s.bpos ++ s.sock = frame.bytes ++ rest)
    (done : s.readHeader reads = some (s', reads')) : s'.Headed frame rest ∧
      gheader s'.buf = frame.header ∧ ∃ buf sock, ∃ i < reads.length,
        s' = { s with buf, sock, bpos := s.bpos + (reads.take (i + 1)).sum } := by
  obtain ⟨buf, sock, i, inside', parts, length', least, more, most, stream'⟩ :=
    readHeader_spec length inside done
  have headed : s'.Headed frame rest := by
    refine ⟨?_, least, most, stream'.trans stream⟩
    rw [parts]
    exact length'
  refine ⟨headed, ?_, buf, sock, i, inside', parts⟩
  exact Frame.gheader_of_ahead least (by rw [headed.length]; exact most) headed.stream

/-- A handler gets the body of the message, and the rest of the stream stays. -/
theorem handle_headed (headed : s.Headed frame rest) (valid : frame.Valid s.msize)
    (small : frame.body.length < 2 ^ 31) (last : s.bpos = 7 → rest = []) {dir : Bool}
    (file : frame.type = Twrite → dir = false)
    (done : s.handle wt frame.header reads dir = some s') : ∃ s₁,
      s' = { s₁ with handed := s.handed ++ [⟨wt, frame.header, frame.body⟩] } ∧
      (s.Rested rest s₁ ∨ s.bpos = 7 ∧ ∃ buf, buf.length = bufSize ∧
        s₁ = { s with sock := [], buf }) := by
  obtain ⟨-, bodySize, -, -, -⟩ := valid.header
  have body : frame.body.length ≤ s.msize.toNat := (Nat.le_add_left _ 7).trans valid.small
  have once : ¬ (frame.header.type = Twrite ∧ dir = true) := by
    rintro ⟨write, directory⟩
    rw [file write] at directory
    cases directory
  rw [handle, if_neg (valid.passes small), bodySize] at done
  obtain ⟨⟨s₁, got, reads₁⟩, read, result⟩ := Option.bind_eq_some_iff.mp done
  simp only [if_neg once] at result
  split_ifs at result
  obtain rfl := Option.some.inj result
  rcases headed.least.lt_or_eq with ahead | exact'
  · obtain ⟨rfl, rested⟩ := readrest_spec headed.length ahead headed.most Frame.length_front body
      (by rw [headed.stream, Frame.bytes, List.append_assoc]) read
    exact ⟨s₁, by rw [rested.handed], .inl rested⟩
  · have alone := last exact'.symm
    have stream := congrArg (List.drop 7) headed.stream
    have ahead : (s.buf.take s.bpos).length = 7 := by
      rw [List.length_take, headed.length, ← exact']
      rfl
    rw [List.drop_left' ahead, alone, List.append_nil, Frame.bytes,
      List.drop_left' Frame.length_front] at stream
    obtain ⟨rfl, buf, length, rfl⟩ := readrest_last headed.length exact'.symm body stream read
    exact ⟨_, rfl, .inr ⟨exact'.symm, buf, length, rfl⟩⟩

/-- A handler of whatever worker gets the message, if it comes in. -/
theorem handle_more (headed : s.Headed frame rest) (valid : frame.Valid s.msize)
    (ahead : 7 < s.bpos) : ∃ reads s', s.handle wt frame.header reads false = some s' := by
  obtain ⟨-, bodySize, -, -, -⟩ := valid.header
  by_cases large : 2 ^ 31 ≤ frame.body.length
  · refine ⟨[], { s with ended := true }, ?_⟩
    rw [handle, if_pos]
    rw [bodySize]
    exact .inr (.inr (.inl large))
  have enough : 7 + frame.body.length ≤ (s.buf.take s.bpos ++ s.sock).length := by
    rw [headed.stream, List.length_append, Frame.length_bytes]
    exact Nat.le_add_right _ _
  obtain ⟨reads, s', body, read⟩ := readrest_more headed.length ahead headed.most enough
  refine ⟨reads, { s' with handed := s'.handed ++ [⟨wt, frame.header, body⟩] }, ?_⟩
  rw [handle, if_neg (valid.passes (not_le.mp large)), bodySize, read]
  simp

end Input

end Message

/-! ## Every run -/

namespace Input

variable {frames : List Frame} {s s' : Input} {turn : Turn}

/-- What is in `conn->buf` and what the socket will return are the messages that are left; if it is
more than a header, the header has been taken out of it. -/
structure Waits (frames : List Frame) (s : Input) : Prop where
  stream : s.buf.take s.bpos ++ s.sock = (frames.drop s.handed.length).flatMap Frame.bytes
  next : s.next = none ∧ s.bpos ≤ 7 ∨
    7 < s.bpos ∧ ∃ frame, frames[s.handed.length]? = some frame ∧ s.next = some frame.header

/-- What holds in every run. -/
structure Sound (frames : List Frame) (s : Input) : Prop where
  running : s.ended = false
  inside : s.overflown = false
  order : s.handed.map (fun handed => (handed.header, handed.body)) =
    (frames.take s.handed.length).map fun frame => (frame.header, frame.body)
  valid : ∀ frame ∈ frames, frame.Valid s.msize
  length : s.buf.length = bufSize
  most : s.bpos ≤ bufSize
  /-- Behind the last message, `conn->buf` may hold its header. -/
  waits : s.Waits frames ∨ frames.length = s.handed.length ∧ s.sock = [] ∧ s.next = none

theorem sound_start {msize : UInt32} (valid : ∀ frame ∈ frames, frame.Valid msize) :
    (start msize frames).Sound frames where
  running := rfl
  inside := rfl
  order := rfl
  valid := valid
  length := List.length_replicate
  most := Nat.zero_le _
  waits := .inl ⟨rfl, .inl ⟨rfl, Nat.zero_le _⟩⟩

/-- The first of the messages that are left. -/
theorem left_cons {frame : Frame} {rest : List Frame} {n : ℕ} (left : frames.drop n = frame :: rest) :
    frames[n]? = some frame ∧ frames.drop (n + 1) = rest ∧ frames.take (n + 1) =
      frames.take n ++ [frame] := by
  have index : frames[n]? = some frame := by
    rw [← List.head?_drop, left]
    rfl
  refine ⟨index, ?_, ?_⟩
  · rw [← List.tail_drop, left]
    rfl
  · rw [List.take_add_one, index]
    rfl

/-- Behind the last message no step is taken. -/
theorem receive_nil {reads : List ℕ} (waits : s.next = none) (empty : s.sock = []) :
    s.receive reads = none := by
  have none' : s.readHeader reads = none := by
    cases reads with
    | nil => rfl
    | cons n reads =>
        rw [readHeader, if_neg]
        rw [empty, List.length_nil]
        omega
  rw [receive, waits, none']
  rfl

/-- A worker has the header of the message that is next. -/
theorem Sound.receive {frame : Frame} {rest : List Frame} {header : Header} {reads reads' : List ℕ}
    (sound : s.Sound frames) (left : frames.drop s.handed.length = frame :: rest)
    (received : s.receive reads = some (s', header, reads')) : header = frame.header ∧
      s'.Headed frame (rest.flatMap Frame.bytes) ∧ s'.next = none ∧ s'.msize = s.msize ∧
      s'.handed = s.handed ∧ s'.overflown = s.overflown ∧
      (s'.bpos = 7 → s.next = none ∧ ∃ i < reads.length, s.bpos + (reads.take (i + 1)).sum = 7) ∧
      s'.ended = (if s.next = none then
        s.ended || !decide (header.size > 0 ∧ header.size < s.msize ∧ header.type ≥ 100)
      else s.ended) := by
  have index := (left_cons left).1
  obtain ⟨stream, next⟩ : s.Waits frames := by
    refine sound.waits.resolve_right fun last => ?_
    rw [last.1.symm, List.drop_length] at left
    cases left
  rw [left, List.flatMap_cons] at stream
  rcases next with ⟨waits, inside⟩ | ⟨ahead, frame', index', ready⟩
  · rw [Input.receive, waits] at received
    obtain ⟨⟨s₁, reads₁⟩, done, result⟩ := Option.map_eq_some_iff.mp received
    obtain ⟨headed, same, buf, sock, i, inside', rfl⟩ :=
      readHeader_headed sound.length inside stream done
    simp only [Prod.mk.injEq] at result
    obtain ⟨rfl, rfl, -⟩ := result
    rw [if_pos waits]
    exact ⟨same, ⟨headed.length, headed.least, headed.most, headed.stream⟩, waits, rfl, rfl, rfl,
      fun exact' => ⟨waits, i, inside', exact'⟩, rfl⟩
  · obtain rfl : frame = frame' := Option.some.inj (index.symm.trans index')
    rw [Input.receive, ready] at received
    obtain ⟨rfl, rfl, -⟩ : _ ∧ frame.header = header ∧ _ := by simpa using received
    rw [if_neg (by simp [ready])]
    exact ⟨rfl, ⟨sound.length, ahead.le, sound.most, stream⟩, rfl, rfl, rfl, rfl,
      fun exact' => absurd exact' ahead.ne', rfl⟩

/-- A worker that gets a header finds a message. -/
theorem Sound.exists_left {reads : List ℕ} {result : Input × Header × List ℕ}
    (sound : s.Sound frames) (received : s.receive reads = some result) :
    ∃ frame rest, frames.drop s.handed.length = frame :: rest := by
  cases left : frames.drop s.handed.length with
  | cons frame rest => exact ⟨frame, rest, rfl⟩
  | nil =>
      exfalso
      have idle : s.next = none ∧ s.sock = [] := by
        rcases sound.waits with ⟨stream, next⟩ | ⟨-, empty, waits⟩
        · rw [left, List.flatMap_nil, List.append_eq_nil_iff] at stream
          refine ⟨?_, stream.2⟩
          rcases next with ⟨waits, -⟩ | ⟨-, frame, index, -⟩
          · exact waits
          · rw [← List.head?_drop, left] at index
            cases index
        · exact ⟨waits, empty⟩
      rw [receive_nil idle.1 idle.2] at received
      cases received

/-- The next message is handed over. -/
theorem Sound.order_append {frame : Frame} {rest : List Frame} (sound : s.Sound frames)
    (left : frames.drop s.handed.length = frame :: rest) (wt : ℕ) :
    (s.handed ++ [(⟨wt, frame.header, frame.body⟩ : Handed)]).map
        (fun handed => (handed.header, handed.body)) =
      (frames.take (s.handed.length + 1)).map fun frame => (frame.header, frame.body) := by
  rw [List.map_append, sound.order, (left_cons left).2.2, List.map_append]
  rfl

/-- What has come in behind a message is the front of the next one. -/
theorem Rested.waits {rest : List Frame} (rested : s.Rested (rest.flatMap Frame.bytes) s')
    (running : s.ended = false) (next : s.next = none) (valid : ∀ frame ∈ rest, frame.Valid s.msize) :
    s'.ended = false ∧ (s'.next = none ∧ s'.bpos ≤ 7 ∨
      7 < s'.bpos ∧ ∃ frame, rest.head? = some frame ∧ s'.next = some frame.header) := by
  rcases le_or_gt s'.bpos 7 with short | long
  · obtain ⟨next', ended⟩ := rested.short short
    exact ⟨ended.trans running, .inl ⟨next'.trans next, short⟩⟩
  · obtain ⟨next', ended⟩ := rested.long long
    have most := rested.most
    cases rest with
    | nil =>
        -- Nothing is left that could have come in.
        have lengths := congrArg List.length rested.stream
        rw [List.length_append, List.length_take, rested.length] at lengths
        simp only [List.flatMap_nil, List.length_nil] at lengths
        omega
    | cons frame rest =>
        have header : gheader s'.buf = frame.header :=
          Frame.gheader_of_ahead long.le (by rw [rested.length]; exact most)
            (rested.stream.trans List.flatMap_cons)
        obtain ⟨-, -, positive, small, type⟩ := (valid frame List.mem_cons_self).header
        refine ⟨?_, .inr ⟨long, frame, rfl, next'.trans (by rw [header])⟩⟩
        rw [ended, running, header]
        simp [positive, small, type]

theorem Sound.step (sound : s.Sound frames) (clear : s.Clear frames turn)
    (taken : s.step turn = some s') : s'.Sound frames := by
  rw [Input.step, sound.running, if_neg Bool.false_ne_true] at taken
  obtain ⟨⟨s₁, header, reads⟩, received, handled⟩ := Option.bind_eq_some_iff.mp taken
  obtain ⟨frame, rest, left⟩ := sound.exists_left received
  obtain ⟨index, rest', -⟩ := left_cons left
  have valid := sound.valid frame (List.mem_of_getElem? index)
  obtain ⟨size, -, positive, most, type⟩ := valid.header
  obtain ⟨small, shorter, file⟩ := clear frame index
  obtain ⟨rfl, headed, next, msize, handed, inside, exact', ended⟩ := sound.receive left received
  have running : s₁.ended = false := by
    rw [ended, sound.running]
    split_ifs with waits
    · have less : frame.header.size < s.msize := by
        rw [UInt32.lt_iff_toNat_lt, size]
        exact (shorter waits).1
      simp [positive, less, type]
    · rfl
  -- If a `read` ended right behind the header, the message is the last one.
  have final : s₁.bpos = 7 → s.handed.length + 1 = frames.length := by
    intro seven
    obtain ⟨waits, i, inside, sum⟩ := exact' seven
    exact (shorter waits).2.resolve_right fun others => others i inside sum
  have last : s₁.bpos = 7 → rest.flatMap Frame.bytes = [] := by
    intro seven
    rw [← rest', final seven, List.drop_length]
    rfl
  simp only [running, Bool.false_eq_true, if_false] at handled
  obtain ⟨s₂, rfl, rested⟩ := handle_headed headed (msize ▸ valid) small last file handled
  rw [handed]
  have count : (s.handed ++ [(⟨turn.wt, frame.header, frame.body⟩ : Handed)]).length =
      s.handed.length + 1 := List.length_append
  have order := sound.order_append left turn.wt
  rw [← count] at order
  rcases rested with rested | ⟨seven, buf, length, rfl⟩
  · obtain ⟨running', waits⟩ := rested.waits running next fun frame member => by
      rw [msize]
      exact sound.valid frame (List.mem_of_mem_drop (left ▸ List.mem_cons_of_mem _ member))
    rw [← rest', List.head?_drop, ← count] at waits
    have stream := rested.stream
    rw [← rest', ← count] at stream
    exact
      { running := running'
        inside := rested.inside.trans (inside.trans sound.inside)
        order := order
        valid := by
          rw [rested.msize, msize]
          exact sound.valid
        length := rested.length
        most := rested.most
        waits := .inl ⟨stream, waits⟩ }
  · exact
      { running := running
        inside := inside.trans sound.inside
        order := order
        valid := by
          rw [msize]
          exact sound.valid
        length := length
        most := headed.most
        waits := .inr ⟨(final seven).symm.trans count.symm, rfl, next⟩ }

/-- There is a way on, as long as there is a message. -/
theorem Sound.more (sound : s.Sound frames) (left : s.handed.length < frames.length) (wt : ℕ) :
    ∃ reads, (s.step ⟨wt, reads, false⟩).isSome := by
  obtain ⟨frame, rest, behind⟩ : ∃ frame rest, frames.drop s.handed.length = frame :: rest :=
    List.exists_cons_of_ne_nil (by rw [Ne, List.drop_eq_nil_iff]; omega)
  have index := (left_cons behind).1
  have valid := sound.valid frame (List.mem_of_getElem? index)
  have nonempty : 0 < frame.body.length := List.length_pos_iff.mpr valid.some
  -- The worker has the header in any case.
  have received : ∃ s₁ front, 7 < s₁.bpos ∧
      ∀ reads, s.receive (front ++ reads) = some (s₁, frame.header, reads) := by
    rcases sound.waits.resolve_right (fun last => by omega) with
      ⟨stream, ⟨waits, inside⟩ | ⟨ahead, frame', index', ready⟩⟩
    · have total := congrArg List.length stream
      rw [behind, List.flatMap_cons, List.length_append, List.length_append, List.length_take,
        sound.length, min_eq_left sound.most, Frame.length_bytes] at total
      have enough : 7 < s.bpos + s.sock.length := by omega
      obtain ⟨n, s₁, long, read⟩ := readHeader_more inside enough
      have header : gheader s₁.buf = frame.header := by
        rw [behind, List.flatMap_cons] at stream
        exact (readHeader_headed sound.length inside stream (read [])).2.1
      refine ⟨{ s₁ with ended := s₁.ended || !decide (frame.header.size > 0 ∧
        frame.header.size < s₁.msize ∧ frame.header.type ≥ 100) }, [n], long, fun reads => ?_⟩
      rw [Input.receive, waits, List.singleton_append, read, ← header]
      rfl
    · obtain rfl : frame = frame' := Option.some.inj (index.symm.trans index')
      refine ⟨{ s with next := none }, [], ahead, fun reads => ?_⟩
      rw [Input.receive, ready]
      rfl
  obtain ⟨s₁, front, ahead, received⟩ := received
  obtain ⟨-, headed, -, msize, -⟩ := sound.receive behind (received [])
  rw [← msize] at valid
  obtain ⟨reads, s₂, handled⟩ := @handle_more _ _ _ wt headed valid ahead
  refine ⟨front ++ reads, ?_⟩
  rw [Input.step, sound.running, if_neg Bool.false_ne_true]
  simp only [received, Option.bind_some, handled]
  split_ifs <;> rfl

theorem Sound.framed (sound : s.Sound frames) : s.Framed frames where
  running := sound.running
  inside := sound.inside
  order := sound.order
  next header kept := by
    rcases sound.waits with ⟨-, ⟨waits, -⟩ | ⟨-, frame, index, ready⟩⟩ | ⟨-, -, waits⟩
    · rw [waits] at kept
      cases kept
    · rw [ready] at kept
      exact ⟨frame, index, (Option.some.inj kept).symm⟩
    · rw [waits] at kept
      cases kept
  more := sound.more

instance (s : Input) (turn : Turn) : Decidable (s.Clear frames turn) :=
  inferInstanceAs (Decidable (∀ frame ∈ frames[s.handed.length]?, _ ∧ (_ → _ ∧ (_ ∨ _)) ∧ (_ → _)))

end Input

end Npfs.Fus
