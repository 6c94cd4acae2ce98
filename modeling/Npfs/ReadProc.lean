import Npfs.Framing
import Npfs.ReadBack

/-!
# The reader of a connection

The loop of `np_conn_read_proc`, from a transport that hands out a stream in pieces of any size to
the requests that are enqueued.  There is no reset, and `conn->trans` stays.
-/

namespace Npfs

open LittleEndian

/-! ## The loop -/

/-- The reader and what is around it. -/
structure Receiver where
  fc : Npfcall
  n : Int
  /-- What the transport has not handed out. -/
  unread : List UInt8
  /-- The calls that were enqueued. -/
  enqueued : List Npfcall
  /-- The bytes received and the size announced at each run of `np_deserialize`. -/
  parsed : List (Int × UInt32)
  /-- The number of calls that `np_conn_new_incall` has made. -/
  made : Nat

/-- How a part of the loop ends. -/
inductive Leave where
  /-- There may be another message in the packet. -/
  | again
  /-- The transport is asked for more. -/
  | reads
  /-- The loop has ended. -/
  | ends
  /-- Bytes outside of a packet have been copied. -/
  | wild
  /-- The bound on the rounds is too small. -/
  | spins
  deriving DecidableEq

section Loop

/-- A call with room for `msize` bytes, as `np_conn_new_incall` hands it out. -/
abbrev Incall (msize : Nat) := { fc : Npfcall // fc.pkt.length = msize }

variable (msize : Nat) (dotu : Bool) (incalls : Nat → Incall msize)

/-- What stands between `again` and the end of the loop. -/
def round (s : Receiver) : Leave × Receiver :=
  if s.n < 4 then
    (.reads, s)
  else
    let size := cint (announcedSize s.fc.pkt)
    if s.n < size then
      (.reads, s)
    else
      let s := { s with parsed := s.parsed ++ [(s.n, announcedSize s.fc.pkt)] }
      match npDeserialize s.fc s.fc.pkt dotu with
      | none => (.ends, s)
      | some fc =>
        let fc1 := (incalls s.made).val
        let n := s.n - size
        if n > 0 ∧ (size < 0 ∨ msize < s.n) then
          (.wild, s)
        else
          let rest := (s.fc.pkt.drop size.toNat).take n.toNat
          let s := { s with
            fc := { fc1 with pkt := store fc1.pkt 0 rest }, n,
            enqueued := s.enqueued ++ [{ fc with pkt := s.fc.pkt }], made := s.made + 1 }
          (if n > 0 then .again else .reads, s)

/-- The rounds from `again` on. -/
def again : (fuel : Nat) → Receiver → Leave × Receiver
  | 0, s => (.spins, s)
  | fuel + 1, s => match round msize dotu incalls s with
    | (.again, s) => again fuel s
    | left => left

/-- The loop: the transport hands out at most `cuts k` bytes more than one in its round `k`. -/
def readLoop (cuts : Nat → Nat) : (fuel k : Nat) → Receiver → Leave × Receiver
  | 0, _, s => (.spins, s)
  | fuel + 1, k, s =>
    let i := min (cuts k + 1) (min (msize - s.n).toNat s.unread.length)
    if i = 0 then
      (.ends, s)
    else
      let s := { s with
        fc := { s.fc with pkt := store s.fc.pkt s.n.toNat (s.unread.take i) },
        n := s.n + i, unread := s.unread.drop i }
      match again msize dotu incalls (s.n.toNat + 1) s with
      | (.reads, s) => readLoop cuts fuel (k + 1) s
      | left => left

/-- `np_conn_read_proc` on a stream. -/
def npConnReadProc (cuts : Nat → Nat) (stream : List UInt8) : Leave × Receiver :=
  readLoop msize dotu incalls cuts (stream.length + 1) 0
    { fc := (incalls 0).val, n := 0, unread := stream, enqueued := [], parsed := [], made := 1 }

end Loop

/-! ## The reference -/

/-- The message at the front of a stream, if it is whole, not too large and accepted. -/
def frontMessage (msize : Nat) (dotu : Bool) (stream : List UInt8) : Option Nat :=
  let size := (announcedSize stream).toNat
  if 4 ≤ stream.length ∧ size ≤ msize ∧ size ≤ stream.length ∧
      (npDeserialize default (stream.take size) dotu).isSome then
    some size
  else
    none

/-- The bytes of the message that a call holds. -/
def Npfcall.message (fc : Npfcall) : List UInt8 := fc.pkt.take (announcedSize fc.pkt).toNat

/-- The bytes that are received and not yet enqueued. -/
def Receiver.received (s : Receiver) : List UInt8 := s.fc.pkt.take s.n.toNat

/-- However the stream is cut, the messages of the reference are enqueued, what is behind them stays
where it is, and only whole messages are parsed. -/
def FramingKept (msize : Nat) (dotu : Bool) (stream : List UInt8) : Prop :=
  ∀ (incalls : Nat → Incall msize) (cuts : Nat → Nat),
    let (leave, s) := npConnReadProc msize dotu incalls cuts stream
    leave = .ends ∧
    (s.enqueued.map Npfcall.message, s.received ++ s.unread) =
      Framing.split (frontMessage msize dotu) stream ∧
    ∀ run ∈ s.parsed, (run.2.toNat : Int) ≤ run.1

/-- The reader comes to a size that is negative as an `int`. -/
def Overruns (msize : Nat) (dotu : Bool) (stream : List UInt8) : Prop :=
  let rest := (Framing.split (frontMessage msize dotu) stream).2
  4 ≤ msize ∧ 4 ≤ rest.length ∧ 2 ^ 31 ≤ (announcedSize rest).toNat

/-! ## What decides about a packet -/

theorem npDeserialize_eq_none_iff (fc : Npfcall) (data : List UInt8) (dotu : Bool) :
    npDeserialize fc data dotu = none ↔
      Layout.packetStop data dotu = .torn ∨ Layout.packetStop data dotu = .refused := by
  have explained := explains_packet fc data dotu
  rw [npDeserialize_eq, overflowTest_eq_none]
  cases stop : Layout.packetStop data dotu with
  | complete pos =>
    rw [stop] at explained
    simpa using explained.1
  | boundary =>
    rw [stop] at explained
    simpa using explained.1
  | dangling =>
    rw [stop] at explained
    simpa using explained.1
  | wild =>
    rw [stop] at explained
    simpa using explained.1
  | torn =>
    rw [stop] at explained
    exact ⟨fun _ => .inl rfl, fun _ => explained⟩
  | refused =>
    rw [stop] at explained
    exact ⟨fun _ => .inr rfl, fun _ => explained⟩

section Prefix

variable {data data' : List UInt8} {size : Nat}

theorem wordAt_congr (same : ∀ j < size, data.getD j 0 = data'.getD j 0) {i : Nat}
    (width : Width) (inside : i + width.size ≤ size) :
    wordAt data i width = wordAt data' i width := by
  have agree : ∀ j < width.size, data.getD (i + j) 0 = data'.getD (i + j) 0 :=
    fun j bound => same (i + j) (by omega)
  cases width
  case u8 => simpa [wordAt] using congrArg UInt8.toNat (agree 0 (by decide))
  all_goals
    simp only [Width.size] at agree
    simp (disch := decide) only [wordAt, word16, word32, word64, agree]

/-- The fields of a packet are found in the bytes that it announces. -/
theorem scan_congr (same : ∀ j < size, data.getD j 0 = data'.getD j 0) (layout : Layout) (i : Nat) :
    layout.scan data size i = layout.scan data' size i := by
  induction layout generalizing i with
  | done => rfl
  | reject => rfl
  | word width next ih =>
    simp only [Layout.scan]
    by_cases short : i = size ∨ size < i + width.size
    · rcases short with all | short
      · rw [if_pos all, if_pos all]
      · rw [if_pos short, if_pos short]
    · rw [wordAt_congr same width (by omega), ih]
  | str next ih =>
    simp only [Layout.scan]
    by_cases short : i = size ∨ size < i + 2
    · rcases short with all | short
      · rw [if_pos all, if_pos all]
      · rw [if_pos short, if_pos short]
    · rw [wordAt_congr same .u16 (by simp only [Width.size]; omega), ih]
  | blob =>
    simp only [Layout.scan]
    by_cases short : i = size ∨ size < i + 4
    · rcases short with all | short
      · rw [if_pos all, if_pos all]
      · rw [if_pos short, if_pos short]
    · rw [wordAt_congr same .u32 (by simp only [Width.size]; omega)]

theorem announcedSize_eq (data : List UInt8) :
    announcedSize data = word32 fun k => data.getD k 0 := by
  rw [announcedSize, Cbuf.bufInit, Cbuf.bufGetInt32, Cbuf.bufCheckSize,
    if_neg (show ¬ (0 : Int) + 4 > 0 + 4 by decide)]
  exact congrArg word32 (funext fun k => by simp [Cbuf.byte])

theorem announcedSize_congr (same : ∀ j < 4, data.getD j 0 = data'.getD j 0) :
    announcedSize data = announcedSize data' := by
  simp (disch := decide) only [announcedSize_eq, word32, same]

/-- What is in front of both decides. -/
theorem packetStop_congr (dotu : Bool) (sizes : announcedSize data = announcedSize data')
    (same : ∀ j < (announcedSize data).toNat, data.getD j 0 = data'.getD j 0) :
    Layout.packetStop data dotu = Layout.packetStop data' dotu := by
  rw [Layout.packetStop, Layout.packetStop, ← sizes, scan_congr same]

end Prefix

/-- A packet that ends with its size field is refused. -/
theorem npDeserialize_short (fc : Npfcall) {data : List UInt8} (dotu : Bool)
    (short : data.length ≤ 4) : npDeserialize fc data dotu = none := by
  rw [npDeserialize_eq_none_iff]
  right
  have zero : data.getD 4 0 = 0 := List.getD_eq_default _ _ short
  rw [Layout.packetStop]
  split_ifs with outside
  · rfl
  · rw [Layout.fcall, Layout.scan, if_neg (by omega), if_neg (by simp only [Width.size]; omega),
      wordAt, zero]
    rfl

theorem npDeserialize_small (fc : Npfcall) {data : List UInt8} (dotu : Bool)
    (small : (announcedSize data).toNat < 5) : npDeserialize fc data dotu = none := by
  rw [npDeserialize_eq_none_iff, Layout.packetStop, if_pos (.inl small)]
  exact .inr rfl

/-- Neither the recycled call nor what is behind a packet decides about it. -/
theorem npDeserialize_congr (fc fc' : Npfcall) {data data' : List UInt8} (dotu : Bool)
    (same : data.take (announcedSize data).toNat = data'.take (announcedSize data).toNat) :
    npDeserialize fc data dotu = none ↔
      npDeserialize fc' (data'.take (announcedSize data).toNat) dotu = none := by
  rcases Nat.lt_or_ge (announcedSize data).toNat 5 with small | large
  · refine iff_of_true (npDeserialize_small fc dotu small) (npDeserialize_short fc' dotu ?_)
    exact (List.length_take_le _ _).trans (by omega)
  · have agree : ∀ j < (announcedSize data).toNat,
        data.getD j 0 = (data.take (announcedSize data).toNat).getD j 0 := fun j bound => by
      rw [List.getD_eq_getElem?_getD, List.getD_eq_getElem?_getD, List.getElem?_take_of_lt bound]
    rw [npDeserialize_eq_none_iff, npDeserialize_eq_none_iff, ← same, packetStop_congr dotu
      (announcedSize_congr fun j bound => agree j (by omega)) agree]

theorem announcedSize_take {data : List UInt8} {n : Nat} (enough : 4 ≤ n) :
    announcedSize (data.take n) = announcedSize data := by
  refine announcedSize_congr fun j bound => ?_
  rw [List.getD_eq_getElem?_getD, List.getD_eq_getElem?_getD, List.getElem?_take_of_lt (by omega)]

theorem announcedSize_append {data : List UInt8} (enough : 4 ≤ data.length) (rest : List UInt8) :
    announcedSize (data ++ rest) = announcedSize data := by
  refine announcedSize_congr fun j bound => ?_
  rw [List.getD_append _ _ _ _ (by omega)]

/-! ## The loop and the reference -/

section Reference

variable {msize : Nat} {dotu : Bool} {stream : List UInt8}

theorem lawful_frontMessage : Framing.Lawful (frontMessage msize dotu) := by
  intro stream size front
  rw [frontMessage] at front
  split_ifs at front with whole
  obtain rfl := Option.some.inj front
  refine ⟨Nat.pos_of_ne_zero fun none => ?_, whole.2.2.1⟩
  have accepted := whole.2.2.2
  rw [npDeserialize_short _ _ (by rw [none]; exact Nat.zero_le 4)] at accepted
  cases accepted

/-- A call holds what the transport has handed out. -/
structure Receiver.Sound (msize : Nat) (dotu : Bool) (stream : List UInt8) (s : Receiver) :
    Prop where
  pkt : s.fc.pkt.length = msize
  nonneg : 0 ≤ s.n
  le : s.n ≤ msize
  split : Framing.split (frontMessage msize dotu) stream =
    (s.enqueued.map Npfcall.message ++
        (Framing.split (frontMessage msize dotu) (s.received ++ s.unread)).1,
      (Framing.split (frontMessage msize dotu) (s.received ++ s.unread)).2)
  parsed : ∀ run ∈ s.parsed, (run.2.toNat : Int) ≤ run.1

/-- No whole message is in the packet. -/
def Receiver.Waiting (s : Receiver) : Prop := s.n < 4 ∨ s.n < cint (announcedSize s.fc.pkt)

namespace Receiver.Sound

variable {s : Receiver}

theorem length_received (sound : s.Sound msize dotu stream) :
    s.received.length = s.n.toNat := by
  have := sound.le
  rw [received, List.length_take, sound.pkt]
  omega

theorem announced (sound : s.Sound msize dotu stream) (enough : 4 ≤ s.n) :
    announcedSize (s.received ++ s.unread) = announcedSize s.fc.pkt := by
  rw [announcedSize_append (by rw [sound.length_received]; omega), received,
    announcedSize_take (by omega)]

/-- The first bytes of what is left are in the packet. -/
theorem take (sound : s.Sound msize dotu stream) {size : Nat} (inside : size ≤ s.n.toNat) :
    (s.received ++ s.unread).take size = s.fc.pkt.take size := by
  rw [List.take_append_of_le_length (by rw [sound.length_received]; exact inside), received,
    List.take_take, min_eq_left inside]

/-- A size that is negative as an `int` is too large. -/
theorem overruns (sound : s.Sound msize dotu stream) (small : msize < 2 ^ 31) (enough : 4 ≤ s.n)
    (large : 2 ^ 31 ≤ (announcedSize s.fc.pkt).toNat) : Overruns msize dotu stream := by
  have stuck : frontMessage msize dotu (s.received ++ s.unread) = none := by
    rw [frontMessage, sound.announced enough, if_neg (by omega)]
  have le := sound.le
  rw [Overruns, sound.split, Framing.split_of_none stuck]
  refine ⟨by omega, ?_, by rwa [sound.announced enough]⟩
  rw [List.length_append, sound.length_received]
  omega

end Receiver.Sound

/-- Where a part of the loop may end. -/
structure Leave.Reads (msize : Nat) (dotu : Bool) (stream unread : List UInt8) (s : Receiver) :
    Prop where
  sound : s.Sound msize dotu stream
  waiting : s.Waiting
  unread_eq : s.unread = unread

/-- The loop has ended in front of a message that the reference does not take either. -/
structure Leave.Ends (msize : Nat) (dotu : Bool) (stream : List UInt8) (s : Receiver) : Prop where
  sound : s.Sound msize dotu stream
  stuck : frontMessage msize dotu (s.received ++ s.unread) = none
  fits : ¬ Overruns msize dotu stream

/-- A message was parsed before it was there. -/
def Leave.Early (msize : Nat) (dotu : Bool) (stream : List UInt8) (s : Receiver) : Prop :=
  Overruns msize dotu stream ∧ ∃ run ∈ s.parsed, run.1 < run.2.toNat

/-- A whole message is enqueued. -/
theorem Receiver.Sound.enqueue {s : Receiver} (sound : s.Sound msize dotu stream)
    (enough : 4 ≤ s.n) (whole : ((announcedSize s.fc.pkt).toNat : Int) ≤ s.n) {fc : Npfcall}
    (accepted : npDeserialize s.fc s.fc.pkt dotu = some fc) (fc1 : Incall msize)
    (parsed : List (Int × UInt32)) (right : ∀ run ∈ parsed, (run.2.toNat : Int) ≤ run.1) :
    ({ s with
      fc := { fc1.val with pkt := store fc1.val.pkt 0 ((s.fc.pkt.drop
        (announcedSize s.fc.pkt).toNat).take (s.n - (announcedSize s.fc.pkt).toNat).toNat) }
      n := s.n - (announcedSize s.fc.pkt).toNat, parsed
      enqueued := s.enqueued ++ [{ fc with pkt := s.fc.pkt }]
      made := s.made + 1 } : Receiver).Sound msize dotu stream := by
  obtain ⟨size, announced⟩ : ∃ size, (announcedSize s.fc.pkt).toNat = size := ⟨_, rfl⟩
  have le := sound.le
  have pkt := sound.pkt
  rw [announced] at whole ⊢
  obtain ⟨rest, taken⟩ : ∃ rest, (s.fc.pkt.drop size).take (s.n - size).toNat = rest := ⟨_, rfl⟩
  have length : rest.length = (s.n - size).toNat := by
    rw [← taken, List.length_take, List.length_drop, pkt]
    omega
  rw [taken]
  have room := fc1.property
  have held : (store fc1.val.pkt 0 rest).take (s.n - size).toNat = rest := by
    rw [store, List.take_zero, List.nil_append, List.take_append_of_le_length length.ge,
      ← length, List.take_length]
  have left : (s.received ++ s.unread).drop size = rest ++ s.unread := by
    rw [List.drop_append_of_le_length (by rw [sound.length_received]; omega), ← taken,
      Receiver.received, List.drop_take]
    congr 3
    omega
  have front : frontMessage msize dotu (s.received ++ s.unread) = some size := by
    rw [frontMessage, sound.announced enough, announced, if_pos]
    refine ⟨?_, by omega, ?_, ?_⟩
    · rw [List.length_append, sound.length_received]
      omega
    · rw [List.length_append, sound.length_received]
      omega
    · rw [Option.isSome_iff_ne_none, ne_eq, ← announced, ← npDeserialize_congr s.fc default dotu,
        accepted]
      · exact Option.some_ne_none fc
      · exact (sound.take (by omega)).symm
  refine ⟨?_, by dsimp only; omega, by dsimp only; omega, ?_, right⟩
  · simp only [store, List.length_append, List.length_take, List.length_drop]
    omega
  · rw [sound.split, Framing.split_of_some lawful_frontMessage front, left,
      sound.take (by omega)]
    simp only [Receiver.received, held, List.map_append, List.append_assoc, List.map_cons,
      List.map_nil, List.cons_append, List.nil_append, Npfcall.message, announced]

theorem cint_of_small {size : UInt32} (small : size.toNat < 2 ^ 31) :
    cint size = size.toNat := if_pos small

theorem cint_of_large {size : UInt32} (large : 2 ^ 31 ≤ size.toNat) : cint size < 0 := by
  have bound := size.toNat_lt
  rw [cint, if_neg (by omega)]
  omega

/-- One round. -/
theorem round_spec (small : msize < 2 ^ 31) (incalls : Nat → Incall msize) {s : Receiver}
    (sound : s.Sound msize dotu stream) :
    ∃ leave s', round msize dotu incalls s = (leave, s') ∧
      (leave = .again ∧ s'.Sound msize dotu stream ∧ s'.n < s.n ∧ 0 < s'.n ∧
          s'.unread = s.unread ∨
        leave = .reads ∧ Leave.Reads msize dotu stream s.unread s' ∨
        leave = .ends ∧ Leave.Ends msize dotu stream s' ∨
        leave ≠ .again ∧ leave ≠ .reads ∧ Leave.Early msize dotu stream s') := by
  unfold round
  by_cases short : s.n < 4
  · rw [if_pos short]
    exact ⟨_, _, rfl, .inr (.inl ⟨rfl, sound, .inl short, rfl⟩)⟩
  rw [if_neg short]
  by_cases partial_ : s.n < cint (announcedSize s.fc.pkt)
  · simp only [if_pos partial_]
    exact ⟨_, _, rfl, .inr (.inl ⟨rfl, sound, .inr partial_, rfl⟩)⟩
  simp only [if_neg partial_]
  have le := sound.le
  rcases Nat.lt_or_ge (announcedSize s.fc.pkt).toNat (2 ^ 31) with fits | large
  · rw [cint_of_small fits] at partial_ ⊢
    have right : ∀ run ∈ s.parsed ++ [(s.n, announcedSize s.fc.pkt)],
        (run.2.toNat : Int) ≤ run.1 := by
      intro run member
      rcases List.mem_append.mp member with member | member
      · exact sound.parsed run member
      · rw [List.mem_singleton.mp member]
        exact not_lt.mp partial_
    cases accepted : npDeserialize s.fc s.fc.pkt dotu with
    | none =>
      have stuck : frontMessage msize dotu (s.received ++ s.unread) = none := by
        rw [frontMessage, sound.announced (not_lt.mp short), if_neg]
        rintro ⟨-, -, -, front⟩
        rw [(npDeserialize_congr s.fc default dotu (sound.take (by omega)).symm).mp accepted]
          at front
        cases front
      refine ⟨_, _, rfl, .inr (.inr (.inl ⟨rfl, ?_, stuck, ?_⟩))⟩
      · exact ⟨sound.pkt, sound.nonneg, le, sound.split, right⟩
      · rintro ⟨-, -, large⟩
        rw [sound.split, Framing.split_of_none stuck, sound.announced (not_lt.mp short)] at large
        omega
    | some fc =>
      have next := sound.enqueue (not_lt.mp short) (not_lt.mp partial_) accepted
        (incalls s.made) _ right
      dsimp only
      rw [if_neg (by omega)]
      by_cases more : s.n - (announcedSize s.fc.pkt).toNat > 0
      · rw [if_pos more]
        refine ⟨_, _, rfl, .inl ⟨rfl, next, ?_, more, rfl⟩⟩
        have positive : ¬ (announcedSize s.fc.pkt).toNat < 5 := fun small =>
          Option.some_ne_none fc (accepted.symm.trans (npDeserialize_small _ _ small))
        dsimp only
        omega
      · rw [if_neg more]
        exact ⟨_, _, rfl, .inr (.inl ⟨rfl, next, .inl (by dsimp only; omega), rfl⟩)⟩
  · have early : Overruns msize dotu stream := sound.overruns small (not_lt.mp short) large
    have run : ∃ run ∈ s.parsed ++ [(s.n, announcedSize s.fc.pkt)], run.1 < run.2.toNat :=
      ⟨_, List.mem_append_right _ (List.mem_singleton_self _), by dsimp only; omega⟩
    cases accepted : npDeserialize s.fc s.fc.pkt dotu with
    | none => exact ⟨_, _, rfl, .inr (.inr (.inr ⟨nofun, nofun, early, run⟩))⟩
    | some fc =>
      have negative := cint_of_large large
      dsimp only
      rw [if_pos (by omega)]
      exact ⟨_, _, rfl, .inr (.inr (.inr ⟨nofun, nofun, early, run⟩))⟩

/-- All rounds on what is in the packet. -/
theorem again_spec (small : msize < 2 ^ 31) (incalls : Nat → Incall msize) (fuel : Nat)
    {s : Receiver} (sound : s.Sound msize dotu stream) (enough : s.n.toNat < fuel) :
    ∃ leave s', again msize dotu incalls fuel s = (leave, s') ∧
      (leave = .reads ∧ Leave.Reads msize dotu stream s.unread s' ∨
        leave = .ends ∧ Leave.Ends msize dotu stream s' ∨
        leave ≠ .reads ∧ Leave.Early msize dotu stream s') := by
  induction fuel generalizing s with
  | zero => exact (Nat.not_lt_zero _ enough).elim
  | succ fuel ih =>
    obtain ⟨leave, s', ran, outcome⟩ := round_spec small incalls sound
    rw [again, ran]
    rcases outcome with
      ⟨rfl, sound', less, more, same⟩ | ⟨rfl, reads⟩ | ⟨rfl, ends⟩ | ⟨notAgain, early⟩
    · rw [← same]
      exact ih sound' (by omega)
    · exact ⟨_, _, rfl, .inl ⟨rfl, reads⟩⟩
    · exact ⟨_, _, rfl, .inr (.inl ⟨rfl, ends⟩)⟩
    · refine ⟨leave, s', ?_, .inr (.inr early)⟩
      cases leave with
      | again => exact (notAgain rfl).elim
      | _ => rfl

/-- Bytes arrive. -/
theorem Receiver.Sound.read {s : Receiver} (sound : s.Sound msize dotu stream) {i : Nat}
    (room : i ≤ (msize - s.n).toNat) (inside : i ≤ s.unread.length) :
    ({ s with
      fc := { s.fc with pkt := store s.fc.pkt s.n.toNat (s.unread.take i) }
      n := s.n + i, unread := s.unread.drop i } : Receiver).Sound msize dotu stream := by
  have le := sound.le
  have nonneg := sound.nonneg
  have pkt := sound.pkt
  have length : (s.unread.take i).length = i := List.length_take_of_le inside
  have placed : s.received <+: s.fc.pkt := List.take_prefix _ _
  have position := sound.length_received
  have room : s.received.length + (s.unread.take i).length ≤ s.fc.pkt.length := by omega
  obtain ⟨stored, size⟩ := store_prefix placed room
  rw [position] at stored size
  have received : (store s.fc.pkt s.n.toNat (s.unread.take i)).take (s.n + i).toNat =
      s.received ++ s.unread.take i := by
    rw [List.prefix_iff_eq_take.mp stored, List.length_append, position, length]
    congr 1
    omega
  have same : s.received ++ s.unread =
      (store s.fc.pkt s.n.toNat (s.unread.take i)).take (s.n + i).toNat ++ s.unread.drop i := by
    rw [received, List.append_assoc, List.take_append_drop]
  have split := sound.split
  rw [same] at split
  exact ⟨size.trans pkt, by dsimp only; omega, by dsimp only; omega, split, sound.parsed⟩

/-- The transport has nothing to hand out, or the packet has no room. -/
theorem Receiver.Sound.stuck {s : Receiver} (sound : s.Sound msize dotu stream)
    (waiting : s.Waiting) (small : msize < 2 ^ 31)
    (done : (msize - s.n).toNat = 0 ∨ s.unread = []) :
    Leave.Ends msize dotu stream s := by
  have le := sound.le
  have nonneg := sound.nonneg
  have length : (s.received ++ s.unread).length = s.n.toNat + s.unread.length := by
    rw [List.length_append, sound.length_received]
  -- With a size field in the packet, the reader waits for the rest of a message.
  have longer : 4 ≤ s.n → (announcedSize s.fc.pkt).toNat < 2 ^ 31 ∧
      s.n < (announcedSize s.fc.pkt).toNat := by
    intro enough
    have behind : s.n < cint (announcedSize s.fc.pkt) := waiting.resolve_left (not_lt.mpr enough)
    rcases Nat.lt_or_ge (announcedSize s.fc.pkt).toNat (2 ^ 31) with fits | large
    · exact ⟨fits, cint_of_small fits ▸ behind⟩
    · have negative := cint_of_large large
      omega
  have enough : 4 ≤ (s.received ++ s.unread).length → 4 ≤ msize → 4 ≤ s.n := by
    rw [length]
    rcases done with full | none
    · omega
    · rw [none, List.length_nil]
      omega
  have stuck : frontMessage msize dotu (s.received ++ s.unread) = none := by
    rw [frontMessage, if_neg]
    rintro ⟨four, fits, whole, accepted⟩
    rcases Nat.lt_or_ge msize 4 with tiny | room
    · rw [npDeserialize_short _ _ ((List.length_take_le _ _).trans (by omega))] at accepted
      cases accepted
    · obtain ⟨-, more⟩ := longer (enough four room)
      rw [sound.announced (enough four room)] at fits whole
      rw [length] at whole
      rcases done with full | none
      · omega
      · rw [none, List.length_nil] at whole
        omega
  refine ⟨sound, stuck, ?_⟩
  rintro ⟨room, four, large⟩
  rw [sound.split, Framing.split_of_none stuck] at four large
  rw [sound.announced (enough four room)] at large
  have := longer (enough four room)
  omega

theorem readLoop_spec (small : msize < 2 ^ 31) (incalls : Nat → Incall msize) (cuts : Nat → Nat)
    (fuel k : Nat) {s : Receiver} (sound : s.Sound msize dotu stream) (waiting : s.Waiting)
    (enough : s.unread.length < fuel) :
    ∃ leave s', readLoop msize dotu incalls cuts fuel k s = (leave, s') ∧
      (leave = .ends ∧ Leave.Ends msize dotu stream s' ∨ Leave.Early msize dotu stream s') := by
  induction fuel generalizing s k with
  | zero => exact (Nat.not_lt_zero _ enough).elim
  | succ fuel ih =>
    rw [readLoop]
    obtain ⟨i, taken⟩ : ∃ i, min (cuts k + 1) (min (msize - s.n).toNat s.unread.length) = i :=
      ⟨_, rfl⟩
    simp only [taken]
    by_cases none : i = 0
    · rw [if_pos none]
      have done : (msize - s.n).toNat = 0 ∨ s.unread = [] := by
        rw [← List.length_eq_zero_iff]
        omega
      exact ⟨_, _, rfl, .inl ⟨rfl, sound.stuck waiting small done⟩⟩
    · rw [if_neg none]
      have next := sound.read (i := i) (by omega) (by omega)
      obtain ⟨leave, s', ran, outcome⟩ := again_spec small incalls _ next (Nat.lt_succ_self _)
      rw [ran]
      rcases outcome with ⟨rfl, reads⟩ | ⟨rfl, ends⟩ | ⟨notReads, early⟩
      · refine ih (k + 1) reads.sound reads.waiting ?_
        rw [reads.unread_eq, List.length_drop]
        omega
      · exact ⟨_, _, rfl, .inl ⟨rfl, ends⟩⟩
      · refine ⟨leave, s', ?_, .inr early⟩
        cases leave with
        | reads => exact (notReads rfl).elim
        | _ => rfl

/-- Every stream is taken apart as the reference does, unless the reader comes to a size that is
negative as an `int`; then a message is parsed before it is there. -/
theorem npConnReadProc_spec (small : msize < 2 ^ 31) (dotu : Bool) (stream : List UInt8)
    (incalls : Nat → Incall msize) (cuts : Nat → Nat) :
    ∃ leave s, npConnReadProc msize dotu incalls cuts stream = (leave, s) ∧
      (leave = .ends ∧ Leave.Ends msize dotu stream s ∨ Leave.Early msize dotu stream s) := by
  refine readLoop_spec small incalls cuts _ 0 ?_ (.inl four_pos) (Nat.lt_succ_self _)
  exact ⟨(incalls 0).property, le_rfl, Nat.cast_nonneg _, rfl, nofun⟩

theorem not_framingKept (small : msize < 2 ^ 31) (overruns : Overruns msize dotu stream) :
    ¬ FramingKept msize dotu stream := by
  intro kept
  have incalls : Nat → Incall msize := fun _ =>
    ⟨{ (default : Npfcall) with pkt := List.replicate msize 0 }, List.length_replicate⟩
  have kept := kept incalls fun _ => 0
  obtain ⟨leave, s, ran, outcome⟩ := npConnReadProc_spec small dotu stream incalls fun _ => 0
  rw [ran] at kept
  rcases outcome with ⟨-, ends⟩ | ⟨-, run, member, early⟩
  · exact ends.fits overruns
  · exact early.not_ge (kept.2.2 run member)

end Reference

/-- The reader enqueues the messages of the reference however the stream is cut, parses whole
messages only and copies nothing from outside of a packet, exactly when the reference does not come
to a size of `2 ^ 31` or more.  `msize` is the `int` of `np_conn_read_proc`. -/
theorem framingKept_iff (msize : Fin (2 ^ 31)) (dotu : Bool) (stream : List UInt8) :
    FramingKept msize dotu stream ↔ ¬ Overruns msize dotu stream := by
  refine ⟨fun kept overruns => not_framingKept msize.isLt overruns kept, fun fits => ?_⟩
  intro incalls cuts
  obtain ⟨leave, s, ran, outcome⟩ := npConnReadProc_spec msize.isLt dotu stream incalls cuts
  rw [ran]
  rcases outcome with ⟨rfl, ends⟩ | early
  · refine ⟨rfl, ?_, ends.sound.parsed⟩
    rw [ends.sound.split, Framing.split_of_none ends.stuck, List.append_nil]
  · exact (fits early.1).elim

/-- A size of `2 ^ 31` is negative for the reader, and `np_deserialize` is called with four bytes.
-/
theorem not_framingKept_all :
    ¬ ∀ (msize : Fin (2 ^ 31)) (dotu : Bool) (stream : List UInt8),
      FramingKept msize dotu stream := by
  intro all
  have stuck : frontMessage 8216 true [0, 0, 0, 0x80] = none := by decide
  have overruns : Overruns 8216 true [0, 0, 0, 0x80] := by
    rw [Overruns, Framing.split_of_none stuck]
    decide
  exact not_framingKept (by norm_num) overruns (all 8216 true [0, 0, 0, 0x80])

end Npfs
