import Npfs.Delivery
import Npfs.Handlers
import Npfs.Matching

/-!
# The replies of the client

`npc_read_proc` of `libnpclient/fsys.c`.  Its loop is the one of `np_conn_read_proc`, and each message
is for the first pending request with its tag.  The message size and the dialect stay, and
allocations do not fail.
-/

namespace Npfs

/-! ## The reader -/

/-- `ECONNABORTED` of Linux. -/
def ECONNABORTED : UInt32 := 103

def Econn : CStr := cstr "connection closed"

def Emismatch : CStr := cstr "response mismatch"

/-- What `npc_read_proc` reads of an `Npcreq`. -/
structure Npcreq where
  tag : UInt16
  /-- `req->tc->type`. -/
  type : UInt8
  deriving DecidableEq

/-- What the callback of a request finds in it. -/
structure Completion where
  req : Npcreq
  rc : Option Npfcall
  ename : Option CStr
  ecode : UInt32
  /-- The tag goes back to the pool behind the callback. -/
  put : Bool

/-- A request with its reply. -/
def Npcreq.reply (req : Npcreq) (fc : Npfcall) (flushed : Bool) : Completion :=
  let failure : Option CStr × UInt32 :=
    if fc.type = MsgType.rerror.code then (some (npStrdup (fc.text fc.ename)), fc.ecode)
    else if fc.type.toNat ≠ req.type.toNat + 1 then (some Emismatch, EIO)
    else (none, 0)
  { req, rc := some fc, ename := failure.1, ecode := failure.2, put := !flushed }

/-- A request without a reply. -/
def Npcreq.lost (req : Npcreq) : Completion :=
  { req, rc := none, ename := some Econn, ecode := ECONNABORTED, put := false }

/-- The reader, and the requests that it knows. -/
structure Npcreader extends Receiver where
  /-- `fs->pend_first`. -/
  pending : List Npcreq
  /-- The callbacks that were called. -/
  finished : List Completion
  /-- The messages that no request was pending for. -/
  unmatched : List Npfcall

/-- What the other threads and the transport do. -/
structure Around (msize : ℕ) where
  /-- The calls of `npc_fcall_alloc`. -/
  fcalls : ℕ → Incall msize
  /-- The requests that become pending before the search for the message `k`. -/
  sent : ℕ → List Npcreq
  /-- The requests that are marked when the message `k` is handled. -/
  flushed : ℕ → Npcreq → Bool
  /-- The transport hands out at most `cuts k` bytes more than one in the round `k` of the loop. -/
  cuts : ℕ → ℕ
  /-- The requests that are unsent when the loop has ended. -/
  unsent : List Npcreq

/-- The search of `npc_read_proc`: the request with the tag, and the list without it. -/
def takePending (tag : UInt16) : List Npcreq → Option (Npcreq × List Npcreq)
  | [] => none
  | req :: next =>
    if req.tag = tag then some (req, next)
    else (takePending tag next).map fun (found, left) => (found, req :: left)

namespace Npcreader

variable {msize : ℕ} (dotu : Bool) (w : Around msize)

/-- What is done with a message. -/
def receive (fc : Npfcall) (s : Npcreader) : Npcreader :=
  let k := s.enqueued.length
  let pending := w.sent k ++ s.pending
  let s := { s with enqueued := s.enqueued ++ [fc] }
  match takePending fc.tag pending with
  | some (req, left) =>
    { s with pending := left, finished := s.finished ++ [req.reply fc (w.flushed k req)] }
  | none => { s with pending, unmatched := s.unmatched ++ [fc] }

/-- What stands between `again` and the end of the loop. -/
def round (s : Npcreader) : Leave × Npcreader :=
  if s.n < 4 then
    (.reads, s)
  else
    let size := cint (announcedSize s.fc.pkt)
    if s.n < size then
      (.reads, s)
    else
      let s := { s with parsed := s.parsed ++ [(s.n, announcedSize s.fc.pkt)] }
      match npDeserialize s.fc s.fc.pkt dotu with
      | none => (.ends, s)
      | some fc =>
        let fc1 := (w.fcalls s.made).val
        if s.n > size ∧ (size < 0 ∨ msize < s.n) then
          (.wild, s)
        else
          let rest := (s.fc.pkt.drop size.toNat).take (s.n - size).toNat
          let n := s.n - size
          let s := s.receive w { fc with pkt := s.fc.pkt }
          let s := { s with
            fc := { fc1 with pkt := store fc1.pkt 0 rest }, n, made := s.made + 1 }
          (if n > 0 then .again else .reads, s)

/-- The rounds from `again` on. -/
def again : (fuel : ℕ) → Npcreader → Leave × Npcreader
  | 0, s => (.spins, s)
  | fuel + 1, s => match s.round dotu w with
    | (.again, s) => again fuel s
    | left => left

def readLoop : (fuel k : ℕ) → Npcreader → Leave × Npcreader
  | 0, _, s => (.spins, s)
  | fuel + 1, k, s =>
    let i := min (w.cuts k + 1) (min (msize - s.n).toNat s.unread.length)
    if i = 0 then
      (.ends, s)
    else
      let s := { s with
        fc := { s.fc with pkt := store s.fc.pkt s.n.toNat (s.unread.take i) },
        n := s.n + i, unread := s.unread.drop i }
      match s.again dotu w (s.n.toNat + 1) with
      | (.reads, s) => readLoop fuel (k + 1) s
      | left => left

/-- What precedes the loop. -/
def start (stream : List UInt8) : Npcreader :=
  { fc := (w.fcalls 0).val, n := 0, unread := stream, enqueued := [], parsed := [], made := 1,
    pending := [], finished := [], unmatched := [] }

/-- What follows the loop. -/
def abort (s : Npcreader) : Npcreader :=
  let pending := w.sent s.enqueued.length ++ s.pending
  { s with
    pending := []
    finished := s.finished ++ w.unsent.map Npcreq.lost ++ pending.map Npcreq.lost }

end Npcreader

section Stream

variable {msize : ℕ} {dotu : Bool} {w : Around msize} {s : Npcreader}

namespace Npcreader

@[simp] theorem receive_toReceiver (fc : Npfcall) (s : Npcreader) :
    (s.receive w fc).toReceiver = { s.toReceiver with enqueued := s.enqueued ++ [fc] } := by
  unfold receive
  dsimp only
  split <;> rfl

end Npcreader

/-! ## Requests and replies -/

/-- A request and its reply, if it has one. -/
def Completion.pair (c : Completion) : Option (Npcreq × Npfcall) := c.rc.map fun fc => (c.req, fc)

theorem takePending_eq (tag : UInt16) (pending : List Npcreq) :
    takePending tag pending = (pending.find? fun req => req.tag = tag).map fun req =>
      (req, pending.eraseP fun req => req.tag = tag) := by
  induction pending with
  | nil => rfl
  | cons req next ih =>
      by_cases same : req.tag = tag
      · simp [takePending, same]
      · simp [takePending, same, ih, Function.comp_def]

/-- The requests that become pending and the replies to them. -/
def Around.matching (w : Around msize) : Matching Npcreq Npfcall UInt16 :=
  ⟨Npcreq.tag, Npfcall.tag, w.sent⟩

/-- Each message was for the first request with its tag, and the others are pending. -/
structure Npcreader.Matched (w : Around msize) (s : Npcreader) : Prop where
  desk : w.matching.run s.enqueued =
    ⟨s.pending, s.finished.filterMap Completion.pair, s.unmatched⟩
  replied : ∀ c ∈ s.finished, ∃ req fc put, c = Npcreq.reply req fc put

namespace Npcreader

namespace Matched

theorem receive (matched : s.Matched w) (fc : Npfcall) : (s.receive w fc).Matched w := by
  obtain ⟨desk, replied⟩ := matched
  unfold Npcreader.receive
  dsimp only
  rw [takePending_eq]
  cases found : (w.sent s.enqueued.length ++ s.pending).find? fun req => req.tag = fc.tag with
  | none =>
      refine ⟨?_, replied⟩
      dsimp only [Option.map_none]
      rw [Matching.run_snoc, desk, Matching.answer]
      split
      · rfl
      · next other => cases other.symm.trans found
  | some req =>
      refine ⟨?_, ?_⟩
      · dsimp only [Option.map_some]
        rw [Matching.run_snoc, desk, Matching.answer]
        split
        · next other => cases other.symm.trans found
        · next other =>
          obtain rfl := Option.some.inj (other.symm.trans found)
          rw [List.filterMap_append]
          rfl
      · intro c member
        rcases List.mem_append.mp member with member | single
        · exact replied c member
        · exact ⟨req, fc, _, List.mem_singleton.mp single⟩

end Matched

/-- The loop takes the messages off the stream as `np_conn_read_proc` does, and each of them is for
the first request with its tag. -/
def Follows (w : Around msize) (out : Leave × Npcreader) (out' : Leave × Receiver) : Prop :=
  out' = out.map id toReceiver ∧ out.2.Matched w

theorem Matched.round (matched : s.Matched w) (dotu : Bool) :
    Follows w (s.round dotu w) (Npfs.round msize dotu w.fcalls s.toReceiver) := by
  unfold Npfs.round Npcreader.round
  dsimp only
  split
  · exact ⟨rfl, matched⟩
  split
  · exact ⟨rfl, matched⟩
  cases npDeserialize s.fc s.fc.pkt dotu with
  | none => exact ⟨rfl, matched.desk, matched.replied⟩
  | some fc =>
      simp only [gt_iff_lt, sub_pos]
      split
      · exact ⟨rfl, matched.desk, matched.replied⟩
      · have next := @receive _ w { s with parsed := s.parsed ++ [(s.n, announcedSize s.fc.pkt)] }
          ⟨matched.desk, matched.replied⟩ { fc with pkt := s.fc.pkt }
        exact ⟨by simp, next.desk, next.replied⟩

theorem Matched.again (matched : s.Matched w) (dotu : Bool) (fuel : ℕ) :
    Follows w (s.again dotu w fuel) (Npfs.again msize dotu w.fcalls fuel s.toReceiver) := by
  induction fuel generalizing s with
  | zero => exact ⟨rfl, matched⟩
  | succ fuel ih =>
      obtain ⟨same, next⟩ := matched.round dotu
      rw [Npfs.again, Npcreader.again, same]
      generalize s.round dotu w = out at next ⊢
      obtain ⟨leave, s'⟩ := out
      cases leave with
      | again => exact ih next
      | _ => exact ⟨rfl, next⟩

theorem Matched.readLoop (matched : s.Matched w) (dotu : Bool) (fuel k : ℕ) :
    Follows w (s.readLoop dotu w fuel k)
      (Npfs.readLoop msize dotu w.fcalls w.cuts fuel k s.toReceiver) := by
  induction fuel generalizing s k with
  | zero => exact ⟨rfl, matched⟩
  | succ fuel ih =>
      rw [Npfs.readLoop, Npcreader.readLoop]
      dsimp only
      split
      · exact ⟨rfl, matched⟩
      · generalize min (w.cuts k + 1) (min (msize - s.n).toNat s.unread.length) = i
        have loaded : Npcreader.Matched w { s with
            fc := { s.fc with pkt := store s.fc.pkt s.n.toNat (s.unread.take i) },
            n := s.n + i, unread := s.unread.drop i } := ⟨matched.desk, matched.replied⟩
        obtain ⟨same, next⟩ := loaded.again dotu ((s.n + i).toNat + 1)
        rw [same]
        generalize Npcreader.again dotu w ((s.n + i).toNat + 1) _ = out at next ⊢
        obtain ⟨leave, s'⟩ := out
        cases leave with
        | reads => exact ih next (k + 1)
        | _ => exact ⟨rfl, next⟩

namespace Matched

end Matched

end Npcreader

/-! ## What becomes of the requests -/

variable {stream : List UInt8}

/-- The messages are the frames of the stream. -/
theorem Leave.Ends.frames (ends : Leave.Ends msize dotu stream s.toReceiver) :
    (Framing.split (frontMessage msize dotu) stream).1 = s.enqueued.map Npfcall.message := by
  rw [ends.sound.split, Framing.split_of_none ends.stuck, List.append_nil]

/-- Every request has been called back once: with the reply that it took, or because the connection
has ended.  Each message was for one request at most, in their order. -/
structure Npcreader.Finishes (messages : List (List UInt8)) (requests : List Npcreq)
    (s : Npcreader) : Prop where
  once : (s.finished.map Completion.req).Perm requests
  own : ∀ c ∈ s.finished, ∀ fc, c.rc = some fc → fc.tag = c.req.tag
  order : ((s.finished.filterMap Completion.rc).map Npfcall.message).Sublist messages
  succeeds : ∀ c ∈ s.finished, c.ename = none →
    ∃ fc, c.rc = some fc ∧ fc.type.toNat = c.req.type.toNat + 1
  put : ∀ c ∈ s.finished, c.put = true → c.rc.isSome

end Stream

/-- The tag of a reply. -/
def replyTag (call : CreateCall × Option UInt16) : UInt16 := call.2.getD NOTAG

/-- A request takes a tag that no other request has; a tag is free again behind its reply. -/
structure Careful (sent : ℕ → List Npcreq) (tags : List UInt16) : Prop where
  together : ∀ k < tags.length, ((sent k).map Npcreq.tag).Nodup
  between : ∀ i j, i < j → j < tags.length → ∀ req ∈ sent i, ∀ req' ∈ sent j,
    req.tag = req'.tag → req.tag ∈ (tags.take j).drop i

section Replies

variable {npErrnoToLinux : UInt32 → UInt32} {msize : ℕ} {dotu : Bool}
  {calls : List (CreateCall × Option UInt16)} {packets : List (List UInt8)}
  {messages : List Npfcall} {w : Around msize}

theorem SentCall.fits (sentCalls : SentCall npErrnoToLinux msize dotu calls packets)
    (small : msize < 2 ^ 31) : ¬ Overruns msize dotu packets.flatten := by
  rintro ⟨-, some, -⟩
  rw [sentCalls.split small] at some
  cases some

theorem Careful.separated (careful : Careful w.sent (messages.map Npfcall.tag)) :
    w.matching.Separated messages := by
  refine ⟨fun k inside => careful.together k (by simpa using inside), ?_⟩
  intro i j before inside req come req' come' same
  have between := careful.between i j before (by simpa using inside) req come req' come' same
  rw [← List.map_take, ← List.map_drop] at between
  exact List.mem_map.mp between

end Replies

/-- The reply `j` of a server is the first with the tag of a request that came before it. -/
structure Answers (calls : List (CreateCall × Option UInt16)) (req : Npcreq) (i j : ℕ)
    (call : CreateCall × Option UInt16) : Prop where
  after : i ≤ j
  found : calls[j]? = some call
  tag : replyTag call = req.tag
  first : req.tag ∉ ((calls.map replyTag).take j).drop i

/-- A `Twrite` and a `Tclunk` that are pending from the start. -/
def Around.two : Around (64 : Fin (2 ^ 31)) where
  fcalls _ := ⟨{ (default : Npfcall) with pkt := List.replicate 64 0 }, rfl⟩
  sent
    | 0 => [⟨3, MsgType.twrite.code⟩, ⟨4, MsgType.tclunk.code⟩]
    | _ => []
  flushed _ _ := false
  cuts k := k
  unsent := []

end Npfs
