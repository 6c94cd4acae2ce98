import Npfs.LinkedQueue
import Npfs.Transition

/-!
# The RDMA transport

`libnpfs/rdmatrans.c`: the buffers of a connection, the reader that polls the completion queue, any
number of writers, and the queue pair, which takes receive buffers in the order in which they were
posted and sends in the order in which they were posted.  Sizes are `int`s at most `msize`.
-/

namespace Npfs

/-- `Rdmactx`: a buffer and what is known about it. -/
structure Rdmactx where
  used : Bool
  pos : ℕ
  len : ℕ
  next : Option ℕ
  buf : List UInt8

/-- What is left of a message. -/
def Rdmactx.unread (ctx : Rdmactx) : List UInt8 := ctx.buf.drop ctx.pos

/-- What is sent of a buffer. -/
def Rdmactx.packet (ctx : Rdmactx) : List UInt8 := ctx.buf.take ctx.len

/-- `struct ibv_wc`. -/
inductive Wc where
  | recv (ctx byteLen : ℕ)
  | send (ctx : ℕ)
  /-- The status is not `IBV_WC_SUCCESS`. -/
  | failed
  deriving DecidableEq

/-- The buffer of a message that has arrived, and the size of the message. -/
def Wc.received : Wc → Option (ℕ × ℕ)
  | .recv ctx byteLen => some (ctx, byteLen)
  | _ => none

/-- The buffer of a message that has been sent. -/
def Wc.sent : Wc → Option ℕ
  | .send ctx => some ctx
  | _ => none

/-- The transport, its queue pair, and what went over it. -/
structure Rdmatrans where
  msize : ℕ
  qDepth : ℕ
  rcvBuf : ℕ → Rdmactx
  sndBuf : ℕ → Rdmactx
  rfirst : Option ℕ
  rlast : Option ℕ
  /-- The reader is in the loop behind `poll`: the count it was called with, and `closing`. -/
  polling : Option (ℕ × Bool)
  /-- The writers between the lock and `ibv_post_send`. -/
  writers : List (ℕ × List UInt8)
  /-- The receive queue, the send queue and the completion queue. -/
  rq : List ℕ
  sq : List ℕ
  cq : List Wc
  /-- The queue pair is in its error state. -/
  broken : Bool
  /-- A packet has been copied beyond its buffer. -/
  wild : Bool
  /-- The messages of the other side that are in a buffer. -/
  arrived : List (List UInt8)
  /-- What `rdma_trans_read` has returned. -/
  reads : List (List UInt8)
  /-- The data of the writers in the order in which they were posted. -/
  written : List (List UInt8)
  /-- The messages that the other side has got. -/
  delivered : List (List UInt8)

/-- What happens next. -/
inductive RdmaEvent where
  /-- `rdma_trans_read` is called; `posts` tells whether `ibv_post_recv` succeeds. -/
  | read (count : ℕ) (posts : Bool)
  /-- `ibv_poll_cq` in the loop of the reader. -/
  | poll (posts : Bool)
  /-- `ibv_get_cq_event` fails. -/
  | interrupt
  /-- `rdma_trans_write` up to the unlock. -/
  | write (data : List UInt8)
  /-- `ibv_post_send` of one of the writers, and its outcome. -/
  | post (i : ℕ) (posts : Bool)
  /-- The queue pair puts a message into the next receive buffer. -/
  | arrive (msg : List UInt8)
  /-- The queue pair sends the next buffer. -/
  | send
  /-- The next receive, or the next send, completes with an error. -/
  | flushRecv
  | flushSend

namespace Rdmatrans

/-- `np_rdmatrans_create`. -/
def create (msize qDepth : ℕ) : Rdmatrans where
  msize := msize
  qDepth := qDepth
  rcvBuf := fun _ => ⟨true, 0, 0, none, []⟩
  sndBuf := fun _ => ⟨false, 0, 0, none, []⟩
  rfirst := none
  rlast := none
  polling := none
  writers := []
  rq := List.range qDepth
  sq := []
  cq := []
  broken := false
  wild := false
  arrived := []
  reads := []
  written := []
  delivered := []

variable (rdma : Rdmatrans)

/-- Assignments to a receive buffer. -/
def setRcv (ctx : ℕ) (change : Rdmactx → Rdmactx) : Rdmatrans :=
  { rdma with rcvBuf := Function.update rdma.rcvBuf ctx (change (rdma.rcvBuf ctx)) }

/-- Assignments to a send buffer. -/
def setSnd (ctx : ℕ) (change : Rdmactx → Rdmactx) : Rdmatrans :=
  { rdma with sndBuf := Function.update rdma.sndBuf ctx (change (rdma.sndBuf ctx)) }

/-- `rdma_post_recv`. -/
def rdmaPostRecv (ctx : ℕ) (posts : Bool) : Rdmatrans :=
  let rdma := rdma.setRcv ctx fun c => { c with next := none, used := true }
  { rdma with rq := if posts then rdma.rq ++ [ctx] else rdma.rq }

/-- What `rdma_trans_read` does with the first buffer of the list. -/
def take (ctx count : ℕ) (posts : Bool) : Rdmatrans :=
  let c := rdma.rcvBuf ctx
  let n := min (c.len - c.pos) count
  let rdma := { rdma with reads := rdma.reads ++ [c.unread.take n], polling := none }
  let rdma := rdma.setRcv ctx fun c => { c with pos := c.pos + n }
  if c.pos + n = c.len then
    { rdma with
      rfirst := c.next
      rlast := if rdma.rlast = some ctx then none else rdma.rlast }.rdmaPostRecv ctx posts
  else
    rdma

/-- `rdma_trans_read` from `again` on: `poll` is where it goes when the list is empty. -/
def again (count : ℕ) (posts : Bool) : Rdmatrans :=
  match rdma.rfirst with
  | some ctx => rdma.take ctx count posts
  | none => { rdma with polling := some (count, false) }

/-- A received buffer is put at the end of the list. -/
def enqueue (ctx byteLen : ℕ) : Rdmatrans :=
  let rdma := rdma.setRcv ctx fun c => { c with used := false, len := byteLen, pos := 0 }
  let rdma :=
    match rdma.rlast with
    | some last => rdma.setRcv last fun c => { c with next := some ctx }
    | none => { rdma with rfirst := some ctx }
  { rdma with rlast := some ctx }.setRcv ctx fun c => { c with next := none }

/-- `ibv_poll_cq`, and what the loop does with the completion. -/
def pollCq (count : ℕ) (closing posts : Bool) : Rdmatrans :=
  match rdma.cq with
  | [] => if closing then { rdma with polling := none } else rdma
  | .failed :: cq => { rdma with cq, polling := some (count, true) }
  | .recv ctx byteLen :: cq => ({ rdma with cq }.enqueue ctx byteLen).again count posts
  | .send ctx :: cq => { rdma with cq }.setSnd ctx fun c => { c with used := false }

/-- The first send buffer that is not used. -/
def slot : Option ℕ := (List.range rdma.qDepth).find? fun ctx => !(rdma.sndBuf ctx).used

/-- One step; `none` when it cannot be taken. -/
def step (event : RdmaEvent) : Option Rdmatrans :=
  if rdma.wild then none else
  match event with
  | .read count posts => if rdma.polling = none then some (rdma.again count posts) else none
  | .poll posts => rdma.polling.map fun (count, closing) => rdma.pollCq count closing posts
  | .interrupt => if rdma.polling.isSome then some { rdma with polling := none } else none
  | .write data => rdma.slot.map fun ctx =>
    if rdma.msize < data.length then { rdma with wild := true } else
    { rdma with writers := rdma.writers ++ [(ctx, data)] }.setSnd ctx fun c =>
      { c with used := true, len := data.length, pos := 0, buf := data }
  | .post i posts => rdma.writers[i]?.map fun (ctx, data) =>
    let rdma := { rdma with writers := rdma.writers.eraseIdx i }
    if posts then { rdma with sq := rdma.sq ++ [ctx], written := rdma.written ++ [data] } else rdma
  | .arrive msg =>
    match rdma.rq with
    | ctx :: rq =>
      if msg.length ≤ rdma.msize ∧ rdma.broken = false then
        some ({ rdma with
          rq
          cq := rdma.cq ++ [Wc.recv ctx msg.length]
          arrived := rdma.arrived ++ [msg] }.setRcv ctx fun c => { c with buf := msg })
      else none
    | [] => none
  | .send =>
    match rdma.sq with
    | ctx :: sq =>
      if rdma.broken = false then
        some { rdma with
          sq
          cq := rdma.cq ++ [Wc.send ctx]
          delivered := rdma.delivered ++ [(rdma.sndBuf ctx).packet] }
      else none
    | [] => none
  | .flushRecv =>
    match rdma.rq with
    | _ :: rq => some { rdma with rq, cq := rdma.cq ++ [Wc.failed], broken := true }
    | [] => none
  | .flushSend =>
    match rdma.sq with
    | _ :: sq => some { rdma with sq, cq := rdma.cq ++ [Wc.failed], broken := true }
    | [] => none

/-- The messages that have arrived and that the reader has not seen, by buffer and size. -/
def completed : List (ℕ × ℕ) := rdma.cq.filterMap Wc.received

/-- The buffers that have been sent, as far as the reader has not seen it. -/
def done : List ℕ := rdma.cq.filterMap Wc.sent

/-- The send buffers that are in use. -/
def busy : List ℕ := rdma.writers.map Prod.fst ++ rdma.sq ++ rdma.done

/-- The transport hands on what it is given. -/
structure Faithful : Prop where
  /-- The bytes that were read are the first of those that have arrived. -/
  reads : rdma.reads.flatten <+: rdma.arrived.flatten
  /-- They are all of them when no buffer is left. -/
  drained : rdma.rfirst = none → rdma.completed = [] → rdma.reads.flatten = rdma.arrived.flatten
  /-- A receive buffer is in one place: it is posted, completed or in the list. -/
  owned : ∃ queue, LinkedChain.Path (fun ctx => (rdma.rcvBuf ctx).next) rdma.rfirst queue ∧
    (rdma.rq ++ rdma.completed.map Prod.fst ++ queue).Nodup
  /-- The other side gets the packets that were posted, whole and in their order. -/
  delivered : rdma.delivered <+: rdma.written
  sent : rdma.broken = false → rdma.sq = [] → rdma.delivered = rdma.written
  /-- No writer gets a send buffer that is in use. -/
  kept : ∀ ctx ∈ rdma.busy, rdma.slot ≠ some ctx
  tame : rdma.wild = false

/-- No packet is longer than a buffer. -/
def Fits : RdmaEvent → Prop
  | .write data => data.length ≤ rdma.msize
  | _ => True

instance : DecidablePred rdma.Fits
  | .write data => inferInstanceAs (Decidable (data.length ≤ rdma.msize))
  | .read .. | .poll _ | .interrupt | .post .. | .arrive _ | .send | .flushRecv | .flushSend =>
    inferInstanceAs (Decidable True)

end Rdmatrans

/-! ## The receive buffers -/

/-- What the receive buffers hold: `queue` is in the list, `posted` waits for messages, and
`completed` has some that the reader has not seen. -/
structure Receives (rcv : ℕ → Rdmactx) (first last : Option ℕ) (posted : List ℕ)
    (completed : List (ℕ × ℕ)) (reads arrived : List UInt8) (queue : List ℕ) : Prop where
  list : LinkedQueue.Holds (fun ctx => (rcv ctx).next) first last queue
  owned : (posted ++ completed.map Prod.fst ++ queue).Nodup
  inside : ∀ ctx ∈ queue, (rcv ctx).pos ≤ (rcv ctx).len ∧ (rcv ctx).len = (rcv ctx).buf.length
  sizes : ∀ c ∈ completed, c.2 = (rcv c.1).buf.length
  stream : reads ++ queue.flatMap (fun ctx => (rcv ctx).unread) ++
    completed.flatMap (fun c => (rcv c.1).buf) = arrived

namespace Receives

variable {rcv : ℕ → Rdmactx} {first last : Option ℕ} {posted : List ℕ}
  {completed : List (ℕ × ℕ)} {reads arrived : List UInt8} {queue rest : List ℕ} {ctx n : ℕ}
  {c : Rdmactx} {msg : List UInt8}

/-- A buffer of the list is in no other place. -/
theorem apart (receives : Receives rcv first last posted completed reads arrived (ctx :: rest)) :
    ctx ∉ posted ∧ ctx ∉ completed.map Prod.fst ∧ ctx ∉ rest := by
  have owned := receives.owned
  rw [List.nodup_middle, List.nodup_cons] at owned
  simp only [List.mem_append, not_or] at owned
  exact ⟨owned.1.1.1, owned.1.1.2, owned.1.2⟩

/-- A change of a buffer that is not in a list. -/
theorem update_of_mem {l : List ℕ} (outside : ctx ∉ l) (c : Rdmactx) {p : ℕ} (member : p ∈ l) :
    Function.update rcv ctx c p = rcv p := by
  apply Function.update_of_ne
  rintro rfl
  exact outside member

theorem update_of_completed (outside : ctx ∉ completed.map Prod.fst) (c : Rdmactx) {p : ℕ × ℕ}
    (member : p ∈ completed) : Function.update rcv ctx c p.1 = rcv p.1 :=
  update_of_mem outside c (List.mem_map_of_mem member)

theorem bufs_congr {rcv' : ℕ → Rdmactx} (same : ∀ p ∈ completed, rcv' p.1 = rcv p.1) :
    completed.flatMap (fun p => (rcv' p.1).buf) = completed.flatMap fun p => (rcv p.1).buf :=
  List.flatMap_congr fun p member => congrArg Rdmactx.buf (same p member)

/-- Buffers in no place may change. -/
theorem congr {rcv' : ℕ → Rdmactx}
    (receives : Receives rcv first last posted completed reads arrived queue)
    (same : ∀ p ∈ queue, rcv' p = rcv p) (same' : ∀ p ∈ completed, rcv' p.1 = rcv p.1) :
    Receives rcv' first last posted completed reads arrived queue := by
  refine ⟨?_, receives.owned, ?_, ?_, ?_⟩
  · apply receives.list.congr
    intro p member
    rw [same p member]
  · intro p member
    rw [same p member]
    exact receives.inside p member
  · intro p member
    rw [same' p member]
    exact receives.sizes p member
  · have list : queue.flatMap (fun p => (rcv' p).unread) = queue.flatMap fun p => (rcv p).unread :=
      List.flatMap_congr fun p member => congrArg Rdmactx.unread (same p member)
    rw [list, bufs_congr same']
    exact receives.stream

/-- A buffer that is in no place is posted. -/
theorem post (receives : Receives rcv first last posted completed reads arrived queue)
    (waiting : ctx ∉ posted) (complete : ctx ∉ completed.map Prod.fst) (listed : ctx ∉ queue) :
    Receives rcv first last (posted ++ [ctx]) completed reads arrived queue := by
  refine ⟨receives.list, ?_, receives.inside, receives.sizes, receives.stream⟩
  rw [List.append_assoc, List.append_assoc, List.singleton_append, List.nodup_middle,
    List.nodup_cons, ← List.append_assoc]
  refine ⟨?_, receives.owned⟩
  simp only [List.mem_append, not_or]
  exact ⟨⟨waiting, complete⟩, listed⟩

/-- Bytes of the first buffer are returned. -/
theorem advance (receives : Receives rcv first last posted completed reads arrived (ctx :: rest))
    (next : c.next = (rcv ctx).next) (buf : c.buf = (rcv ctx).buf) (len : c.len = (rcv ctx).len)
    (pos : c.pos = (rcv ctx).pos + n) (within : c.pos ≤ c.len) :
    Receives (Function.update rcv ctx c) first last posted completed
      (reads ++ (rcv ctx).unread.take n) arrived (ctx :: rest) := by
  obtain ⟨-, complete, behind⟩ := receives.apart
  obtain ⟨-, length⟩ := receives.inside ctx List.mem_cons_self
  have others : rest.flatMap (fun p => (Function.update rcv ctx c p).unread) =
      rest.flatMap fun p => (rcv p).unread :=
    List.flatMap_congr fun p member => congrArg Rdmactx.unread (update_of_mem behind c member)
  have bufs := bufs_congr fun p member => @update_of_completed rcv _ _ complete c p member
  have split : (rcv ctx).unread = (rcv ctx).unread.take n ++ c.unread := by
    rw [Rdmactx.unread, Rdmactx.unread, pos, buf, ← List.drop_drop, List.take_append_drop]
  refine ⟨?_, receives.owned, ?_, ?_, ?_⟩
  · apply receives.list.congr
    intro p member
    rcases List.mem_cons.mp member with rfl | member
    · rw [Function.update_self, next]
    · rw [update_of_mem behind c member]
  · intro p member
    rcases List.mem_cons.mp member with rfl | member'
    · rw [Function.update_self]
      exact ⟨within, by rw [len, buf, length]⟩
    · rw [update_of_mem behind c member']
      exact receives.inside p member
  · intro p member
    rw [update_of_completed complete c member]
    exact receives.sizes p member
  · rw [← receives.stream, List.flatMap_cons, List.flatMap_cons, Function.update_self, others, bufs]
    nth_rewrite 2 [split]
    simp only [List.append_assoc]

/-- The first buffer is taken out of the list when all of it has been returned. -/
theorem pop (receives : Receives rcv first last posted completed reads arrived (ctx :: rest))
    (whole : (rcv ctx).pos = (rcv ctx).len) :
    Receives rcv (rcv ctx).next (if last = some ctx then none else last) posted completed reads
      arrived rest := by
  obtain ⟨-, length⟩ := receives.inside ctx List.mem_cons_self
  refine ⟨receives.list.pop, ?_, ?_, receives.sizes, ?_⟩
  · exact receives.owned.sublist ((List.sublist_cons_self ctx rest).append_left _)
  · exact fun p member => receives.inside p (List.mem_cons_of_mem ctx member)
  · have empty : (rcv ctx).unread = [] := by
      rw [Rdmactx.unread, whole, length, List.drop_length]
    rw [← receives.stream, List.flatMap_cons, empty, List.nil_append]

/-- A posted buffer is lost. -/
theorem drop (receives : Receives rcv first last (ctx :: posted) completed reads arrived queue) :
    Receives rcv first last posted completed reads arrived queue :=
  ⟨receives.list, (List.nodup_cons.mp receives.owned).2, receives.inside, receives.sizes,
    receives.stream⟩

/-- A message arrives in the next buffer. -/
theorem arrive (receives : Receives rcv first last (ctx :: posted) completed reads arrived queue)
    (buf : c.buf = msg) :
    Receives (Function.update rcv ctx c) first last posted (completed ++ [(ctx, msg.length)]) reads
      (arrived ++ msg) queue := by
  have owned := receives.owned
  rw [List.cons_append, List.cons_append, List.nodup_cons] at owned
  obtain ⟨outside, owned⟩ := owned
  simp only [List.mem_append, not_or] at outside
  have kept := receives.congr (fun p member => update_of_mem outside.2 c member)
    fun p member => update_of_completed outside.1.2 c member
  refine ⟨kept.list, ?_, kept.inside, ?_, ?_⟩
  · rw [List.map_append, List.map_singleton, ← List.append_assoc, List.append_assoc,
      List.singleton_append, List.nodup_middle, List.nodup_cons]
    refine ⟨?_, owned⟩
    simp only [List.mem_append, not_or]
    exact outside
  · intro p member
    rcases List.mem_append.mp member with member | member
    · exact kept.sizes p member
    · obtain rfl := List.mem_singleton.mp member
      rw [Function.update_self, buf]
  · rw [List.flatMap_append, List.flatMap_singleton, Function.update_self, buf, ← List.append_assoc,
      kept.stream]

/-- The buffer of the first message is in no other place. -/
theorem fresh
    (receives : Receives rcv first last posted ((ctx, n) :: completed) reads arrived queue) :
    (ctx ∉ posted ∧ ctx ∉ completed.map Prod.fst) ∧ ctx ∉ queue := by
  have owned := receives.owned
  rw [List.map_cons, List.append_assoc, List.cons_append, List.nodup_middle, List.nodup_cons,
    ← List.append_assoc] at owned
  simp only [List.mem_append, not_or] at owned
  exact owned.1

/-- The reader sees the first message, and puts its buffer at the end of the list. -/
theorem enqueue {rcv' : ℕ → Rdmactx}
    (receives : Receives rcv first last posted ((ctx, n) :: completed) reads arrived queue)
    (pos : (rcv' ctx).pos = 0) (len : (rcv' ctx).len = n) (next : (rcv' ctx).next = none)
    (buf : (rcv' ctx).buf = (rcv ctx).buf)
    (link : ∀ p, last = some p → rcv' p = { rcv p with next := some ctx })
    (same : ∀ p, p ≠ ctx → last ≠ some p → rcv' p = rcv p) :
    Receives rcv' (if last = none then some ctx else first) (some ctx) posted completed reads
      arrived (queue ++ [ctx]) := by
  have outside := receives.fresh
  have once : (posted ++ completed.map Prod.fst ++ queue).Nodup := by
    have shorter : List.Sublist (completed.map Prod.fst) (((ctx, n) :: completed).map Prod.fst) :=
      List.sublist_cons_self ctx _
    exact receives.owned.sublist ((shorter.append_left posted).append_right queue)
  have ends : last = queue.getLast? := receives.list.last
  have length : n = (rcv ctx).buf.length := receives.sizes (ctx, n) List.mem_cons_self
  have unlinked (p : ℕ) (member : p ∈ completed.map Prod.fst) : rcv' p = rcv p := by
    apply same
    · rintro rfl
      exact outside.1.2 member
    · intro tail
      rw [ends] at tail
      have apart := (List.nodup_append.mp once).2.2 p (List.mem_append_right _ member) p
        (List.mem_of_getLast? tail)
      exact apart rfl
  have listed (p : ℕ) (member : p ∈ queue) : (rcv' p).pos = (rcv p).pos ∧
      (rcv' p).len = (rcv p).len ∧ (rcv' p).buf = (rcv p).buf := by
    by_cases tail : last = some p
    · rw [link p tail]
      exact ⟨rfl, rfl, rfl⟩
    · rw [same p (fun is => outside.2 (is ▸ member)) tail]
      exact ⟨rfl, rfl, rfl⟩
  refine ⟨?_, ?_, ?_, ?_, ?_⟩
  · apply receives.list.push next
    · intro q tail
      rw [link q tail]
    · intro q member tail
      rw [same q (fun is => outside.2 (is ▸ member)) tail]
  · rw [← List.append_assoc, List.nodup_append]
    refine ⟨once, List.nodup_singleton ctx, ?_⟩
    rintro p member _ single rfl
    obtain rfl := List.mem_singleton.mp single
    simp only [List.mem_append] at member
    tauto
  · intro p member
    rcases List.mem_append.mp member with member | single
    · obtain ⟨pos, len, buf⟩ := listed p member
      rw [pos, len, buf]
      exact receives.inside p member
    · obtain rfl := List.mem_singleton.mp single
      rw [pos, len, buf]
      exact ⟨Nat.zero_le n, length⟩
  · intro p member
    rw [unlinked p.1 (List.mem_map_of_mem member)]
    exact receives.sizes p (List.mem_cons_of_mem _ member)
  · have list : queue.flatMap (fun p => (rcv' p).unread) =
        queue.flatMap fun p => (rcv p).unread := by
      apply List.flatMap_congr
      intro p member
      obtain ⟨pos, -, buf⟩ := listed p member
      rw [Rdmactx.unread, Rdmactx.unread, pos, buf]
    have bufs := bufs_congr fun p member => unlinked p.1 (List.mem_map_of_mem member)
    have whole : (rcv' ctx).unread = (rcv ctx).buf := by
      rw [Rdmactx.unread, pos, buf, List.drop_zero]
    rw [List.flatMap_append, List.flatMap_singleton, list, bufs, whole, ← receives.stream,
      List.flatMap_cons]
    simp only [List.append_assoc]

end Receives

/-! ## The send buffers -/

/-- What the send buffers hold: those of the writers, the posted ones, and those that have been sent
as far as the reader has not seen it. -/
structure Sends (snd : ℕ → Rdmactx) (writers : List (ℕ × List UInt8)) (sq done : List ℕ)
    (broken : Bool) (delivered written : List (List UInt8)) : Prop where
  owned : (writers.map Prod.fst ++ sq ++ done).Nodup
  used : ∀ ctx ∈ writers.map Prod.fst ++ sq ++ done, (snd ctx).used = true
  filled : ∀ w ∈ writers, (snd w.1).packet = w.2
  front : delivered <+: written
  stream : broken = false → delivered ++ sq.map (fun ctx => (snd ctx).packet) = written

namespace Sends

variable {snd : ℕ → Rdmactx} {writers : List (ℕ × List UInt8)} {sq done : List ℕ} {broken : Bool}
  {delivered written : List (List UInt8)} {ctx i : ℕ} {c : Rdmactx} {data : List UInt8}

/-- A buffer that is not in use changes. -/
theorem congr (sends : Sends snd writers sq done broken delivered written)
    (outside : ctx ∉ writers.map Prod.fst ++ sq ++ done) (c : Rdmactx) :
    Sends (Function.update snd ctx c) writers sq done broken delivered written := by
  have same (p : ℕ) (member : p ∈ writers.map Prod.fst ++ sq ++ done) :
      Function.update snd ctx c p = snd p := by
    apply Function.update_of_ne
    rintro rfl
    exact outside member
  refine ⟨sends.owned, ?_, ?_, sends.front, ?_⟩
  · intro p member
    rw [same p member]
    exact sends.used p member
  · intro w member
    rw [same w.1 (by simp [List.mem_map_of_mem member])]
    exact sends.filled w member
  · intro whole
    rw [← sends.stream whole]
    congr 1
    apply List.map_congr_left
    intro p member
    rw [same p (by simp [member])]

/-- A writer takes a buffer that is not in use. -/
theorem write (sends : Sends snd writers sq done broken delivered written)
    (free : (snd ctx).used = false) (used : c.used = true) (packet : c.packet = data) :
    Sends (Function.update snd ctx c) (writers ++ [(ctx, data)]) sq done broken delivered
      written := by
  have outside : ctx ∉ writers.map Prod.fst ++ sq ++ done := by
    intro member
    rw [sends.used ctx member] at free
    cases free
  have kept := sends.congr outside c
  have place : (writers ++ [(ctx, data)]).map Prod.fst ++ sq ++ done =
      writers.map Prod.fst ++ ctx :: (sq ++ done) := by simp
  refine ⟨?_, ?_, ?_, kept.front, kept.stream⟩
  · rw [place, List.nodup_middle, List.nodup_cons, ← List.append_assoc]
    exact ⟨outside, sends.owned⟩
  · intro p member
    rw [place, List.mem_append, List.mem_cons, or_left_comm, ← List.mem_append,
      ← List.append_assoc] at member
    rcases member with rfl | member
    · rw [Function.update_self, used]
    · exact kept.used p member
  · intro w member
    rcases List.mem_append.mp member with member | single
    · exact kept.filled w member
    · obtain rfl := List.mem_singleton.mp single
      rw [Function.update_self, packet]

/-- A writer is done, and its buffer is posted or lost. -/
theorem leave (sends : Sends snd writers sq done broken delivered written)
    (found : writers[i]? = some (ctx, data)) :
    Sends snd (writers.eraseIdx i) sq done broken delivered written ∧
      Sends snd (writers.eraseIdx i) (sq ++ [ctx]) done broken delivered (written ++ [data]) := by
  obtain ⟨inside, here⟩ := List.getElem?_eq_some_iff.mp found
  have shorter : (writers.eraseIdx i).Sublist writers := List.eraseIdx_sublist writers i
  have perm : List.Perm (writers.map Prod.fst) (ctx :: (writers.eraseIdx i).map Prod.fst) := by
    rw [show ctx = (ctx, data).1 from rfl, ← List.map_cons, ← here]
    exact (List.getElem_cons_eraseIdx_perm inside).symm.map _
  have all : List.Perm (writers.map Prod.fst ++ sq ++ done)
      ((writers.eraseIdx i).map Prod.fst ++ (sq ++ [ctx]) ++ done) := by
    refine ((perm.append_right sq).append_right done).trans ?_
    simp only [List.cons_append, List.append_assoc, List.nil_append]
    rw [← List.append_assoc, ← List.append_assoc]
    exact List.perm_middle.symm
  refine ⟨⟨?_, ?_, ?_, sends.front, sends.stream⟩, ⟨?_, ?_, ?_, ?_, ?_⟩⟩
  · exact sends.owned.sublist (((shorter.map _).append_right sq).append_right done)
  · intro p member
    exact sends.used p ((((shorter.map _).append_right sq).append_right done).subset member)
  · exact fun w member => sends.filled w (shorter.subset member)
  · exact all.nodup_iff.mp sends.owned
  · exact fun p member => sends.used p (all.mem_iff.mpr member)
  · exact fun w member => sends.filled w (shorter.subset member)
  · exact sends.front.trans (List.prefix_append written [data])
  · intro whole
    have packet := sends.filled (ctx, data) (List.mem_of_getElem? found)
    rw [List.map_append, List.map_singleton, packet, ← List.append_assoc, sends.stream whole]

/-- The next buffer is sent. -/
theorem transmit (sends : Sends snd writers (ctx :: sq) done false delivered written) :
    Sends snd writers sq (done ++ [ctx]) false (delivered ++ [(snd ctx).packet]) written := by
  have all : List.Perm (writers.map Prod.fst ++ (ctx :: sq) ++ done)
      (writers.map Prod.fst ++ sq ++ (done ++ [ctx])) := by
    simp only [List.append_assoc, List.cons_append]
    apply List.Perm.append_left
    rw [← List.append_assoc]
    exact (List.perm_append_singleton ctx (sq ++ done)).symm
  have stream := sends.stream rfl
  rw [List.map_cons, ← List.singleton_append, ← List.append_assoc] at stream
  refine ⟨all.nodup_iff.mp sends.owned, fun p member => sends.used p (all.mem_iff.mpr member),
    sends.filled, ?_, fun _ => stream⟩
  rw [← stream]
  exact List.prefix_append _ _

/-- The next buffer is lost. -/
theorem flush (sends : Sends snd writers (ctx :: sq) done broken delivered written) :
    Sends snd writers sq done true delivered written := by
  have shorter : List.Sublist (writers.map Prod.fst ++ sq ++ done)
      (writers.map Prod.fst ++ (ctx :: sq) ++ done) :=
    ((List.sublist_cons_self ctx sq).append_left _).append_right done
  exact ⟨sends.owned.sublist shorter, fun p member => sends.used p (shorter.subset member),
    sends.filled, sends.front, nofun⟩

/-- The queue pair goes into its error state. -/
theorem break_ (sends : Sends snd writers sq done broken delivered written) :
    Sends snd writers sq done true delivered written :=
  ⟨sends.owned, sends.used, sends.filled, sends.front, nofun⟩

/-- The reader sees that a buffer has been sent. -/
theorem release (sends : Sends snd writers sq (ctx :: done) broken delivered written)
    (c : Rdmactx) : Sends (Function.update snd ctx c) writers sq done broken delivered written := by
  have owned := sends.owned
  rw [List.nodup_middle, List.nodup_cons] at owned
  have kept : Sends snd writers sq done broken delivered written :=
    ⟨owned.2, fun p member => sends.used p (by
      simp only [List.mem_append, List.mem_cons] at member ⊢
      tauto), sends.filled, sends.front, sends.stream⟩
  exact kept.congr owned.1 c

end Sends

/-! ## Every run -/

namespace Rdmatrans

variable {rdma rdma' : Rdmatrans} {count ctx byteLen : ℕ} {posts : Bool} {event : RdmaEvent}

/-- What holds in every run. -/
structure Sound (rdma : Rdmatrans) : Prop where
  receives : ∃ queue, Receives rdma.rcvBuf rdma.rfirst rdma.rlast rdma.rq rdma.completed
    rdma.reads.flatten rdma.arrived.flatten queue
  sends : Sends rdma.sndBuf rdma.writers rdma.sq rdma.done rdma.broken rdma.delivered rdma.written
  tame : rdma.wild = false

theorem sound_create (msize qDepth : ℕ) : (create msize qDepth).Sound where
  receives := by
    refine ⟨[], .empty, ?_, nofun, nofun, rfl⟩
    simpa [create, completed] using List.nodup_range
  sends := ⟨List.nodup_nil, nofun, nofun, List.prefix_rfl, fun _ => rfl⟩
  tame := rfl

/-- The first buffer of the list is read. -/
theorem Sound.take (sound : rdma.Sound) (first : rdma.rfirst = some ctx) (count : ℕ)
    (posts : Bool) : (rdma.take ctx count posts).Sound := by
  obtain ⟨⟨queue, receives⟩, sends, tame⟩ := sound
  obtain ⟨rest, rfl⟩ : ∃ rest, queue = ctx :: rest := by
    have head : queue.head? = some ctx := by rw [← receives.list.first_eq, first]
    exact ⟨queue.tail, (List.eq_cons_of_mem_head? head)⟩
  have within : (rdma.rcvBuf ctx).pos ≤ (rdma.rcvBuf ctx).len :=
    (receives.inside ctx List.mem_cons_self).1
  unfold Rdmatrans.take
  dsimp only
  obtain ⟨n, size⟩ : ∃ n, n = min ((rdma.rcvBuf ctx).len - (rdma.rcvBuf ctx).pos) count := ⟨_, rfl⟩
  rw [← size]
  have fits : (rdma.rcvBuf ctx).pos + n ≤ (rdma.rcvBuf ctx).len := by omega
  have bytes : (rdma.reads ++ [(rdma.rcvBuf ctx).unread.take n]).flatten =
      rdma.reads.flatten ++ (rdma.rcvBuf ctx).unread.take n := by
    simp
  have advanced := receives.advance (n := n)
    (c := { rdma.rcvBuf ctx with pos := (rdma.rcvBuf ctx).pos + n }) rfl rfl rfl rfl fits
  rw [← bytes] at advanced
  by_cases whole : (rdma.rcvBuf ctx).pos + n = (rdma.rcvBuf ctx).len
  · rw [if_pos whole]
    obtain ⟨waiting, complete, behind⟩ := receives.apart
    have popped := advanced.pop (by rw [Function.update_self]; exact whole)
    rw [Function.update_self] at popped
    have reset (c : Rdmactx) := popped.congr
      (fun p member => Receives.update_of_mem behind c member)
      fun p member => Receives.update_of_completed complete c member
    refine ⟨⟨rest, ?_⟩, sends, tame⟩
    cases posts with
    | true => exact (reset _).post waiting complete behind
    | false => exact reset _
  · rw [if_neg whole]
    exact ⟨⟨ctx :: rest, advanced⟩, sends, tame⟩

theorem Sound.again (sound : rdma.Sound) (count : ℕ) (posts : Bool) :
    (rdma.again count posts).Sound := by
  unfold Rdmatrans.again
  split
  · next ctx first => exact sound.take first count posts
  · exact ⟨sound.receives, sound.sends, sound.tame⟩

/-- The first of the messages that the reader has not seen is put into the list. -/
theorem sound_enqueue
    (receives : ∃ queue, Receives rdma.rcvBuf rdma.rfirst rdma.rlast rdma.rq
      ((ctx, byteLen) :: rdma.completed) rdma.reads.flatten rdma.arrived.flatten queue)
    (sends : Sends rdma.sndBuf rdma.writers rdma.sq rdma.done rdma.broken rdma.delivered
      rdma.written) (tame : rdma.wild = false) : (rdma.enqueue ctx byteLen).Sound := by
  obtain ⟨queue, receives⟩ := receives
  have ends : rdma.rlast = queue.getLast? := receives.list.last
  cases tail : rdma.rlast with
  | none =>
      rw [tail] at receives
      simp only [Rdmatrans.enqueue, setRcv, tail]
      refine ⟨⟨queue ++ [ctx], ?_⟩, sends, tame⟩
      apply receives.enqueue (by simp) (by simp) (by simp) (by simp) nofun
      intro p other _
      simp only [Function.update_of_ne other]
  | some last =>
      rw [tail] at receives ends
      have other : last ≠ ctx := by
        rintro rfl
        exact receives.fresh.2 (List.mem_of_getLast? ends.symm)
      simp only [Rdmatrans.enqueue, setRcv, tail]
      refine ⟨⟨queue ++ [ctx], ?_⟩, sends, tame⟩
      apply receives.enqueue (by simp [other.symm]) (by simp [other.symm]) (by simp)
        (by simp [other.symm])
      · rintro p ⟨⟩
        simp [other]
      · intro p apart tail
        have apart' : p ≠ last := by
          rintro rfl
          exact tail rfl
        simp only [Function.update_of_ne apart, Function.update_of_ne apart']

/-- The reader takes a completion. -/
theorem Sound.pollCq (sound : rdma.Sound) (count : ℕ) (closing posts : Bool) :
    (rdma.pollCq count closing posts).Sound := by
  obtain ⟨⟨queue, receives⟩, sends, tame⟩ := sound
  unfold completed at receives
  unfold done at sends
  unfold Rdmatrans.pollCq
  split
  · split_ifs <;> exact ⟨⟨queue, receives⟩, sends, tame⟩
  · next cq found =>
    rw [found] at receives sends
    exact ⟨⟨queue, receives⟩, sends, tame⟩
  · next ctx byteLen cq found =>
    rw [found] at receives sends
    apply Sound.again
    exact sound_enqueue ⟨queue, receives⟩ sends tame
  · next ctx cq found =>
    rw [found] at receives sends
    exact ⟨⟨queue, receives⟩, sends.release _, tame⟩

theorem slot_free (found : rdma.slot = some ctx) : (rdma.sndBuf ctx).used = false := by
  have free := List.find?_some found
  simpa using free

/-- A message arrives. -/
theorem Sound.arrive {rq : List ℕ} (sound : rdma.Sound) (posted : rdma.rq = ctx :: rq)
    (msg : List UInt8) :
    ({ rdma with
      rq
      cq := rdma.cq ++ [Wc.recv ctx msg.length]
      arrived := rdma.arrived ++ [msg] }.setRcv ctx fun c => { c with buf := msg }).Sound := by
  obtain ⟨⟨queue, receives⟩, sends, tame⟩ := sound
  rw [posted] at receives
  have arrived := receives.arrive (c := { rdma.rcvBuf ctx with buf := msg }) rfl
  refine ⟨⟨queue, ?_⟩, ?_, tame⟩
  · simpa [setRcv, completed, Wc.received, List.filterMap_cons] using arrived
  · simpa [setRcv, done, Wc.sent, List.filterMap_cons] using sends

/-- A step keeps what holds in every run. -/
theorem Sound.step (sound : rdma.Sound) (fits : rdma.Fits event)
    (stepped : rdma.step event = some rdma') : rdma'.Sound := by
  unfold Rdmatrans.step at stepped
  rw [if_neg (Bool.eq_false_iff.mp sound.tame)] at stepped
  cases event with
  | read count posts =>
      dsimp only at stepped
      split_ifs at stepped
      obtain rfl := Option.some.inj stepped
      exact sound.again count posts
  | poll posts =>
      obtain ⟨⟨count, closing⟩, -, rfl⟩ := Option.map_eq_some_iff.mp stepped
      exact sound.pollCq count closing posts
  | interrupt =>
      dsimp only at stepped
      split_ifs at stepped
      obtain rfl := Option.some.inj stepped
      exact ⟨sound.receives, sound.sends, sound.tame⟩
  | write data =>
      obtain ⟨ctx, found, rfl⟩ := Option.map_eq_some_iff.mp stepped
      rw [if_neg (Nat.not_lt.mpr fits)]
      refine ⟨sound.receives, ?_, sound.tame⟩
      apply sound.sends.write (slot_free found) rfl
      exact List.take_length
  | post i posts =>
      obtain ⟨⟨ctx, data⟩, found, rfl⟩ := Option.map_eq_some_iff.mp stepped
      obtain ⟨lost, posted⟩ := sound.sends.leave found
      cases posts with
      | true => exact ⟨sound.receives, posted, sound.tame⟩
      | false => exact ⟨sound.receives, lost, sound.tame⟩
  | arrive msg =>
      dsimp only at stepped
      split at stepped
      · next ctx rq posted =>
        split_ifs at stepped
        obtain rfl := Option.some.inj stepped
        exact sound.arrive posted msg
      · cases stepped
  | send =>
      dsimp only at stepped
      split at stepped
      · next ctx sq posted =>
        split_ifs at stepped with whole
        obtain rfl := Option.some.inj stepped
        obtain ⟨⟨queue, receives⟩, sends, tame⟩ := sound
        rw [posted, whole] at sends
        refine ⟨⟨queue, ?_⟩, ?_, tame⟩
        · simpa [completed, Wc.received, List.filterMap_cons] using receives
        · simpa [done, Wc.sent, List.filterMap_cons, whole] using sends.transmit
      · cases stepped
  | flushRecv =>
      dsimp only at stepped
      split at stepped
      · next ctx rq posted =>
        obtain rfl := Option.some.inj stepped
        obtain ⟨⟨queue, receives⟩, sends, tame⟩ := sound
        rw [posted] at receives
        refine ⟨⟨queue, ?_⟩, ?_, tame⟩
        · simpa [completed, Wc.received, List.filterMap_cons] using receives.drop
        · simpa [done, Wc.sent, List.filterMap_cons] using sends.break_
      · cases stepped
  | flushSend =>
      dsimp only at stepped
      split at stepped
      · next ctx sq posted =>
        obtain rfl := Option.some.inj stepped
        obtain ⟨⟨queue, receives⟩, sends, tame⟩ := sound
        rw [posted] at sends
        refine ⟨⟨queue, ?_⟩, ?_, tame⟩
        · simpa [completed, Wc.received, List.filterMap_cons] using receives
        · simpa [done, Wc.sent, List.filterMap_cons] using sends.flush
      · cases stepped

/-- What holds in every run makes the transport faithful. -/
theorem Sound.faithful (sound : rdma.Sound) : rdma.Faithful := by
  obtain ⟨⟨queue, receives⟩, sends, tame⟩ := sound
  refine ⟨?_, ?_, ⟨queue, receives.list.path, receives.owned⟩, sends.front, ?_, ?_, tame⟩
  · rw [← receives.stream, List.append_assoc]
    exact List.prefix_append _ _
  · intro first complete
    have stream := receives.stream
    have list := receives.list
    rw [first] at list
    rw [complete, list.nil_of_none] at stream
    simpa using stream
  · intro whole empty
    have stream := sends.stream whole
    rw [empty] at stream
    simpa using stream
  · intro ctx member found
    have used := sends.used ctx member
    rw [slot_free found] at used
    cases used

/-- Whatever the reader, the writers, the queue pair and the other side do, the transport hands on
what it is given, as long as no packet is longer than a buffer. -/
theorem rdmatrans_faithful (msize qDepth : ℕ) (rdma : Rdmatrans)
    (run : Transition.Reaches Rdmatrans.step Rdmatrans.Fits (create msize qDepth) rdma) :
    rdma.Faithful :=
  (run.invariant Sound (sound_create msize qDepth)
    fun sound fits stepped => sound.step fits stepped).faithful

/-- Two messages arrive while the reader is away and a packet is sent; then the reader takes the
first message in two pieces, and the second one behind the completion of the packet. -/
theorem faithful_two_messages : ∃ rdma, Transition.play Rdmatrans.step Rdmatrans.Fits (create 8 2)
      [.read 2 true, .write [7, 8, 9], .arrive [1, 2, 3], .post 0 true, .send, .arrive [4],
        .poll true, .read 4 true, .read 4 true, .poll true, .poll true] = some rdma ∧
    rdma.reads = [[1, 2], [3], [4]] ∧ rdma.rq = [0, 1] ∧ rdma.delivered = [[7, 8, 9]] ∧
    rdma.Faithful :=
  ⟨_, rfl, rfl, rfl, rfl, rdmatrans_faithful 8 2 _ (@Transition.reaches_of_play _ _ _ _ _
    [.read 2 true, .write [7, 8, 9], .arrive [1, 2, 3], .post 0 true, .send, .arrive [4],
      .poll true, .read 4 true, .read 4 true, .poll true, .poll true] _ _ rfl)⟩

end Rdmatrans

end Npfs
