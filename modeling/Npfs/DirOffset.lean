import Npfs.FailedRequest
import Npfs.Transition

/-!
# The offsets of directory reads

`np_read` accepts a Tread on a directory if its offset is the one that `np_respond` has stored when
the Tread before it was answered. A fid that is open for reading is followed through every order of
Treads and of their answers; whatever else happens on the connection leaves the fid open.
-/

namespace Npfs

open Serve Program

variable {Aux World : Type}

/-- `np_read` asks the file server. -/
def Op.reads : Op → Bool
  | .call (.read ..) => true
  | _ => false

/-- The fid is a directory that is open for reading. -/
def Npfid.Listed (f : Npfid Aux) : Prop :=
  f.type &&& Qtdir ≠ 0 ∧ f.type &&& Qtauth = 0 ∧ f.type &&& Ftxattr = 0 ∧
    ¬ (f.omode = Onotopen ∨ f.omode &&& 3 = Owrite.toUInt16)

instance (f : Npfid Aux) : Decidable f.Listed := inferInstanceAs (Decidable (_ ∧ _ ∧ _ ∧ ¬ _))

/-- A connection, and what has been read from a directory. -/
structure DirRun (Aux World : Type) where
  session : Session Aux World
  /-- The Treads that the file server has not answered. -/
  pending : List Npfcall
  /-- The sum of the counts that were returned since the last restart. -/
  total : ℕ
  /-- Each Tread of a size that is allowed was accepted if and only if it should be. -/
  right : Bool

/-- What happens on the connection. -/
inductive DirEvent (Aux World : Type) where
  | read (tc : Npfcall)
  /-- The file server answers one of the Treads. -/
  | respond (i : ℕ) (rc : Npfcall)
  /-- Requests of other kinds, and of other fids. -/
  | other (session : Session Aux World)

namespace DirRun

variable (npErrnoToLinux : UInt32 → UInt32) (env : Env Aux World) (n : UInt32) (p : FidPtr)

/-- The Tread has the size test of `np_read` against it. -/
def Large (s : DirRun Aux World) (tc : Npfcall) : Prop :=
  tc.count + IOHDRSZ > s.session.conn.msize

/-- The Tread restarts the listing, or continues it. -/
def Continues (s : DirRun Aux World) (tc : Npfcall) : Prop :=
  tc.offset = 0 ∨ tc.offset.toNat = s.total

instance (s : DirRun Aux World) (tc : Npfcall) : Decidable (s.Large tc) :=
  inferInstanceAs (Decidable (_ > _))

instance (s : DirRun Aux World) (tc : Npfcall) : Decidable (s.Continues tc) :=
  inferInstanceAs (Decidable (_ ∨ _))

/-- The file server is asked for what the Tread asks for. -/
def accepts (s : DirRun Aux World) (tc : Npfcall) : Bool :=
  ((npProcessRequest npErrnoToLinux tc).events (exec env)
    { s.session with reqFid := none }).any (·.1.reads)

/-- The Tread is answered. -/
def respond (s : DirRun Aux World) (tc rc : Npfcall) : DirRun Aux World :=
  let (reply, session) := (npRespond tc rc).run (exec env) s.session
  { s with
    session
    total := if reply.type = MsgType.rread.code then
      (if tc.offset = 0 then 0 else s.total) + reply.count.toNat else s.total }

/-- The fid `n` is still what `p` points to, and has its mode, its type and its offset; and each
pending Tread has a reference to it. -/
def Stays (s : DirRun Aux World) (session : Session Aux World) : Prop :=
  session.pool n = some p ∧
    (session.fids.get p).map (fun f => (f.omode, f.type, f.diroffset)) =
      (s.session.fids.get p).map (fun f => (f.omode, f.type, f.diroffset)) ∧
    ∀ f ∈ session.fids.get p, 1 + (s.pending.length : Int) ≤ f.refcount

instance (s : DirRun Aux World) (session : Session Aux World) : Decidable (s.Stays n p session) :=
  inferInstanceAs (Decidable (_ ∧ _ ∧ ∀ f ∈ session.fids.get p, _))

/-- What is next. -/
def step (s : DirRun Aux World) : DirEvent Aux World → Option (DirRun Aux World)
  | .read tc =>
    if tc.type = MsgType.tread.code ∧ tc.fid = n then
      let accepted := s.accepts npErrnoToLinux env tc
      let (rc, session) :=
        (npProcessRequest npErrnoToLinux tc).run (exec env) { s.session with reqFid := none }
      let right := s.right && (decide (s.Large tc) || accepted == decide (s.Continues tc))
      match rc with
      | some rc => some (({ s with session, right } : DirRun Aux World).respond env tc rc)
      | none => some { s with session, right, pending := tc :: s.pending }
    else none
  | .respond i rc =>
    s.pending[i]?.map fun tc =>
      ({ s with
        session := { s.session with reqFid := some p }
        pending := s.pending.eraseIdx i } : DirRun Aux World).respond env tc rc
  | .other session => if s.Stays n p session then some { s with session } else none

/-- Nothing was read yet. -/
structure Starts (s : DirRun Aux World) : Prop where
  found : s.session.pool n = some p
  opened : ∃ f, s.session.fids.get p = some f ∧ f.Listed ∧ f.diroffset = 0 ∧ 1 ≤ f.refcount
  pending : s.pending = []
  total : s.total = 0
  right : s.right = true

/-- A Tread with the offset 0 comes while the sum is a multiple of `2^32`, as it is before anything
was returned; any other one while the sum is less than `2^32`, or with an offset that is neither the
sum nor what 32 bits keep of it.  Only a Tread that is refused comes while one is pending. -/
def Fits (s : DirRun Aux World) : DirEvent Aux World → Prop
  | .read tc => (if tc.offset = 0 then s.total % 2 ^ 32 = 0
      else s.total < 2 ^ 32 ∨ tc.offset.toNat ≠ s.total ∧ tc.offset.toNat ≠ s.total % 2 ^ 32) ∧
    (s.pending = [] ∨ s.Large tc ∨ tc.offset.toNat ≠ s.total % 2 ^ 32)
  | _ => True

end DirRun

/-! ## `np_read` -/

section Read

variable {npErrnoToLinux : UInt32 → UInt32} {env : Env Aux World} {s : Session Aux World}
  {tc : Npfcall} {p : FidPtr} {f : Npfid Aux}

/-- The fid is found, and a reference to it taken. -/
def Session.referenced (s : Session Aux World) (p : FidPtr) : Session Aux World :=
  { s.modify p (.addRef 1) with reqFid := some p }

theorem npHandle_tread (type : tc.type = MsgType.tread.code) : npHandle tc = npRead tc := by
  have handler : npHandler tc = some npRead := by
    rw [npHandler, type]
    rfl
  rw [npHandle, handler]

/-- `np_read` on a directory that is open for reading. -/
theorem run_npRead (found : s.pool tc.fid = some p) (live : s.fids.get p = some f)
    (listed : f.Listed) : (npRead tc).run (exec env) s =
      if tc.count + IOHDRSZ > s.conn.msize then
        (none, { s.referenced p with error := some (.of Etoolarge EIO) })
      else if tc.offset ≠ f.diroffset.toUInt64 then
        (none, { s.referenced p with error := some (.of Ebadoffset EIO) })
      else
        ((env.answer (.read p tc.offset tc.count) (s.referenced p).fids.get s.world).reply,
          (s.referenced p).afterCall (some p)
            (env.answer (.read p tc.offset tc.count) (s.referenced p).fids.get s.world)) := by
  obtain ⟨dir, auth, xattr, readable⟩ := listed
  by_cases large : tc.count + IOHDRSZ > s.conn.msize
  · rw [if_pos large]
    simp [npRead, withFid, run_bind, found, Session.referenced, Session.modify, large]
  · rw [if_neg large]
    by_cases same : tc.offset = f.diroffset.toUInt64
    · simp [npRead, withFid, run_bind, found, Session.referenced, Session.modify, Session.load,
        live, large, dir, auth, xattr, readable, same, Npfid.addRef]
      rfl
    · simp [npRead, withFid, run_bind, found, Session.referenced, Session.modify, Session.load,
        live, large, dir, auth, xattr, readable, same, Npfid.addRef]

/-- The file server is asked if the size is allowed and the offset is the one of the fid. -/
theorem events_npRead (found : s.pool tc.fid = some p) (live : s.fids.get p = some f)
    (listed : f.Listed) : ((npRead tc).events (exec env) s).any (·.1.reads) =
      (!decide (tc.count + IOHDRSZ > s.conn.msize) &&
        decide (tc.offset = f.diroffset.toUInt64)) := by
  obtain ⟨dir, auth, xattr, readable⟩ := listed
  by_cases large : tc.count + IOHDRSZ > s.conn.msize
  · simp [npRead, withFid, events_bind, found, Session.modify, large, Op.reads]
  · by_cases same : tc.offset = f.diroffset.toUInt64
    · simp [npRead, withFid, events_bind, found, Session.modify, Session.load, live, large,
        Op.reads, dir, auth, xattr, readable, same, Npfid.addRef]
      exact ⟨_, ⟨_, List.mem_singleton.mpr rfl⟩, rfl⟩
    · simp [npRead, withFid, events_bind, found, Session.modify, Session.load, live, large,
        Op.reads, dir, auth, xattr, readable, same, Npfid.addRef]

end Read

/-! ## One Tread -/

section Tread

variable {npErrnoToLinux : UInt32 → UInt32} {env : Env Aux World} {s : Session Aux World}
  {tc rc : Npfcall} {n : UInt32} {p : FidPtr} {least : Int} {d : UInt32}

/-- The fid is open for reading, has the offset `d`, and enough references. -/
def Session.Lists (s : Session Aux World) (n : UInt32) (p : FidPtr) (least : Int) (d : UInt32) :
    Prop :=
  s.pool n = some p ∧
    ∃ f, s.fids.get p = some f ∧ f.Listed ∧ f.diroffset = d ∧ least ≤ f.refcount

theorem Session.Lists.referenced (lists : s.Lists n p least d) :
    (s.referenced p).Lists n p (least + 1) d := by
  obtain ⟨pool, f, live, listed, offset, counted⟩ := lists
  refine ⟨pool, f.addRef 1, ?_, listed, offset, Int.add_le_add_right counted 1⟩
  simp [Session.referenced, Session.modify, live]

theorem Session.Lists.afterCall {α : Type} (lists : s.Lists n p least d)
    (outcome : Outcome Aux World α) : (s.afterCall (some p) outcome).Lists n p least d := by
  obtain ⟨pool, f, live, listed, offset, counted⟩ := lists
  refine ⟨pool, { f with
    aux := outcome.aux, refcount := f.refcount + if outcome.takesRef then 1 else 0 }, ?_, listed,
    offset, ?_⟩
  · simp [Session.afterCall, Session.modify, live]
  · simp only
    split_ifs <;> omega

/-- A reference is given up. -/
theorem Session.Lists.decref (env : Env Aux World) (lists : s.Lists n p (least + 1) d)
    (referenced : 1 ≤ least) :
    ({ ((npFidDecref (some p)).run (exec env) s).2 with reqFid := none } :
      Session Aux World).Lists n p least d := by
  obtain ⟨pool, f, live, listed, offset, counted⟩ := lists
  have more : f.refcount ≠ 1 := by omega
  refine ⟨?_, f.addRef (-1), get_npFidDecref_more live more, listed, offset, ?_⟩
  · rw [run_npFidDecref_more live more]
    exact pool
  · simp only [Npfid.addRef]
    omega

/-- The reply is sent. -/
theorem Session.Lists.respond (lists : s.Lists n p (least + 1) d) (served : s.reqFid = some p)
    (referenced : 1 ≤ least) : ∃ s', (npRespond tc rc).run (exec env) s = (npSetTag rc tc.tag, s') ∧
      s'.Lists n p least (if rc.type = MsgType.rread.code then
        (tc.offset + rc.count.toUInt64).toUInt32 else d) := by
  by_cases read : rc.type = MsgType.rread.code
  · obtain ⟨pool, f, live, listed, -, counted⟩ := lists
    have stored : (s.modify p fun f =>
        { f with diroffset := (tc.offset + rc.count.toUInt64).toUInt32 }).Lists n p (least + 1)
          (tc.offset + rc.count.toUInt64).toUInt32 := by
      refine ⟨pool, { f with diroffset := (tc.offset + rc.count.toUInt64).toUInt32 }, ?_, listed,
        rfl, counted⟩
      simp [Session.modify, live]
    rw [if_pos read]
    refine ⟨_, ?_, stored.decref env referenced⟩
    simp only [npRespond, run_bind, run_reqFid, served, if_pos read, run_type, Session.load, live,
      if_pos listed.1, run_setDiroffset, run_setReqFid]
    rfl
  · rw [if_neg read]
    refine ⟨_, run_npRespond read, ?_⟩
    rw [served]
    exact lists.decref env referenced

/-- The file server is not asked for what an error is made of. -/
theorem errorReply_reads (rc : Option Npfcall) :
    ((errorReply npErrnoToLinux rc).events (exec env) s).any (·.1.reads) = false := by
  have always : (errorReply npErrnoToLinux rc).Always (fun _ _ => True)
      (fun op => op.reads = false) fun _ => True := by
    simp [errorReply, Option.forall, Op.reads]
  have unread : ∀ event ∈ (errorReply npErrnoToLinux rc).events (exec env) s,
      event.1.reads = false :=
    (always.run (fun _ (_ : Session Aux World) (_ : True) _ => trivial)
      (fun _ _ _ _ => trivial) trivial).2.2
  exact List.any_eq_false.mpr fun event member => by simp [unread event member]

/-- The fids are not changed. -/
theorem errorReply_world (rc : Option Npfcall) : ∃ rc' world,
    (errorReply npErrnoToLinux rc).run (exec env) s = (rc', { s with world }) := by
  by_cases clear : s.error = none
  · exact ⟨rc, s.world, run_errorReply_none clear⟩
  · obtain ⟨e, error⟩ := Option.ne_none_iff_exists'.mp clear
    obtain ⟨fc, world, -, replied⟩ := @run_errorReply _ _ npErrnoToLinux env s rc e error
    exact ⟨some fc, world, replied⟩

/-- A Tread is handled: the fid has one more reference, and its offset is what it was.  If the file
server was not asked there is a reply, and it is an error. -/
theorem Session.Lists.process (lists : s.Lists n p least d) (type : tc.type = MsgType.tread.code)
    (named : tc.fid = n) :
    ∃ rc s', (npProcessRequest npErrnoToLinux tc).run (exec env) s = (rc, s') ∧
      s'.Lists n p (least + 1) d ∧ s'.reqFid = some p ∧
      ((npProcessRequest npErrnoToLinux tc).events (exec env) s).any (·.1.reads) =
        (!decide (tc.count + IOHDRSZ > s.conn.msize) && decide (tc.offset = d.toUInt64)) ∧
      ((tc.count + IOHDRSZ > s.conn.msize ∨ tc.offset ≠ d.toUInt64) →
        ∃ fc, rc = some fc ∧ fc.Failed) := by
  obtain ⟨pool, f, live, listed, rfl, counted⟩ := lists
  have lists' : ({ s with error := none } : Session Aux World).Lists n p least f.diroffset :=
    ⟨pool, f, live, listed, rfl, counted⟩
  have found : ({ s with error := none } : Session Aux World).pool tc.fid = some p := named ▸ pool
  have read := @run_npRead Aux World env _ tc p f found live listed
  have asked := @events_npRead Aux World env _ tc p f found live listed
  have handled : (npProcessRequest npErrnoToLinux tc).run (exec env) s =
      (errorReply npErrnoToLinux ((npRead tc).run (exec env) { s with error := none }).1).run
        (exec env) ((npRead tc).run (exec env) { s with error := none }).2 := by
    rw [npProcessRequest_eq, run_bind, run_bind, run_npWerrorNone, npHandle_tread type]
  have events : ((npProcessRequest npErrnoToLinux tc).events (exec env) s).any (·.1.reads) =
      (!decide (tc.count + IOHDRSZ > s.conn.msize) &&
        decide (tc.offset = f.diroffset.toUInt64)) := by
    rw [npProcessRequest_eq, events_bind, events_bind, List.any_append, List.any_append,
      npHandle_tread type, errorReply_reads, Bool.or_false, run_npWerrorNone, asked]
    rfl
  -- What is refused is answered with an error.
  have refused (e : Nperror) (failed : (npRead tc).run (exec env) { s with error := none } =
      (none, { ({ s with error := none } : Session Aux World).referenced p with
        error := some e })) :
      ∃ fc s', (npProcessRequest npErrnoToLinux tc).run (exec env) s = (some fc, s') ∧ fc.Failed ∧
        s'.Lists n p (least + 1) f.diroffset ∧ s'.reqFid = some p := by
    obtain ⟨fc, world, kind, replied⟩ := @run_errorReply Aux World npErrnoToLinux env
      { ({ s with error := none } : Session Aux World).referenced p with error := some e } none e
      rfl
    have processed := handled
    rw [failed] at processed
    exact ⟨fc, _, processed.trans replied, kind, lists'.referenced, rfl⟩
  by_cases large : tc.count + IOHDRSZ > s.conn.msize
  · rw [if_pos large] at read
    obtain ⟨fc, s', processed, kind, listed', served⟩ := refused _ read
    exact ⟨_, s', processed, listed', served, events, fun _ => ⟨fc, rfl, kind⟩⟩
  by_cases other : tc.offset ≠ f.diroffset.toUInt64
  · rw [if_neg large, if_pos other] at read
    obtain ⟨fc, s', processed, kind, listed', served⟩ := refused _ read
    exact ⟨_, s', processed, listed', served, events, fun _ => ⟨fc, rfl, kind⟩⟩
  · rw [if_neg large, if_neg other] at read
    rw [read] at handled
    have after := lists'.referenced.afterCall (env.answer (.read p tc.offset tc.count)
      (({ s with error := none } : Session Aux World).referenced p).fids.get s.world)
    obtain ⟨rc', world, replied⟩ := @errorReply_world Aux World npErrnoToLinux env
      ((({ s with error := none } : Session Aux World).referenced p).afterCall (some p)
        (env.answer (.read p tc.offset tc.count)
          (({ s with error := none } : Session Aux World).referenced p).fids.get s.world))
      (env.answer (.read p tc.offset tc.count)
        (({ s with error := none } : Session Aux World).referenced p).fids.get s.world).reply
    exact ⟨rc', _, handled.trans replied, after, rfl, events,
      fun refused => absurd refused (not_or.mpr ⟨large, other⟩)⟩

end Tread

/-! ## Every run -/

namespace DirRun

variable {npErrnoToLinux : UInt32 → UInt32} {env : Env Aux World} {n : UInt32} {p : FidPtr}
  {s s' : DirRun Aux World} {tc rc : Npfcall} {d : UInt32}

/-- The stored offset is what 32 bits keep of the sum, and a pending Tread continues the listing. -/
structure Sound (n : UInt32) (p : FidPtr) (s : DirRun Aux World) (d : UInt32) : Prop where
  lists : s.session.Lists n p (1 + s.pending.length) d
  offset : d.toNat = s.total % 2 ^ 32
  pending : s.pending = [] ∨ ∃ tc, s.pending = [tc] ∧ s.Continues tc ∧
    tc.offset.toNat % 2 ^ 32 = s.total % 2 ^ 32
  right : s.right = true

/-- When the test of `np_read` decides as it should. -/
theorem decides_iff (offset : d.toNat = s.total % 2 ^ 32) :
    (tc.offset = d.toUInt64 ↔ s.Continues tc) ↔ if tc.offset = 0 then s.total % 2 ^ 32 = 0
      else s.total < 2 ^ 32 ∨ tc.offset.toNat ≠ s.total ∧ tc.offset.toNat ≠ s.total % 2 ^ 32 := by
  have stored : d.toUInt64.toNat = s.total % 2 ^ 32 := by rw [UInt32.toNat_toUInt64, offset]
  rw [Continues, ← UInt64.toNat_inj, stored]
  split_ifs with zero
  · rw [zero, UInt64.toNat_zero, eq_self, true_or, iff_true, eq_comm]
  · simp only [zero, false_or]
    constructor
    · intro agrees
      refine or_iff_not_imp_left.mpr fun large => ?_
      by_contra one
      have both : tc.offset.toNat = s.total ∧ tc.offset.toNat = s.total % 2 ^ 32 := by tauto
      omega
    · rintro (small | ⟨neither, other⟩)
      · rw [Nat.mod_eq_of_lt small]
      · exact iff_of_false other neither

/-- The reply has the count of the file server's. -/
theorem respond_total : (s.respond env tc rc).total =
    if rc.type = MsgType.rread.code then (if tc.offset = 0 then 0 else s.total) + rc.count.toNat
    else s.total := by
  have reply := @npRespond_fst Aux World env s.session tc rc
  rcases responds : (npRespond tc rc).run (exec env) s.session with ⟨reply', session⟩
  rw [responds] at reply
  obtain rfl : reply' = npSetTag rc tc.tag := reply
  rw [DirRun.respond, responds]
  rfl

/-- The Tread is answered. -/
theorem Sound.respond {least : Int} (lists : s.session.Lists n p (least + 1) d)
    (served : s.session.reqFid = some p) (referenced : 1 ≤ least)
    (offset : d.toNat = s.total % 2 ^ 32) (right : s.right = true)
    (continues : rc.type = MsgType.rread.code →
      s.Continues tc ∧ tc.offset.toNat % 2 ^ 32 = s.total % 2 ^ 32) :
    ∃ d', (s.respond env tc rc).session.Lists n p least d' ∧
      d'.toNat = (s.respond env tc rc).total % 2 ^ 32 ∧
      (s.respond env tc rc).right = true ∧ (s.respond env tc rc).pending = s.pending := by
  obtain ⟨s', responds, lists'⟩ := @Session.Lists.respond Aux World env _ tc rc _ _ _ _ lists served
    referenced
  have session : (s.respond env tc rc).session = s' := by rw [DirRun.respond, responds]
  rw [session, respond_total]
  refine ⟨_, lists', ?_, right, rfl⟩
  split_ifs with read zero
  · rw [zero]
    simp
  · obtain ⟨restarts | same, -⟩ := continues read
    · exact absurd restarts zero
    · have bound := tc.offset.toNat_lt
      rw [UInt64.toNat_toUInt32, UInt64.toNat_add, UInt32.toNat_toUInt64, same]
      omega
  · exact offset

theorem Sound.read (sound : s.Sound n p d) (fits : s.Fits (.read tc : DirEvent Aux World))
    (taken : s.step npErrnoToLinux env n p (.read tc) = some s') : ∃ d', s'.Sound n p d' := by
  obtain ⟨lists, offset, pending, right⟩ := sound
  obtain ⟨continued, alone⟩ := fits
  simp only [step] at taken
  split_ifs at taken with asked
  have start : ({ s.session with reqFid := none } : Session Aux World).Lists n p
      (1 + s.pending.length) d := lists
  obtain ⟨rc, session, processed, lists', served, events, refused⟩ :=
    @Session.Lists.process Aux World npErrnoToLinux env _ tc n p _ d start asked.1 asked.2
  have accepted : s.accepts npErrnoToLinux env tc =
      (!decide (s.Large tc) && decide (tc.offset = d.toUInt64)) := events
  have decided : (decide (s.Large tc) ||
      s.accepts npErrnoToLinux env tc == decide (s.Continues tc)) = true := by
    have agrees : decide (tc.offset = d.toUInt64) = decide (s.Continues tc) :=
      decide_eq_decide.mpr ((decides_iff offset).mpr continued)
    rw [accepted, agrees]
    by_cases large : s.Large tc <;> simp [large]
  have same : tc.offset = d.toUInt64 → tc.offset.toNat = s.total % 2 ^ 32 := by
    rintro equal
    rw [equal, UInt32.toNat_toUInt64, offset]
  have asksAlone (large : ¬ s.Large tc) (equal : tc.offset = d.toUInt64) : s.pending = [] :=
    alone.resolve_right (not_or.mpr ⟨large, not_not.mpr (same equal)⟩)
  have mod : tc.offset = d.toUInt64 → tc.offset.toNat % 2 ^ 32 = s.total % 2 ^ 32 := by
    intro equal
    rw [same equal, Nat.mod_mod]
  rw [processed] at taken
  simp only [right, Bool.true_and, decided] at taken
  cases rc with
  | none =>
      obtain rfl := Option.some.inj taken
      have asks : ¬ (s.Large tc ∨ tc.offset ≠ d.toUInt64) := by
        intro none'
        obtain ⟨fc, absent, -⟩ := refused none'
        cases absent
      obtain ⟨large, equal⟩ : ¬ s.Large tc ∧ tc.offset = d.toUInt64 := by
        simpa [not_or] using asks
      have empty := asksAlone large equal
      refine ⟨d, ?_, offset, .inr ⟨tc, by rw [empty], ((decides_iff offset).mpr continued).mp equal,
        mod equal⟩, rfl⟩
      simpa [empty] using lists'
  | some rc =>
      obtain rfl := Option.some.inj taken
      have asks : rc.type = MsgType.rread.code → ¬ s.Large tc ∧ tc.offset = d.toUInt64 := by
        intro read
        by_contra none'
        obtain ⟨fc, given, failed⟩ := refused ((not_and_or.mp none').imp_left not_not.mp)
        obtain rfl := Option.some.inj given
        exact failed.ne_rread read
      have referenced : (1 : Int) ≤ 1 + s.pending.length := by omega
      obtain ⟨d', after, offset', right', left⟩ := @Sound.respond Aux World env n p
        { s with session, right := true } tc rc d _ lists' served referenced offset rfl
        fun read => ⟨((decides_iff offset).mpr continued).mp (asks read).2, mod (asks read).2⟩
      refine ⟨d', by rwa [left], offset', ?_, right'⟩
      rw [left]
      rcases pending with empty | ⟨tc', waits, continues, kept⟩
      · exact .inl empty
      · -- A Tread that comes now is refused, and the sum stays.
        have other : rc.type ≠ MsgType.rread.code := by
          intro read
          rw [asksAlone (asks read).1 (asks read).2] at waits
          cases waits
        refine .inr ⟨tc', waits, ?_, ?_⟩
        · rw [Continues, respond_total, if_neg other]
          exact continues
        · rw [respond_total, if_neg other]
          exact kept

theorem Sound.answer {i : ℕ} (sound : s.Sound n p d)
    (taken : s.step npErrnoToLinux env n p (.respond i rc) = some s') : ∃ d', s'.Sound n p d' := by
  obtain ⟨lists, offset, pending, right⟩ := sound
  obtain ⟨tc, waits, rfl⟩ := Option.map_eq_some_iff.mp taken
  rcases pending with empty | ⟨tc', alone, continues, kept⟩
  · rw [empty] at waits
    cases waits
  · rw [alone] at waits lists
    cases i with
    | succ i => cases waits
    | zero =>
        obtain rfl : tc' = tc := Option.some.inj waits
        obtain ⟨d', after, offset', right', left⟩ := @Sound.respond Aux World env n p
          { s with
            session := { s.session with reqFid := some p }
            pending := s.pending.eraseIdx 0 } tc' rc d 1 lists rfl le_rfl offset right
          fun _ => ⟨continues, kept⟩
        have empty : s.pending.eraseIdx 0 = [] := by rw [alone]; rfl
        refine ⟨d', ?_, offset', .inl (left.trans empty), right'⟩
        rw [left, empty]
        exact after

theorem Sound.other {session : Session Aux World} (sound : s.Sound n p d)
    (stays : s.Stays n p session) : Sound n p { s with session } d := by
  obtain ⟨⟨-, f, live, listed, rfl, -⟩, offset, pending, right⟩ := sound
  obtain ⟨pool, same, counted⟩ := stays
  rw [live, Option.map_some, Option.map_eq_some_iff] at same
  obtain ⟨f', live', fields⟩ := same
  simp only [Prod.mk.injEq] at fields
  obtain ⟨omode, type, stored⟩ := fields
  refine ⟨⟨pool, f', live', ?_, stored, counted f' live'⟩, offset, pending, right⟩
  rw [Npfid.Listed, omode, type]
  exact listed

theorem Sound.step {label : DirEvent Aux World} (sound : s.Sound n p d) (fits : s.Fits label)
    (taken : s.step npErrnoToLinux env n p label = some s') : ∃ d', s'.Sound n p d' := by
  cases label with
  | read tc => exact sound.read fits taken
  | respond i rc => exact sound.answer taken
  | other session =>
      simp only [DirRun.step] at taken
      split_ifs at taken with stays
      obtain rfl := Option.some.inj taken
      exact ⟨d, sound.other stays⟩

theorem Starts.sound (starts : s.Starts n p) : s.Sound n p 0 := by
  obtain ⟨f, live, listed, offset, counted⟩ := starts.opened
  refine ⟨⟨starts.found, f, live, listed, offset, ?_⟩, ?_, .inl starts.pending, starts.right⟩
  · simpa [starts.pending] using counted
  · rw [starts.total]
    rfl

/-- Each Tread is accepted if and only if it restarts or continues the listing. -/
theorem right_of_run {s₀ : DirRun Aux World} (starts : s₀.Starts n p)
    (run : Transition.Reaches (step npErrnoToLinux env n p) Fits s₀ s) : s.right = true := by
  have sound : ∃ d, s.Sound n p d := by
    refine Transition.Reaches.invariant (fun s => ∃ d, s.Sound n p d) ⟨0, starts.sound⟩ ?_ run
    rintro s next label ⟨d, sound⟩ fits taken
    exact sound.step fits taken
  obtain ⟨d, sound⟩ := sound
  exact sound.right

/-- A directory that is open for reading. -/
def opened : DirRun Unit Unit where
  session := .single 8216 { Npfid.new 0 with refcount := 1, omode := 0, type := Qtdir }
  pending := []
  total := 0
  right := true

theorem starts_opened : opened.Starts 0 0 :=
  ⟨rfl, ⟨_, rfl, by decide, rfl, by decide⟩, rfl, rfl, rfl⟩

/-- A Tread for ten bytes. -/
def readFrom (offset : UInt64) : Npfcall :=
  { (default : Npfcall) with type := MsgType.tread.code, fid := 0, offset, count := 10 }

/-- An Rread with ten bytes. -/
def tenBytes : Npfcall := { (default : Npfcall) with type := MsgType.rread.code, count := 10 }

/-- The listing is read from its start, and then from its start again. -/
def restarting : List (DirEvent Unit Unit) :=
  [.read (readFrom 0), .respond 0 tenBytes, .read (readFrom 0)]

/-- The restart is refused. -/
theorem not_right_of_run : ¬ ∀ (env : Env Unit Unit) (s₀ s : DirRun Unit Unit), s₀.Starts 0 0 →
    Transition.Reaches (step id env 0 0) (fun _ _ => True) s₀ s → s.right = true := by
  intro all
  have played : (Transition.play (step id .silent 0 0) (fun _ _ => True) opened restarting).map
      (·.right) = some false := by
    decide +kernel
  obtain ⟨s, run, wrong⟩ := Option.map_eq_some_iff.mp played
  rw [all .silent opened s starts_opened (Transition.reaches_of_play run)] at wrong
  cases wrong

/-- The listing is read in two parts. -/
def continuing : List (DirEvent Unit Unit) :=
  [.read (readFrom 0), .respond 0 tenBytes, .read (readFrom 10), .respond 0 tenBytes,
    .read (readFrom 10)]

instance (s : DirRun Aux World) : DecidablePred s.Fits
  | .read tc => inferInstanceAs (Decidable ((if tc.offset = 0 then s.total % 2 ^ 32 = 0
      else s.total < 2 ^ 32 ∨ tc.offset.toNat ≠ s.total ∧ tc.offset.toNat ≠ s.total % 2 ^ 32) ∧
    (s.pending = [] ∨ s.Large tc ∨ tc.offset.toNat ≠ s.total % 2 ^ 32)))
  | .respond _ _ | .other _ => inferInstanceAs (Decidable True)

theorem right_continuing : ∃ s : DirRun Unit Unit, s.total = 20 ∧ s.right = true := by
  have played : (Transition.play (step id .silent 0 0) Fits opened continuing).map
      (·.total) = some 20 := by
    decide +kernel
  obtain ⟨s, run, total⟩ := Option.map_eq_some_iff.mp played
  exact ⟨s, total, right_of_run starts_opened (Transition.reaches_of_play run)⟩

end DirRun

end Npfs
