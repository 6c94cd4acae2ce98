import Npfs.FailedRequest
import Npfs.Readdir

/-!
# The cookies of a directory

A Treaddir with the cookie of an entry asks for what is behind that entry.  `npfs_readdir` goes back
to the start of the stream for the offset 0, and otherwise goes on where the stream stands.
-/

namespace Npfs

namespace Ufs

namespace HostDir

open Program Serve

/-- Perform an operation of a request. -/
def serveOp (d : HostDir) (u : Ufssrv) : (op : Npfs.Op) → Streaming → op.Reply × Streaming
  | .call callback, s => (ufsStart callback).run (d.execOp u) s
  | op, s => Npfs.exec d.env op s

/-- A Treaddir of the fid `n`.  An error is a reply without entries. -/
def Listing.request (d : HostDir) (u : Ufssrv) (npErrnoToLinux : UInt32 → UInt32) (n : UInt32)
    (l : Listing) (tc : Npfcall) : Option Listing :=
  if tc.type = MsgType.treaddir.code ∧ tc.fid = n then
    let (reply, session) := (serve npErrnoToLinux tc none).run (d.serveOp u)
      { l.session with reqFid := none }
    some ⟨session, l.pages ++ [⟨tc.offset, tc.count,
      (reply.filter fun reply => reply.type = MsgType.rreaddir.code).map readBytes⟩]⟩
  else none

/-- The offset is 0 or a cookie that has come with an entry. -/
def Listing.Knows (l : Listing) (offset : UInt64) : Prop :=
  offset = 0 ∨ offset ∈ (received l.pages).map (·.offset)

instance (l : Listing) (offset : UInt64) : Decidable (l.Knows offset) :=
  inferInstanceAs (Decidable (_ ∨ _))

/-- The stream is where the offset leads to, or will be taken back to the start. -/
def Listing.Stands (d : HostDir) (f : Fid) (l : Listing) (offset : UInt64) : Prop :=
  offset = 0 ∨ d.ahead f l.session.world = d.behind f offset

instance (d : HostDir) (f : Fid) (l : Listing) (offset : UInt64) :
    Decidable (l.Stands d f offset) := inferInstanceAs (Decidable (_ ∨ _))

/-- The fid `n` is the one that `p` points to, and is referenced. -/
structure Listing.Begins (d : HostDir) (u : Ufssrv) (n : UInt32) (p : FidPtr) (f : Fid)
    (l : Listing) : Prop where
  found : l.session.pool n = some p
  live : ∃ g, l.session.fids.get p = some g ∧ g.aux = some f ∧ 1 ≤ g.refcount
  owned : Owned u l.session p
  within : l.session.world ≤ d.entries.length
  pages : l.pages = []
  /-- All turns of the loop are followed. -/
  turns : d.entries.length < u.turns

/-- The server lists the directory for every count that the message size allows: the fid is open for
reading, for a user that the process can change to, and the host gives what it is asked for. -/
structure Serves (d : HostDir) (u : Ufssrv) (p : FidPtr) (f : Fid) (s : Streaming) : Prop where
  open' : ∃ g, s.fids.get p = some g ∧
    ¬ (g.omode = Onotopen ∨ g.omode &&& 3 = Owrite.toUInt16 ∨ g.type &&& Qtdir = 0)
  trusted : d.Trusted u s p
  opened : ¬ d.Closed f
  known : ∀ dirent ∈ d.entries, ¬ isDots dirent.name = true → ¬ d.Unknown f dirent

/-- Each reply consists of the entries behind its offset, from the first one on, as far as there is
room for them; and there is a reply wherever the server lists the directory. -/
structure Listing.Steady (d : HostDir) (u : Ufssrv) (p : FidPtr) (f : Fid) (s : Streaming)
    (l : Listing) : Prop where
  behind : ∀ page ∈ l.pages, ∀ bytes, page.bytes = some bytes → ∃ rest,
    bytes = page.entries.flatMap Entry.wire ∧ bytes.length ≤ page.count.toNat ∧
      d.behind f page.offset = page.entries ++ rest ∧
        ∀ e ∈ rest.head?, page.count.toNat ≤ bytes.length + e.wire.length
  answered : d.Serves u p f s → ∀ page ∈ l.pages, ¬ page.count + IOHDRSZ > s.conn.msize →
    page.bytes.isSome

variable {d : HostDir} {u : Ufssrv} {npErrnoToLinux : UInt32 → UInt32} {s : Streaming}
  {tc rc : Npfcall} {n : UInt32} {p : FidPtr} {f : Fid} {g : Npfid Fid}

/-! ## A request -/

/-- The fid is found, and a reference to it taken. -/
def taken (s : Streaming) (p : FidPtr) : Streaming :=
  { s with fids := s.fids.modify p (.addRef 1), error := none, reqFid := some p }

/-- The tests of `np_readdir`. -/
def Refused (s : Streaming) (g : Npfid Fid) (count : UInt32) : Prop :=
  count + IOHDRSZ > s.conn.msize ∨
    (g.omode = Onotopen ∨ g.omode &&& 3 = Owrite.toUInt16 ∨ g.type &&& Qtdir = 0)

theorem run_taken (found : s.pool tc.fid = some p) (live : s.fids.get p = some g)
    (rest : FidPtr → Serve (Option Npfcall)) :
    (withFid tc.fid rest).run (d.serveOp u) { s with error := none } =
      (rest p).run (d.serveOp u) (taken s p) := by
  have fault : (s.fault || (s.fids.get p).isNone) = s.fault := by simp [live]
  simp only [withFid, npFidFind, step_bind, done_bind, run_step, serveOp, Npfs.exec, found,
    npFidIncref, setReqFid, Session.modify, fault]
  rfl

theorem live_taken (live : s.fids.get p = some g) : (taken s p).fids.get p = some (g.addRef 1) := by
  simp [taken, live]

theorem run_npReaddir_large (found : s.pool tc.fid = some p) (live : s.fids.get p = some g)
    (large : tc.count + IOHDRSZ > s.conn.msize) :
    (npReaddir tc).run (d.serveOp u) { s with error := none } =
      (none, { taken s p with error := some (.of Etoolarge EIO) }) := by
  have large' : tc.count + IOHDRSZ > (taken s p).conn.msize := large
  rw [npReaddir, run_taken found live]
  simp only [conn, step_bind, done_bind, run_step, serveOp, Npfs.exec, large', if_true]
  rfl

theorem run_npReaddir_unreadable (found : s.pool tc.fid = some p) (live : s.fids.get p = some g)
    (small : ¬ tc.count + IOHDRSZ > s.conn.msize)
    (unreadable : g.omode = Onotopen ∨ g.omode &&& 3 = Owrite.toUInt16 ∨ g.type &&& Qtdir = 0) :
    (npReaddir tc).run (d.serveOp u) { s with error := none } =
      (none, { taken s p with error := some (.of Ebadusefid EIO) }) := by
  have live' := live_taken live
  have small' : ¬ tc.count + IOHDRSZ > (taken s p).conn.msize := small
  have unreadable' : (g.addRef 1).omode = Onotopen ∨
    (g.addRef 1).omode &&& 3 = Owrite.toUInt16 ∨ (g.addRef 1).type &&& Qtdir = 0 := unreadable
  rw [npReaddir, run_taken found live]
  simp only [conn, omode, type, step_bind, done_bind, run_step, serveOp, Npfs.exec, small', if_false,
    Session.load, live', unreadable', if_true]
  rfl

theorem run_npReaddir (found : s.pool tc.fid = some p) (live : s.fids.get p = some g)
    (small : ¬ tc.count + IOHDRSZ > s.conn.msize)
    (readable : ¬ (g.omode = Onotopen ∨ g.omode &&& 3 = Owrite.toUInt16 ∨ g.type &&& Qtdir = 0)) :
    (npReaddir tc).run (d.serveOp u) { s with error := none } =
      (npfsReaddir p tc.offset tc.count).run (d.execOp u) (taken s p) := by
  have live' := live_taken live
  have small' : ¬ tc.count + IOHDRSZ > (taken s p).conn.msize := small
  have readable' : ¬ ((g.addRef 1).omode = Onotopen ∨
    (g.addRef 1).omode &&& 3 = Owrite.toUInt16 ∨ (g.addRef 1).type &&& Qtdir = 0) := readable
  rw [npReaddir, run_taken found live]
  simp only [conn, omode, type, step_bind, done_bind, run_step, serveOp, Npfs.exec, small', if_false,
    Session.load, live', readable']
  rfl

/-- The reply of the handler stays if there is no error, and becomes an error if there is one. -/
theorem run_errorReply_serveOp (rc : Option Npfcall) : ∃ rc',
    (errorReply npErrnoToLinux rc).run (d.serveOp u) s = (rc', s) ∧
      (s.error = none → rc' = rc) ∧ (s.error ≠ none → ∃ fc, rc' = some fc ∧ fc.Failed) := by
  cases clear : s.error with
  | none =>
      refine ⟨rc, ?_, fun _ => rfl, fun some' => absurd rfl some'⟩
      simp only [errorReply, npRerror, step_bind, done_bind, run_step, serveOp, Npfs.exec, clear]
      rfl
  | some error =>
      obtain ⟨rerror, created, type⟩ := rerror_type error s.conn.dotu d.heap
      obtain ⟨rlerror, created', type'⟩ := rlerror_type npErrnoToLinux error.ecode d.heap
      by_cases dotl : s.conn.dotl = true
      · refine ⟨some rlerror, ?_, fun none' => (by cases none'), fun _ => ⟨rlerror, rfl, .inr type'⟩⟩
        simp only [errorReply, npRerror, conn, step_bind, done_bind, run_step, serveOp, Npfs.exec,
          clear, dotl, if_true, Serve.create, env, created', run_done]
        rw [← clear]
      · refine ⟨some rerror, ?_, fun none' => (by cases none'), fun _ => ⟨rerror, rfl, .inl type⟩⟩
        simp only [errorReply, npRerror, conn, step_bind, done_bind, run_step, serveOp, Npfs.exec,
          clear, dotl, Bool.false_eq_true, if_false, Serve.create, env, created, run_done]
        rw [← clear]

/-- The reply is sent, and the reference of the request given up. -/
theorem run_sendReply_serveOp (served : s.reqFid = some p) (live : s.fids.get p = some g)
    (more : g.refcount ≠ 1) (other : rc.type ≠ MsgType.rread.code) :
    (sendReply tc (some rc)).run (d.serveOp u) s = (some (npSetTag rc tc.tag),
      { s with fids := s.fids.modify p (.addRef (-1)), reqFid := none }) := by
  have left : ¬ g.refcount - 1 = 0 := by omega
  simp only [sendReply, npRespond, reqFid, step_bind, done_bind, run_step, serveOp, Npfs.exec,
    served, if_neg other, npFidDecref, fidDecref, Session.load, live, if_neg left, setReqFid,
    Session.modify, Option.isNone_some, Bool.or_false, pure_eq]
  rfl

/-- What a Treaddir leaves behind: the fid may have its directory opened, and is else what it was. -/
structure Left (d : HostDir) (f : Fid) (s : Streaming) (p : FidPtr) (g : Npfid Fid)
    (s' : Streaming) : Prop where
  pool : s'.pool = s.pool
  conn : s'.conn = s.conn
  live : ∃ dir, s'.fids.get p = some { g with aux := some { f with dir } } ∧
    (dir = f.dir ∨ dir.isSome)
  within : s'.world ≤ d.entries.length

/-- The bytes of a reply that is no error. -/
def shownBytes (reply : Option Npfcall) : Option (List UInt8) :=
  (reply.filter fun reply => reply.type = MsgType.rreaddir.code).map readBytes

theorem shownBytes_failed (failed : rc.Failed) : shownBytes (some rc) = none := by
  have other : rc.type ≠ MsgType.rreaddir.code := by
    rcases failed with type | type <;> rw [type] <;> decide
  simp [shownBytes, Option.filter, other]

theorem shownBytes_npSetTag (tag : UInt16) (type : rc.type = MsgType.rreaddir.code) :
    shownBytes (some (npSetTag rc tag)) = some (readBytes rc) := by
  have kept : (npSetTag rc tag).type = MsgType.rreaddir.code := type
  simp [shownBytes, Option.filter, kept, readBytes_npSetTag]

/-- A Treaddir is handled: its reply, if it is no error, is that of `npfs_readdir`. -/
structure Handled (d : HostDir) (u : Ufssrv) (f : Fid) (s : Streaming) (p : FidPtr)
    (g : Npfid Fid) (tc : Npfcall) (rc : Option Npfcall) (s' : Streaming) : Prop where
  served : s'.reqFid = some p
  pool : s'.pool = s.pool
  conn : s'.conn = s.conn
  live : ∃ dir, s'.fids.get p = some { g.addRef 1 with aux := some { f with dir } } ∧
    (dir = f.dir ∨ dir.isSome)
  within : s'.world ≤ d.entries.length
  called : ∀ fc ∈ rc, d.Called f tc.count (startOf tc.offset s.world) s'.world (some fc)
  failed : rc = none → s'.error ≠ none
  answered : d.Serves u p f s → ¬ tc.count + IOHDRSZ > s.conn.msize →
    s'.error = none ∧ rc.isSome

theorem user_taken (live : s.fids.get p = some g) :
    ((taken s p).fids.get p).bind (·.user) = (s.fids.get p).bind (·.user) := by
  rw [live_taken live, live]
  rfl

theorem trusted_taken (live : s.fids.get p = some g) (trusted : d.Trusted u s p) :
    d.Trusted u (taken s p) p := by
  unfold Trusted
  rw [user_taken live]
  exact trusted

theorem owned_taken (live : s.fids.get p = some g) (owned : Owned u s p) :
    Owned u (taken s p) p := by
  unfold Owned
  rw [user_taken live]
  exact owned

theorem serves_unreadable (serves : d.Serves u p f s) (live : s.fids.get p = some g) :
    ¬ (g.omode = Onotopen ∨ g.omode &&& 3 = Owrite.toUInt16 ∨ g.type &&& Qtdir = 0) := by
  obtain ⟨g', live', readable⟩ := serves.open'
  obtain rfl : g = g' := Option.some.inj (live.symm.trans live')
  exact readable

/-- `np_readdir`. -/
theorem handled_npReaddir (found : s.pool tc.fid = some p) (live : s.fids.get p = some g)
    (aux : g.aux = some f) (owned : Owned u s p) (within : s.world ≤ d.entries.length)
    (turns : d.entries.length < u.turns) (small : tc.count.toNat + 11 < 2 ^ 31) :
    ∃ rc s', (npReaddir tc).run (d.serveOp u) { s with error := none } = (rc, s') ∧
      d.Handled u f s p g tc rc s' := by
  have stays : ∃ dir, (taken s p).fids.get p = some { g.addRef 1 with aux := some { f with dir } } ∧
      (dir = f.dir ∨ dir.isSome) := by
    refine ⟨f.dir, ?_, .inl rfl⟩
    rw [live_taken live, Npfid.addRef, aux]
  by_cases large : tc.count + IOHDRSZ > s.conn.msize
  · refine ⟨none, _, run_npReaddir_large found live large, rfl, rfl, rfl, stays, within,
      fun fc member => (by cases member), fun _ none' => (by cases none'), fun _ small => ?_⟩
    exact absurd large small
  by_cases unreadable :
      g.omode = Onotopen ∨ g.omode &&& 3 = Owrite.toUInt16 ∨ g.type &&& Qtdir = 0
  · refine ⟨none, _, run_npReaddir_unreadable found live large unreadable, rfl, rfl, rfl, stays,
      within, fun fc member => (by cases member), fun _ none' => (by cases none'),
      fun serves _ => ?_⟩
    exact absurd unreadable (serves_unreadable serves live)
  have aux' : ((taken s p).fids.get p).map (·.aux) = some (some f) := by
    rw [live_taken live, Option.map_some, Npfid.addRef, aux]
  obtain ⟨rc, dir, error, at'', ran, opened, bound, called, quiet, loud⟩ :=
    @run_npfsReaddir d u (taken s p) p f tc.offset tc.count aux' (owned_taken live owned) within
      turns small
  refine ⟨rc, _, (run_npReaddir found live large unreadable).trans ran, rfl, rfl, rfl,
    ⟨dir, ?_, opened⟩, bound, ?_, loud, ?_⟩
  · have live' := live_taken live
    simp [after, live']
  · rintro fc member
    obtain rfl : rc = some fc := member
    exact called
  · intro serves _
    have some' : rc.isSome := by
      cases none' : rc with
      | some rc => rfl
      | none =>
          rcases called.failed none' with closed | ⟨dirent, member, proper, unknown⟩
          · exact absurd closed serves.opened
          · exact absurd unknown (serves.known dirent member proper)
    exact ⟨quiet (trusted_taken live serves.trusted) some', some'⟩

/-- A Treaddir is served. -/
theorem served_treaddir (type : tc.type = MsgType.treaddir.code)
    (found : s.pool tc.fid = some p) (live : s.fids.get p = some g) (aux : g.aux = some f)
    (referenced : 1 ≤ g.refcount) (owned : Owned u s p) (within : s.world ≤ d.entries.length)
    (turns : d.entries.length < u.turns) (small : tc.count.toNat + 11 < 2 ^ 31) :
    ∃ reply s', (serve npErrnoToLinux tc none).run (d.serveOp u) s = (reply, s') ∧
      d.Left f s p g s' ∧
      (shownBytes reply = none ∨ ∃ rc, shownBytes reply = some (readBytes rc) ∧
        d.Called f tc.count (startOf tc.offset s.world) s'.world (some rc)) ∧
      (d.Serves u p f s → ¬ tc.count + IOHDRSZ > s.conn.msize → (shownBytes reply).isSome) := by
  obtain ⟨rc, s₁, ran, handled⟩ := @handled_npReaddir d u s tc p f g found live aux owned within
    turns small
  obtain ⟨rc', replied, quiet, loud⟩ :=
    @run_errorReply_serveOp d u npErrnoToLinux s₁ rc
  obtain ⟨dir, live', opened⟩ := handled.live
  have handler : npHandle tc = npReaddir tc := by
    rw [npHandle, npHandler, type]
    rfl
  obtain ⟨fc, rfl, other⟩ : ∃ fc, rc' = some fc ∧ fc.type ≠ MsgType.rread.code := by
    by_cases clear : s₁.error = none
    · cases given : rc with
      | none => exact absurd clear (handled.failed given)
      | some fc =>
          refine ⟨fc, (quiet clear).trans given, ?_⟩
          rw [(handled.called fc given).type fc rfl]
          decide
    · obtain ⟨fc, is, failed⟩ := loud clear
      exact ⟨fc, is, failed.ne_rread⟩
  have more : (g.addRef 1).refcount ≠ 1 := by
    simp only [Npfid.addRef]
    omega
  have sent := @run_sendReply_serveOp d u s₁ tc fc p _ handled.served live' more other
  refine ⟨some (npSetTag fc tc.tag),
    { s₁ with fids := s₁.fids.modify p (.addRef (-1)), reqFid := none }, ?_,
    ⟨handled.pool, handled.conn, ⟨dir, ?_, opened⟩, handled.within⟩, ?_, fun serves small => ?_⟩
  · rw [serve_eq, handler]
    simp only [npWerrorNone, step_bind, done_bind, run_step, serveOp, Npfs.exec]
    rw [run_bind, ran, run_bind, replied, Option.or_none, sent]
  · have back : g.refcount + 1 + -1 = g.refcount := by omega
    simp [live', Npfid.addRef, back]
  · by_cases clear : s₁.error = none
    · obtain rfl := quiet clear
      have called := handled.called fc rfl
      exact .inr ⟨fc, shownBytes_npSetTag tc.tag (called.type fc rfl), called⟩
    · obtain ⟨fc', is, failed⟩ := loud clear
      obtain rfl := Option.some.inj is
      exact .inl (@shownBytes_failed (npSetTag fc tc.tag) failed)
  · obtain ⟨clear, -⟩ := handled.answered serves small
    obtain rfl := quiet clear
    rw [shownBytes_npSetTag tc.tag ((handled.called fc rfl).type fc rfl)]
    rfl

/-! ## Runs -/

section Run

variable {l l' l₀ : Listing}

/-- What stays true in a run. -/
structure Listing.Stays (d : HostDir) (u : Ufssrv) (n : UInt32) (p : FidPtr) (f : Fid)
    (s : Streaming) (l : Listing) : Prop where
  steady : l.Steady d u p f s
  found : l.session.pool n = some p
  conn : l.session.conn = s.conn
  live : ∃ g dir, s.fids.get p = some g ∧
    l.session.fids.get p = some { g with aux := some { f with dir } } ∧ 1 ≤ g.refcount ∧
      (dir = f.dir ∨ dir.isSome)
  within : l.session.world ≤ d.entries.length

theorem Listing.Begins.stays (begins : l.Begins d u n p f) : l.Stays d u n p f l.session := by
  obtain ⟨g, live, aux, referenced⟩ := begins.live
  refine ⟨⟨?_, ?_⟩, begins.found, rfl, ⟨g, f.dir, live, ?_, referenced, .inl rfl⟩, begins.within⟩
  · simp [begins.pages]
  · simp [begins.pages]
  · rw [live, ← aux]

/-- The directory that a fid has opened does not matter. -/
theorem serves_opened {dir : Option UInt64} (live : s.fids.get p = some g)
    {s' : Streaming} (live' : s'.fids.get p = some { g with aux := some { f with dir } })
    (opened : dir = f.dir ∨ dir.isSome) (serves : d.Serves u p f s) :
    d.Serves u p { f with dir } s' where
  open' := by
    have readable := serves_unreadable serves live
    exact ⟨_, live', readable⟩
  trusted := by
    have trusted := serves.trusted
    unfold Trusted at trusted ⊢
    rw [live']
    rw [live] at trusted
    exact trusted
  opened := by
    rintro ⟨none', refused⟩
    rcases opened with rfl | opened
    · exact serves.opened ⟨none', refused⟩
    · rw [show dir = none from none'] at opened
      cases opened
  known := serves.known

/-- The entries behind the offset of a call are the ones that it finds. -/
theorem behind_of_stands {offset : UInt64} (stands : l.Stands d f offset) :
    d.ahead f (startOf offset l.session.world) = d.behind f offset := by
  by_cases zero : offset = 0
  · subst zero
    rfl
  · rw [startOf, if_neg zero]
    exact stands.resolve_left zero

theorem Listing.Steady.page {session : Streaming} {page : Page} (steady : l.Steady d u p f s)
    (behind : ∀ bytes, page.bytes = some bytes → ∃ rest,
      bytes = page.entries.flatMap Entry.wire ∧ bytes.length ≤ page.count.toNat ∧
        d.behind f page.offset = page.entries ++ rest ∧
          ∀ e ∈ rest.head?, page.count.toNat ≤ bytes.length + e.wire.length)
    (answered : d.Serves u p f s → ¬ page.count + IOHDRSZ > s.conn.msize → page.bytes.isSome) :
    ({ session, pages := l.pages ++ [page] } : Listing).Steady d u p f s where
  behind := by
    intro page' member
    rcases List.mem_append.mp member with earlier | last
    · exact steady.behind page' earlier
    · obtain rfl := List.mem_singleton.mp last
      exact behind
  answered := by
    intro serves page' member
    rcases List.mem_append.mp member with earlier | last
    · exact steady.answered serves page' earlier
    · obtain rfl := List.mem_singleton.mp last
      exact answered serves

theorem Listing.Stays.request (stays : l.Stays d u n p f s) (owned : Owned u s p)
    (turns : d.entries.length < u.turns) (stands : l.Stands d f tc.offset)
    (small : tc.count.toNat + 11 < 2 ^ 31)
    (taken : l.request d u npErrnoToLinux n tc = some l') : l'.Stays d u n p f s := by
  obtain ⟨steady, found, conn, ⟨g, dir, live, live', referenced, opened⟩, within⟩ := stays
  unfold Listing.request at taken
  split_ifs at taken with typed
  obtain ⟨type, rfl⟩ := typed
  have owned' : Owned u { l.session with reqFid := none } p := by
    unfold Owned at owned ⊢
    rw [live] at owned
    dsimp only
    rw [live']
    exact owned
  obtain ⟨reply, s', ran, left, called, answered⟩ := @served_treaddir d u npErrnoToLinux
    { l.session with reqFid := none } tc p { f with dir } _ type found live' rfl referenced owned'
    within turns small
  obtain ⟨dir', live'', opened'⟩ := left.live
  rw [ran] at taken
  obtain rfl := Option.some.inj taken
  refine ⟨steady.page ?_ ?_, left.pool ▸ found, left.conn.trans conn,
    ⟨g, dir', live, live'', referenced, ?_⟩, left.within⟩
  · intro bytes shown
    rcases called with none' | ⟨rc, some', called⟩
    · exact absurd (none'.symm.trans shown) (by simp)
    · obtain rfl : readBytes rc = bytes := Option.some.inj (some'.symm.trans shown)
      obtain ⟨entries, bytes, size, next, full⟩ := called.listed rc rfl
      have behind : d.behind f tc.offset = entries ++ d.ahead f s'.world := by
        rw [← behind_of_stands stands]
        exact next
      have found : (⟨tc.offset, tc.count, shownBytes reply⟩ : Page).entries = entries := by
        rw [some', bytes]
        exact entries_of_bytes (f := f) (behind ▸ List.prefix_append _ _)
      refine ⟨d.ahead f s'.world, ?_, size, ?_, full⟩
      · exact bytes.trans (congrArg _ found.symm)
      · exact behind.trans (congrArg (· ++ _) found.symm)
  · intro serves small
    refine answered (serves_opened live live' opened serves) ?_
    rw [← conn] at small
    exact small
  · rcases opened' with rfl | opened'
    · exact opened
    · exact .inr opened'

/-- In every run whose requests find the stream where their offsets lead to, or go back to the
start, each reply has the entries behind its offset. -/
theorem cookies_of_run (begins : l₀.Begins d u n p f)
    (run : Transition.Reaches (Listing.request d u npErrnoToLinux n)
      (fun l tc => l.Knows tc.offset ∧ l.Stands d f tc.offset ∧ tc.count.toNat + 11 < 2 ^ 31)
      l₀ l) : l.Steady d u p f l₀.session := by
  refine (Transition.Reaches.invariant (Listing.Stays d u n p f l₀.session) begins.stays ?_
    run).steady
  intro l tc l' stays allowed taken
  exact stays.request begins.owned begins.turns allowed.2.1 allowed.2.2 taken

end Run

/-! ### Re-reading a page -/

theorem begins_twoFiles : ({ session := streaming, pages := [] } : Listing).Begins twoFiles
    following 0 0 openFid where
  found := rfl
  live := ⟨_, rfl, rfl, by decide⟩
  owned := .inl rfl
  within := by decide
  pages := rfl
  turns := by decide

/-- A request for one entry. -/
def readdirFrom (offset : UInt64) : Npfcall :=
  { (default : Npfcall) with type := MsgType.treaddir.code, fid := 0, offset, count := 26 }

/-- The second entry is asked for twice, and comes once. -/
theorem not_cookies_of_run : ¬ ∀ (d : HostDir) (u : Ufssrv) (npErrnoToLinux : UInt32 → UInt32)
    (n : UInt32) (p : FidPtr) (f : Fid) (l₀ l : Listing), l₀.Begins d u n p f →
      Transition.Reaches (Listing.request d u npErrnoToLinux n)
        (fun l tc => l.Knows tc.offset) l₀ l → l.Steady d u p f l₀.session := by
  intro all
  have played : (Transition.play (Listing.request twoFiles following id 0)
      (fun l tc => l.Knows tc.offset) ⟨streaming, []⟩
      [readdirFrom 0, readdirFrom 3, readdirFrom 3]).map
        (fun l => l.pages[2]?.map fun page => (page.offset, page.count, page.bytes)) =
          some (some (3, 26, some [])) := by
    decide +kernel
  obtain ⟨l, is, last⟩ := Option.map_eq_some_iff.mp played
  obtain ⟨page, third, fields⟩ := Option.map_eq_some_iff.mp last
  obtain ⟨offset, count, bytes⟩ : page.offset = 3 ∧ page.count = 26 ∧ page.bytes = some [] := by
    simpa using fields
  have steady := all twoFiles following id 0 0 openFid _ l begins_twoFiles
    (Transition.reaches_of_play is)
  obtain ⟨rest, none', -, split, full⟩ :=
    steady.behind page (List.mem_of_getElem? third) [] bytes
  rw [wires_eq_nil.mp none'.symm, List.nil_append, offset] at split
  rw [← split, count] at full
  have room : ∃ e ∈ (twoFiles.behind openFid 3).head?,
      ¬ (26 : UInt32).toNat ≤ ([] : List UInt8).length + e.wire.length := by
    decide +kernel
  obtain ⟨e, first, fits⟩ := room
  exact fits (full e first)

/-- The entries come one after the other. -/
theorem cookies_of_run_three : ∃ l : Listing, l.pages.length = 3 ∧
    l.Steady twoFiles following 0 openFid streaming := by
  have played : (Transition.play (Listing.request twoFiles following id 0)
      (fun l tc => l.Knows tc.offset ∧ l.Stands twoFiles openFid tc.offset ∧
        tc.count.toNat + 11 < 2 ^ 31) ⟨streaming, []⟩
      [readdirFrom 0, readdirFrom 3, readdirFrom 0]).map (·.pages.length) = some 3 := by
    decide +kernel
  obtain ⟨l, is, length⟩ := Option.map_eq_some_iff.mp played
  exact ⟨l, length, cookies_of_run begins_twoFiles (Transition.reaches_of_play is)⟩

end HostDir

end Ufs

end Npfs
