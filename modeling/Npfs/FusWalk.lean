import Npfs.Fid
import Npfs.FusReady

/-!
# Walks in `fus`

`p9walk` of `fs/fus.c`: the path of a walk is in the storage of the new fid or a block of the heap,
and becomes the path of the new fid, which may be the one that the walk starts from.
-/

namespace Npfs

namespace FusFids

/-- `EINVAL`. -/
def EINVAL : UInt32 := 22

/-- `ENOENT`. -/
def ENOENT : UInt32 := 2

/-- A reply. -/
inductive Reply where
  | rerror (ename : CStr) (ecode : UInt32)
  /-- With the text of `strerror_r`. -/
  | ruerror (ecode : UInt32)
  | rwalk (wqid : List Qid)

/-- The path of a walk, and the connection in which there is room for it. -/
structure Room where
  conn : Conn
  path : PathPtr

namespace Conn

variable (conn : Conn)

/-- The path of a walk, which comes from `malloc` if the storage of the record is too small. -/
def allocPath (newfid : Place) (slen : ℕ) (junk : ℕ → UInt8) : Room :=
  if slen ≥ 256 then
    ⟨{ conn with blocks := conn.blocks.push ((List.range slen).map junk) }, .block conn.blocks.next⟩
  else
    ⟨conn, .cpath newfid⟩

/-- The end of `p9walk` if no name was found. -/
def refuse (fid newfid : Place) (path : PathPtr) (olen : ℕ) (mem : List UInt8) : Option Conn := do
  let conn ← if newfid ≠ fid then fiddestroy conn newfid
    else some (conn.setMemory path (mem.set olen 0))
  if path ≠ .cpath newfid then conn.free path else some conn

/-- The path that the new fid has had is freed. -/
def release (newfid : Place) (record : Fid) : Option Conn :=
  match record.path with
  | none => some conn
  | some old => if old ≠ .cpath newfid then conn.free old else some conn

/-- The end of `p9walk` otherwise. -/
def accept (fid newfid : Place) (path : PathPtr) (wqids : List Qid) : Option Conn := do
  let source ← conn.get fid
  let record ← conn.get newfid
  let conn ← conn.release newfid record
  let type := wqids.getLast?.elim source.type (·.type)
  return conn.modify newfid fun record => { record with path := some path, type }

/-- `p9walk`, behind the lookup of the two fids. -/
def walkTo (fid newfid : Place) (body : Body) (statqid : ℕ → Option Qid) (junk : ℕ → UInt8) :
    Option (Reply × Conn) := do
  let got ← getNames body body.nwname 0 10 0 body.mem
  let text ← conn.pathOf fid
  let room := conn.allocPath newfid (got.slen + (text.length + 1)) junk
  let mem ← room.conn.memory room.path
  let mem ← put mem 0 (text ++ [0])
  let walked ← walkNames got.mem statqid got.names 0 text.length mem
  let conn := room.conn.setMemory room.path walked.path
  if body.nwname ≠ 0 ∧ walked.wqids = [] then
    (conn.refuse fid newfid room.path text.length walked.path).map (.ruerror ENOENT, ·)
  else
    (conn.accept fid newfid room.path walked.wqids).map (.rwalk walked.wqids, ·)

/-- `p9walk`, behind the lookup of the fid. -/
def walkFrom (fid : Place) (body : Body) (statqid : ℕ → Option Qid) (junk : ℕ → UInt8) :
    Option (Reply × Conn) := do
  let record ← conn.get fid
  if body.newfid ≠ record.fid then
    let (newfid, conn) ← fidcreate conn body.newfid
    match newfid with
    | none => return (.rerror (cstr "fid already exists") EIO, conn)
    | some newfid => conn.walkTo fid newfid body statqid junk
  else
    conn.walkTo fid fid body statqid junk

end Conn

/-- `p9walk`, with what `statqid` finds for each name and what is in the memory that `malloc`
returns; `none` if it uses memory that is not there or was never set. -/
def p9walk (conn : Conn) (body : Body) (statqid : ℕ → Option Qid) (junk : ℕ → UInt8) :
    Option (Reply × Conn) :=
  if body.size < 10 then some (.rerror (cstr "invalid message") EINVAL, conn)
  else do
    match ← fidget conn body.fid with
    | none => return (.rerror (cstr "invalid fid") EINVAL, conn)
    | some fid => conn.walkFrom fid body statqid junk

/-! ## What it is for -/

/-- A reply is right: an Rwalk says which of the names, that all fit in the body, were found, and
leaves the new fid with the path that they lead to, and an error leaves all fids as they were. -/
def Reply.Right (conn : Conn) (body : Body) (statqid : ℕ → Option Qid) (conn' : Conn) :
    Reply → Prop
  | .rwalk wqid => body.nwname ≤ Maxwelem ∧ ∃ names path type type',
      bodyNames body body.nwname 10 = some names ∧
      wqid = leading statqid body.nwname 0 ∧
      conn.view body.fid = some (path, type) ∧
      conn'.view body.newfid = some (path ++ joined (names.take wqid.length), type')
  | .rerror _ _ | .ruerror _ => (∀ n, conn'.view n = conn.view n) ∧
      (fidget conn' body.newfid = some none ↔ fidget conn body.newfid = some none)

/-- A walk uses no memory that is not there, and its reply is right. -/
def Walks (conn : Conn) (body : Body) (statqid : ℕ → Option Qid) (junk : ℕ → UInt8) : Prop :=
  ∃ reply conn', p9walk conn body statqid junk = some (reply, conn') ∧
    reply.Right conn body statqid conn'

/-- The walks with a right reply. -/
def Plain (conn : Conn) (body : Body) (statqid : ℕ → Option Qid) : Prop :=
  body.size < 10 ∨ fidget conn body.fid = some none ∨
  (body.newfid ≠ body.fid ∧ body.newfid < Fidtblsz ∧ fidget conn body.newfid ≠ some none) ∨
  (body.nwname ≤ Maxwelem ∧
    (body.Missing statqid ∧
        ¬ (body.newfid = noFid ∧ fidget conn noFid = some none) ∨
      body.Complete statqid ∧ (body.newfid = body.fid ∨ body.newfid < Fidtblsz)))

/-! ### The end of a walk -/

namespace Conn

variable {conn : Conn} {fid newfid f : Place} {r source : Fid} {slen olen : ℕ} {junk : ℕ → UInt8}
  {bytes : List UInt8} {wqids : List Qid}

theorem allocPath_inline (short : ¬ slen ≥ 256) :
    conn.allocPath newfid slen junk = ⟨conn, .cpath newfid⟩ := if_neg short

theorem allocPath_block (long : slen ≥ 256) : conn.allocPath newfid slen junk =
    ⟨{ conn with blocks := conn.blocks.push ((List.range slen).map junk) },
      .block conn.blocks.next⟩ := if_pos long

/-- The storage of a walk has the room that it needs. -/
theorem allocPath_memory (target : conn.get newfid = some r) (size : r.cpath.length = 256) :
    ∃ mem, (conn.allocPath newfid slen junk).conn.memory (conn.allocPath newfid slen junk).path =
        some mem ∧ slen ≤ mem.length ∧ (slen < 256 → mem.length = 256) := by
  by_cases long : slen ≥ 256
  · rw [allocPath_block long]
    exact ⟨(List.range slen).map junk, Cells.get_push_next, by simp, by omega⟩
  · rw [allocPath_inline long]
    exact ⟨r.cpath, by rw [memory, target, Option.map_some], by omega, fun _ => size⟩

/-- The connection with the path of a walk. -/
def stored (conn : Conn) (newfid : Place) (slen : ℕ) (junk : ℕ → UInt8) (bytes : List UInt8) :
    Conn :=
  (conn.allocPath newfid slen junk).conn.setMemory (conn.allocPath newfid slen junk).path bytes

theorem stored_inline (short : ¬ slen ≥ 256) : conn.stored newfid slen junk bytes =
    conn.modify newfid fun record => { record with cpath := bytes } := by
  rw [stored, allocPath_inline short]
  rfl

theorem stored_block (long : slen ≥ 256) : ∃ blocks,
    conn.stored newfid slen junk bytes = { conn with blocks } ∧
      blocks.get conn.blocks.next = some bytes ∧
      ∀ b ≠ conn.blocks.next, blocks.get b = conn.blocks.get b := by
  rw [stored, allocPath_block long]
  refine ⟨_, rfl, ?_, fun b different => ?_⟩
  · rw [Cells.get_modify_self, Cells.get_push_next, Option.map_some]
  · rw [Cells.get_modify_ne different, Cells.get_push, if_neg different]

/-- The block of a walk is freed, and all others are as before. -/
theorem get_freed {blocks : Cells (List UInt8)}
    (same : ∀ b ≠ conn.blocks.next, blocks.get b = conn.blocks.get b) (b : ℕ) :
    (blocks.free conn.blocks.next).get b = conn.blocks.get b := by
  by_cases here : b = conn.blocks.next
  · rw [here, Cells.get_free_self, Cells.get_next]
  · rw [Cells.get_free_ne here, same b here]

/-- If the first name is not found, a new fid is not used any more. -/
theorem refuse_other (different : newfid ≠ fid) (target : conn.get newfid = some r)
    (numbered : r.fid < Fidtblsz) (linked : ∀ p, newfid = .heap p → r.next = none) :
    ∃ conn', (conn.stored newfid slen junk bytes).refuse fid newfid
        (conn.allocPath newfid slen junk).path olen bytes = some conn' ∧
      conn.Changed newfid Fid.dead conn' ∧ ∀ b, conn'.blocks.get b = conn.blocks.get b := by
  by_cases long : slen ≥ 256
  · obtain ⟨blocks, is, -, same⟩ := @stored_block conn newfid slen junk bytes long
    have target' : ({ conn with blocks } : Conn).get newfid = some r := target
    have dead := ((Changed.refl target).blocks blocks).trans
      (@changed_modify _ _ _ (fun _ => Fid.dead) target' fun p here => (linked p here).symm)
    refine ⟨_, ?_, dead.blocks (blocks.free conn.blocks.next), get_freed same⟩
    rw [is, allocPath_block long, refuse, if_pos different, fiddestroy_eq target' numbered]
    simp only [Option.bind_eq_bind, Option.bind_some]
    rw [if_pos (fun same => by cases same), free, blocks_modify]
  · have changed := @changed_modify conn newfid r (fun record => { record with cpath := bytes })
      target fun _ _ => rfl
    have dead := changed.trans (@changed_modify _ _ _ (fun _ => Fid.dead) changed.here
      fun p here => (linked p here).symm)
    refine ⟨_, ?_, dead, fun b => by rw [blocks_modify, blocks_modify]⟩
    rw [stored_inline long, allocPath_inline long, refuse, if_pos different,
      fiddestroy_eq changed.here numbered]
    simp only [Option.bind_eq_bind, Option.bind_some]
    rw [if_neg (not_not.mpr rfl)]

/-- A path with other bytes behind its end. -/
theorem text_cpath {text rest : List UInt8} (is : conn.text r = some text) (plain : 0 ∉ text) :
    conn.text { r with cpath := text ++ 0 :: rest } = some text := by
  rw [Conn.text] at is ⊢
  cases path : r.path with
  | none =>
      rw [path] at is
      cases is
  | some path' =>
      rw [path] at is
      cases path' with
      | cpath g => exact cut_append plain
      | block b => exact is

/-- If the first name is not found in a walk in place, the path ends where it did. -/
theorem refuse_same {text rest : List UInt8} {b : UInt8} (target : conn.get fid = some r)
    (ok : r.Ok fid) (is : conn.text r = some text) (plain : 0 ∉ text)
    (size : slen < 256 → (text ++ b :: rest).length = 256) :
    ∃ conn' r', (conn.stored fid slen junk (text ++ b :: rest)).refuse fid fid
        (conn.allocPath fid slen junk).path text.length (text ++ b :: rest) = some conn' ∧
      conn.Changed fid r' conn' ∧ r'.Ok fid ∧ r'.fid = r.fid ∧ conn.text r' = some text ∧
      r'.type = r.type ∧ ∀ b, conn'.blocks.get b = conn.blocks.get b := by
  have ended : (text ++ b :: rest).set text.length 0 = text ++ 0 :: rest := by simp
  by_cases long : slen ≥ 256
  · obtain ⟨blocks, is', -, same⟩ := @stored_block conn fid slen junk (text ++ b :: rest) long
    let ended' := blocks.modify conn.blocks.next fun _ => text ++ 0 :: rest
    refine ⟨{ conn with blocks := ended'.free conn.blocks.next }, r, ?_,
      (Changed.refl target).blocks _, ok, rfl, is, rfl, get_freed fun b different => ?_⟩
    · rw [is', allocPath_block long, refuse, if_neg (not_not.mpr rfl), ended]
      simp only [Option.bind_eq_bind, Option.bind_some]
      rw [if_pos (fun same => by cases same)]
      rfl
    · rw [Cells.get_modify_ne different, same b different]
  · have changed := @changed_modify conn fid r
      (fun record => { record with cpath := text ++ b :: rest }) target fun _ _ => rfl
    have changed' := changed.trans (@changed_modify _ _ _
      (fun record => { record with cpath := text ++ 0 :: rest }) changed.here fun _ _ => rfl)
    refine ⟨_, _, ?_, changed', ⟨ok.numbered, ?_, ok.own⟩, rfl,
      @text_cpath conn r text rest is plain, rfl, fun b => by rw [blocks_modify, blocks_modify]⟩
    · rw [stored_inline long, allocPath_inline long, refuse, if_neg (not_not.mpr rfl), ended]
      simp only [Option.bind_eq_bind, Option.bind_some]
      rw [if_neg (not_not.mpr rfl)]
      rfl
    · have length := size (by omega)
      simpa using length

/-- The block that a record has had is freed. -/
theorem release_eq (owned : ∀ g, r.path = some (.cpath g) → g = newfid) : ∃ blocks,
    conn.release newfid r = some { conn with blocks } ∧
      ∀ b, r.path ≠ some (.block b) → blocks.get b = conn.blocks.get b := by
  rw [release]
  cases path : r.path with
  | none => exact ⟨conn.blocks, rfl, fun _ _ => rfl⟩
  | some old =>
      dsimp only
      cases old with
      | cpath g =>
          rw [owned g path, if_neg (not_not.mpr rfl)]
          exact ⟨conn.blocks, rfl, fun _ _ => rfl⟩
      | block b =>
          rw [if_pos (fun same => by cases same)]
          refine ⟨_, rfl, fun b' different => Cells.get_free_ne fun same => different ?_⟩
          rw [same]

theorem accept_eq {path : PathPtr} (from' : conn.get fid = some source)
    (target : conn.get newfid = some r) (owned : ∀ g, r.path = some (.cpath g) → g = newfid) :
    ∃ blocks, conn.accept fid newfid path wqids = some (({ conn with blocks } : Conn).modify newfid
        fun record => { record with
          path := some path, type := wqids.getLast?.elim source.type (·.type) }) ∧
      ∀ b, r.path ≠ some (.block b) → blocks.get b = conn.blocks.get b := by
  obtain ⟨blocks, released, same⟩ := @release_eq conn newfid r owned
  refine ⟨blocks, ?_, same⟩
  rw [accept, from', target]
  simp only [Option.bind_eq_bind, Option.bind_some, released]
  rfl

/-- The new fid of a walk has the path of the walk. -/
theorem accept_spec (from' : conn.get fid = some source) (target : conn.get newfid = some r)
    (ok : r.Ok newfid) (numbered : r.fid.toNat = newfid.number)
    (allocated : ∀ b, r.path = some (.block b) → conn.blocks.get b ≠ none)
    (size : slen < 256 → bytes.length = 256) :
    ∃ conn' r', (conn.stored newfid slen junk bytes).accept fid newfid
        (conn.allocPath newfid slen junk).path wqids = some conn' ∧
      conn.Changed newfid r' conn' ∧ r'.Ok newfid ∧ r'.fid = r.fid ∧
      conn'.text r' = cut bytes := by
  by_cases long : slen ≥ 256
  · obtain ⟨blocks, is, here, -⟩ := @stored_block conn newfid slen junk bytes long
    have target' : ({ conn with blocks } : Conn).get newfid = some r := target
    obtain ⟨blocks', accepted, same⟩ := @accept_eq ({ conn with blocks } : Conn) fid newfid r source
      wqids (.block conn.blocks.next) from' target' ok.own
    have other : r.path ≠ some (.block conn.blocks.next) := fun is =>
      allocated _ is Cells.get_next
    have target'' : ({ conn with blocks := blocks' } : Conn).get newfid = some r := target
    have changed := ((Changed.refl target).blocks blocks').trans (@changed_modify _ _ _
      (fun record => { record with
        path := some (.block conn.blocks.next), type := wqids.getLast?.elim source.type (·.type) })
      target'' fun _ _ => rfl)
    refine ⟨_, _, ?_, changed, ⟨.inl numbered, ok.size, fun g is => by cases is⟩, rfl, ?_⟩
    · rw [is, allocPath_block long]
      exact accepted
    · have stays : blocks'.get conn.blocks.next = some bytes := (same _ other).trans here
      rw [text]
      simp only [Option.bind_eq_bind, Option.bind_some, memoryOf, blocks_modify, stays]
  · have changed := @changed_modify conn newfid r (fun record => { record with cpath := bytes })
      target fun _ _ => rfl
    obtain ⟨source', found⟩ : ∃ source',
        (conn.modify newfid fun record => { record with cpath := bytes }).get fid =
          some source' := by
      by_cases same : fid = newfid
      · rw [same]
        exact ⟨_, changed.here⟩
      · exact ⟨_, (changed.other fid same).trans from'⟩
    obtain ⟨blocks', accepted, -⟩ := @accept_eq _ fid newfid _ _ wqids (.cpath newfid) found
      changed.here ok.own
    have here : ({ (conn.modify newfid fun record => { record with cpath := bytes }) with
        blocks := blocks' } : Conn).get newfid = some { r with cpath := bytes } := changed.here
    have changed' := (changed.blocks blocks').trans (@changed_modify _ _ _
      (fun record => { record with
        path := some (.cpath newfid), type := wqids.getLast?.elim source'.type (·.type) })
      here fun _ _ => rfl)
    refine ⟨_, _, ?_, changed', ⟨.inl numbered, size (by omega), fun g is => ?_⟩, rfl, rfl⟩
    · rw [stored_inline long, allocPath_inline long]
      exact accepted
    · cases is
      rfl

end Conn

/-! ## The whole walk -/

section Walk

variable {conn conn₀ : Conn} {fid newfid : Place} {r : Fid} {body : Body}
  {statqid : ℕ → Option Qid} {junk : ℕ → UInt8} {text : List UInt8} {type : UInt8}

theorem put_start {mem bytes : List UInt8} (room : bytes.length ≤ mem.length) :
    put mem 0 bytes = some (bytes ++ mem.drop bytes.length) := by
  have length : (mem.take bytes.length).length = bytes.length := List.length_take_of_le room
  have put' := @put_append [] _ bytes (mem.drop bytes.length) length
  rwa [List.nil_append, List.take_append_drop] at put'

/-- A walk comes to its end if the first loop does, and the second one visits only names that were
taken. -/
theorem walkTo_cases (target : conn.get newfid = some r) (size : r.cpath.length = 256)
    (source : conn.pathOf fid = some text) :
    (conn.walkTo fid newfid body statqid junk = none ∧
      (¬ (body.nwname ≤ Maxwelem ∧ body.Counted body.nwname 10) ∨
        visited statqid 0 (body.taken body.nwname 10) = none)) ∨
    ∃ names slen rest, body.nwname ≤ Maxwelem ∧ body.Counted body.nwname 10 ∧
      visited statqid 0 (body.taken body.nwname 10) = some names ∧
      (slen < 256 → (text ++ joined names ++ 0 :: rest).length = 256) ∧
      conn.walkTo fid newfid body statqid junk =
        if body.nwname ≠ 0 ∧ leading statqid body.nwname 0 = [] then
          ((conn.stored newfid slen junk (text ++ joined names ++ 0 :: rest)).refuse fid newfid
            (conn.allocPath newfid slen junk).path text.length
              (text ++ joined names ++ 0 :: rest)).map (.ruerror ENOENT, ·)
        else
          ((conn.stored newfid slen junk (text ++ joined names ++ 0 :: rest)).accept fid newfid
            (conn.allocPath newfid slen junk).path (leading statqid body.nwname 0)).map
              (.rwalk (leading statqid body.nwname 0), ·) := by
  cases loop : getNames body body.nwname 0 10 0 body.mem with
  | none =>
      refine .inl ⟨?_, .inl fun both => ?_⟩
      · rw [Conn.walkTo, loop]
        rfl
      · obtain ⟨got, is, -⟩ := @Body.getNames_spec body body.nwname 0 10 0 body.mem (fun _ _ => rfl)
          le_rfl (by omega) both.2
        rw [loop] at is
        cases is
  | some got =>
      obtain ⟨few, counted⟩ := Body.counted_of_getNames (fun _ _ => rfl) le_rfl (Nat.zero_le _) loop
      rw [Nat.zero_add] at few
      obtain ⟨got', is, stands, slen, -⟩ := @Body.getNames_spec body body.nwname 0 10 0 body.mem
        (fun _ _ => rfl) le_rfl (by omega) counted
      obtain rfl := Option.some.inj (loop.symm.trans is)
      rw [Nat.zero_add] at slen
      obtain ⟨mem, here, room, whole⟩ := @Conn.allocPath_memory conn newfid r
        (got.slen + (text.length + 1)) junk target size
      have start : put mem 0 (text ++ [0]) = some (text ++ 0 :: mem.drop (text.length + 1)) := by
        rw [put_start (by rw [List.length_append, List.length_singleton]; omega)]
        simp
      have rest : (mem.drop (text.length + 1)).length = mem.length - (text.length + 1) :=
        List.length_drop
      have walked := @walkNames_spec statqid got.mem 0 got.names (body.taken body.nwname 10) text
        (mem.drop (text.length + 1)) stands (by omega)
      rcases walked with ⟨stuck, fails⟩ | ⟨names, rest', visits, walks, lengths⟩
      · refine .inl ⟨?_, .inr stuck⟩
        rw [Conn.walkTo, loop, source]
        simp only [Option.bind_eq_bind, Option.bind_some, here, start, fails, Option.bind_none]
      · rw [Body.length_taken] at walks
        refine .inr ⟨names, got.slen + (text.length + 1), rest', few, counted, visits, ?_, ?_⟩
        · intro short
          have length := whole short
          simp only [List.length_append, List.length_cons]
          omega
        · rw [Conn.walkTo, loop, source]
          simp only [Option.bind_eq_bind, Option.bind_some, here, start, walks]
          rfl

theorem leading_eq_nil {count : ℕ} (some : count ≠ 0) :
    leading statqid count 0 = [] ↔ statqid 0 = none := by
  obtain ⟨count, rfl⟩ := Nat.exists_eq_succ_of_ne_zero some
  cases found : statqid 0 <;> simp [leading, found]

theorem Body.taken_pos (some : body.nwname ≠ 0) : ∃ more,
    body.taken body.nwname 10 = body.nameAt 10 :: more := by
  obtain ⟨count, is⟩ := Nat.exists_eq_succ_of_ne_zero some
  rw [is]
  exact ⟨_, rfl⟩

theorem Body.Missing.visited (missing : body.Missing statqid) :
    visited statqid 0 (body.taken body.nwname 10) ≠ none := by
  obtain ⟨more, is⟩ := Body.taken_pos missing.some
  obtain ⟨name, first⟩ := Option.ne_none_iff_exists'.mp missing.first
  simp [is, first, FusFids.visited, missing.missing]

theorem Body.Complete.visited (complete : body.Complete statqid) :
    visited statqid 0 (body.taken body.nwname 10) ≠ none := by
  obtain ⟨names, fit, -⟩ := complete
  obtain ⟨k, visits, -⟩ := @visited_map_some statqid names 0
  rw [(Body.taken_of_bodyNames fit).1, visits]
  exact Option.some_ne_none _

theorem Body.Complete.counted (complete : body.Complete statqid) :
    body.Counted body.nwname 10 := by
  obtain ⟨names, fit, -⟩ := complete
  exact (Body.taken_of_bodyNames fit).2

/-- The names behind the path are those that were found only if the walk is complete. -/
theorem takeWhile_complete_iff {names names' : List (List UInt8)}
    (fit : bodyNames body body.nwname 10 = some names')
    (visits : visited statqid 0 (body.taken body.nwname 10) = some names) :
    (joined names).takeWhile (· ≠ 0) =
        joined (names'.take (leading statqid body.nwname 0).length) ↔ body.Complete statqid := by
  obtain ⟨taken, -⟩ := Body.taken_of_bodyNames fit
  have length : names'.length = body.nwname := by
    rw [← @Body.length_taken body body.nwname 10, taken, List.length_map]
  obtain ⟨k, visits', count⟩ := @visited_map_some statqid names' 0
  rw [taken, visits'] at visits
  obtain rfl := Option.some.inj visits
  rw [length] at count
  rw [takeWhile_joined (by omega) (by omega), length, length_leading]
  constructor
  · rintro ⟨found, plain⟩
    exact ⟨names', fit, fun i below => by simpa using found i below, plain⟩
  · rintro ⟨names, fit', found, plain⟩
    obtain rfl := Option.some.inj (fit.symm.trans fit')
    exact ⟨fun i below => by simpa using found i below, plain⟩

/-- A walk from a path to a fid is answered as it should be exactly if its first name is not found,
or it is complete and the new fid is found afterwards. -/
theorem walkTo_right_iff (target : conn.get newfid = some r) (size : r.cpath.length = 256)
    (source : conn.pathOf fid = some text) (plain : 0 ∉ text)
    (viewed : conn₀.view body.fid = some (text, type))
    (refused : ∀ slen b rest, (slen < 256 → (text ++ b :: rest).length = 256) → ∃ conn',
      (conn.stored newfid slen junk (text ++ b :: rest)).refuse fid newfid
        (conn.allocPath newfid slen junk).path text.length (text ++ b :: rest) = some conn' ∧
      (∀ n, conn'.view n = conn₀.view n) ∧
      ((fidget conn' body.newfid = some none ↔ fidget conn₀ body.newfid = some none) ↔
        ¬ (body.newfid = noFid ∧ fidget conn₀ noFid = some none)))
    (accepted : ∀ slen bytes wqids, (slen < 256 → bytes.length = 256) → ∃ conn' type',
      (conn.stored newfid slen junk bytes).accept fid newfid
        (conn.allocPath newfid slen junk).path wqids = some conn' ∧
      conn'.view body.newfid = if body.newfid = body.fid ∨ body.newfid < Fidtblsz then
        (cut bytes).map (·, type') else none) :
    (∃ reply conn', conn.walkTo fid newfid body statqid junk = some (reply, conn') ∧
      reply.Right conn₀ body statqid conn') ↔
    body.nwname ≤ Maxwelem ∧
      (body.Missing statqid ∧ ¬ (body.newfid = noFid ∧ fidget conn₀ noFid = some none) ∨
        body.Complete statqid ∧ (body.newfid = body.fid ∨ body.newfid < Fidtblsz)) := by
  rcases @walkTo_cases conn fid newfid r body statqid junk text target size source with
    ⟨fails, why⟩ | ⟨names, slen, rest, few, counted, visits, whole, is⟩
  · refine iff_of_false ?_ ?_
    · rintro ⟨reply, conn', walks, -⟩
      rw [fails] at walks
      cases walks
    · rintro ⟨few, missing | complete⟩
      · exact why.elim (fun not => not ⟨few, missing.1.counted⟩) missing.1.visited
      · exact why.elim (fun not => not ⟨few, complete.1.counted⟩) complete.1.visited
  · rw [and_iff_right few, is]
    by_cases none : body.nwname ≠ 0 ∧ leading statqid body.nwname 0 = []
    · have missing' := (leading_eq_nil none.1).mp none.2
      have missing : body.Missing statqid := by
        refine ⟨none.1, counted, fun first => ?_, missing'⟩
        obtain ⟨more, taken⟩ := Body.taken_pos none.1
        rw [taken, first] at visits
        cases visits
      have incomplete : ¬ body.Complete statqid := by
        rintro ⟨-, -, found, -⟩
        exact found 0 (Nat.pos_of_ne_zero none.1) missing'
      obtain ⟨b, rest', shape⟩ : ∃ b rest', joined names ++ 0 :: rest = b :: rest' :=
        List.exists_cons_of_ne_nil (by simp)
      rw [List.append_assoc, shape] at whole
      rw [List.append_assoc, shape, if_pos none]
      obtain ⟨conn', refuses, kept, presence⟩ := refused slen b rest' whole
      rw [refuses, Option.map_some, and_iff_right missing,
        or_iff_left (fun both => incomplete both.1), ← presence]
      constructor
      · rintro ⟨reply, conn'', walks, right⟩
        cases walks
        exact right.2
      · intro same
        exact ⟨_, _, rfl, kept, same⟩
    · have present : ¬ body.Missing statqid := fun missing =>
        none ⟨missing.some, (leading_eq_nil missing.some).mpr missing.missing⟩
      obtain ⟨conn', type', accepts, view⟩ := accepted slen _ (leading statqid body.nwname 0) whole
      rw [cut_terminated, takeWhile_append plain] at view
      rw [if_neg none, accepts, Option.map_some, or_iff_right (fun both => present both.1)]
      constructor
      · rintro ⟨reply, conn'', walks, right⟩
        cases walks
        obtain ⟨-, names', path, type₀, type₁, fit, -, viewed', view'⟩ := right
        obtain ⟨rfl, rfl⟩ := Prod.mk.inj (Option.some.inj (viewed.symm.trans viewed'))
        rw [view'] at view
        split_ifs at view with found
        refine ⟨(takeWhile_complete_iff fit visits).mp ?_, found⟩
        have same := (Prod.mk.inj (Option.some.inj view)).1
        exact (List.append_cancel_left same).symm
      · rintro ⟨complete, found⟩
        obtain ⟨names', fit, all⟩ := id complete
        rw [if_pos found, (takeWhile_complete_iff fit visits).mpr complete] at view
        exact ⟨_, _, rfl, few, names', text, type, type', fit, rfl, viewed, view⟩

end Walk

/-! ## The two fids -/

section Fids

variable {conn conn₀ : Conn} {fid newfid : Place} {r : Fid} {body : Body}
  {statqid : ℕ → Option Qid} {junk : ℕ → UInt8} {text : List UInt8} {type : UInt8}

/-- A walk in place. -/
theorem walkTo_same (ready : conn.Ready) (same : body.newfid = body.fid)
    (found : fidget conn body.fid = some (some fid)) (path : conn.pathOf fid = some text) :
    (∃ reply conn', conn.walkTo fid fid body statqid junk = some (reply, conn') ∧
      reply.Right conn body statqid conn') ↔
    body.nwname ≤ Maxwelem ∧
      (body.Missing statqid ∧ ¬ (body.newfid = noFid ∧ fidget conn noFid = some none) ∨
        body.Complete statqid ∧ (body.newfid = body.fid ∨ body.newfid < Fidtblsz)) := by
  obtain ⟨small, rfl, number, is⟩ := ready.source found path
  have plain := Conn.not_mem_text is
  have target : conn.get (.table body.fid.toNat) = some (conn.fidtbl body.fid.toNat) := rfl
  have ok := ready.ok _ _ target
  have used := ne_noFid small
  have allocated : ∀ b, (conn.fidtbl body.fid.toNat).path = some (.block b) →
      conn.blocks.get b ≠ none := by
    intro b owns none
    rw [Conn.text, owns] at is
    simp [Conn.memoryOf, none] at is
  refine walkTo_right_iff target ok.size path plain (ready.view_source small is) ?_ ?_
  · intro slen b rest size
    obtain ⟨conn', r', refuses, changed, ok', fid', text', type', blocks⟩ :=
      @Conn.refuse_same conn _ _ slen junk text rest b target ok is plain size
    refine ⟨conn', refuses, changed.view_eq ready ok' target blocks ?_, ?_⟩
    · rw [text', is, type']
    · rw [same, fidget_none_iff small changed.here, fidget_none_iff small target, fid', number]
      exact iff_of_true Iff.rfl fun both => used both.1
  · intro slen bytes wqids size
    obtain ⟨conn', r', accepts, changed, ok', -, text'⟩ :=
      @Conn.accept_spec conn _ _ _ _ slen junk bytes wqids target target ok
        (congrArg UInt32.toNat number) allocated size
    refine ⟨conn', r'.type, accepts, ?_⟩
    rw [if_pos (.inl same), same, (ready.changed changed ok').view_here small changed.here, text']

/-- A walk to a fid that has been created for it. -/
theorem walkTo_other (ready : conn.Ready) (different : body.newfid ≠ body.fid)
    (other : newfid ≠ fid) (target : conn.get newfid = some r)
    (number : r.fid.toNat = newfid.number) (tiny : r.fid < Fidtblsz) (pathless : r.path = none)
    (linked : ∀ p, newfid = .heap p → r.next = none) {source : Fid}
    (from' : conn.get fid = some source) (path : conn.pathOf fid = some text) (plain : 0 ∉ text)
    (viewed : conn₀.view body.fid = some (text, type)) (same : ∀ n, conn.view n = conn₀.view n)
    (presence : ∀ conn', conn.Changed newfid Fid.dead conn' →
      ((fidget conn' body.newfid = some none ↔ fidget conn₀ body.newfid = some none) ↔
        ¬ (body.newfid = noFid ∧ fidget conn₀ noFid = some none)))
    (place : body.newfid < Fidtblsz → newfid = .table body.newfid.toNat) :
    (∃ reply conn', conn.walkTo fid newfid body statqid junk = some (reply, conn') ∧
      reply.Right conn₀ body statqid conn') ↔
    body.nwname ≤ Maxwelem ∧
      (body.Missing statqid ∧ ¬ (body.newfid = noFid ∧ fidget conn₀ noFid = some none) ∨
        body.Complete statqid ∧ (body.newfid = body.fid ∨ body.newfid < Fidtblsz)) := by
  have ok := ready.ok _ _ target
  refine walkTo_right_iff target ok.size path plain viewed ?_ ?_
  · intro slen b rest size
    obtain ⟨conn', refuses, changed, blocks⟩ := @Conn.refuse_other conn fid newfid r slen
      text.length junk (text ++ b :: rest) other target tiny linked
    refine ⟨conn', refuses, fun n => ?_, presence conn' changed⟩
    rw [changed.view_eq ready Fid.ok_dead target blocks ?_, same]
    rw [Conn.text_none pathless, Conn.text_none rfl]
    rfl
  · intro slen bytes wqids size
    obtain ⟨conn', r', accepts, changed, ok', -, text'⟩ :=
      @Conn.accept_spec conn _ _ _ _ slen junk bytes wqids from' target ok number
        (fun b owns => by rw [pathless] at owns; cases owns) size
    refine ⟨conn', r'.type, accepts, ?_⟩
    have ready' := ready.changed changed ok'
    by_cases small : body.newfid < Fidtblsz
    · have here := changed.here
      rw [place small] at here
      rw [if_pos (.inr small), ready'.view_here small here, text']
    · rw [if_neg (fun found => found.elim different small), ready'.view_large small]

/-- In the array. -/
theorem walkFrom_small (ready : conn.Ready) (different : body.newfid ≠ body.fid)
    (found : fidget conn body.fid = some (some fid)) (path : conn.pathOf fid = some text)
    (small : body.newfid < Fidtblsz)
    (free : (conn.fidtbl body.newfid.toNat).fid = noFid) :
    (∃ reply conn', (conn.modify (.table body.newfid.toNat) fun f =>
        { f with fid := body.newfid }).walkTo fid (.table body.newfid.toNat) body statqid junk =
          some (reply, conn') ∧ reply.Right conn body statqid conn') ↔
    body.nwname ≤ Maxwelem ∧
      (body.Missing statqid ∧ ¬ (body.newfid = noFid ∧ fidget conn noFid = some none) ∨
        body.Complete statqid ∧ (body.newfid = body.fid ∨ body.newfid < Fidtblsz)) := by
  obtain ⟨small', rfl, number, is⟩ := ready.source found path
  have plain := Conn.not_mem_text is
  have target : conn.get (.table body.newfid.toNat) =
    some (conn.fidtbl body.newfid.toNat) := rfl
  obtain ⟨pathless, ok', changed⟩ := ready.numbered small free
  have ready' := ready.changed changed ok'
  have other : Place.table body.newfid.toNat ≠ .table body.fid.toNat := fun same =>
    different (UInt32.toNat_inj.mp (Place.table.inj same))
  have source := (changed.other _ other.symm).trans rfl
  have blocks : ∀ b, (conn.modify (.table body.newfid.toNat) fun f =>
      { f with fid := body.newfid }).blocks.get b = conn.blocks.get b := fun _ => rfl
  refine walkTo_other ready' different other changed.here rfl small pathless
    (fun _ same => by cases same) source ?_ plain
    (ready.view_source small' is) (changed.view_eq ready ok' target blocks ?_) ?_ fun _ => rfl
  · rw [Conn.pathOf_eq (ready'.ok _ _ source) source, Conn.text_congr blocks, is]
  · rw [Conn.text_none pathless, Conn.text_none (by exact pathless)]
  · intro conn' dead
    rw [fidget_none_iff small dead.here, fidget_none_iff small target]
    exact iff_of_true (iff_of_true rfl free) fun both => ne_noFid small both.1

theorem walkFrom_large (ready : conn.Ready) (different : body.newfid ≠ body.fid)
    (found : fidget conn body.fid = some (some fid)) (path : conn.pathOf fid = some text)
    (large : ¬ body.newfid < Fidtblsz) : ∃ newfid conn',
    fidcreate conn body.newfid = some (some newfid, conn') ∧
    ((∃ reply conn'', conn'.walkTo fid newfid body statqid junk = some (reply, conn'') ∧
      reply.Right conn body statqid conn'') ↔
    body.nwname ≤ Maxwelem ∧
      (body.Missing statqid ∧ ¬ (body.newfid = noFid ∧ fidget conn noFid = some none) ∨
        body.Complete statqid ∧ (body.newfid = body.fid ∨ body.newfid < Fidtblsz))) := by
  obtain ⟨small, rfl, number, is⟩ := ready.source found path
  obtain ⟨conn', r, created, ready', fidtbl, blocks, here, pathless, zero, last, chain, chained,
    inside, member⟩ := fidcreate_chain ready large
  have source : conn'.get (.table body.fid.toNat) = some (conn.fidtbl body.fid.toNat) := by
    rw [Conn.get, fidtbl]
  have same : ∀ r, conn'.text r = conn.text r := fun r => Conn.text_congr fun b => by rw [blocks]
  refine ⟨_, conn', created, walkTo_other ready' different (fun same => by cases same) here ?_ ?_
    pathless (fun p _ => last) source ?_ (Conn.not_mem_text is) (ready.view_source small is)
    (fun n => ?_) (fun conn'' dead => ?_) fun small => absurd small large⟩
  · rw [zero]
    rfl
  · rw [zero]
    decide
  · rw [Conn.pathOf_eq (ready'.ok _ _ source) source, same, is]
  · by_cases small : n < Fidtblsz
    · rw [ready.view_small small, ready'.view_small small, fidtbl, same]
    · rw [ready.view_large small, ready'.view_large small]
  · by_cases unused : body.newfid = noFid
    · have gone : fidget conn'' body.newfid ≠ some none := by
        have inside' : ∀ p ∈ chain, p < conn''.fids.next := by
          rw [dead.fresh]
          exact inside
        have chained' :
            LinkedChain.Path conn''.next (conn''.fidhtbl (hashOf body.newfid)) chain := by
          rw [dead.next, dead.fidhtbl]
          exact chained
        have here' : conn''.fids.get conn.fids.next = some Fid.dead := dead.here
        rw [Conn.fidget_large large chained' inside']
        intro none
        have absent := List.find?_eq_none.mp (Option.map_eq_none_iff.mp (Option.some.inj none))
          conn.fids.next member
        rw [here', unused] at absent
        exact absent rfl
      rw [← unused, iff_false_left gone]
      simp
    · have absent : ∀ conn : Conn, conn.Ready → fidget conn body.newfid = some none := by
        intro conn ready
        obtain ⟨found, is, other⟩ := ready.large large
        cases found with
        | none => exact is
        | some f => exact absurd (other f rfl).1 unused
      exact iff_of_true (iff_of_true (absent conn'' (ready'.changed dead Fid.ok_dead))
        (absent conn ready)) fun both => unused both.1

end Fids

/-! ## The next walk -/

section Ready

variable {conn conn' : Conn} {fid newfid : Place} {r source : Fid} {body : Body}
  {statqid : ℕ → Option Qid} {junk : ℕ → UInt8} {text : List UInt8} {reply : Reply}

/-- What is left when a walk has come to its end. -/
theorem walkTo_ready (ready : conn.Ready) (from' : conn.get fid = some source)
    (path : conn.pathOf fid = some text) (target : conn.get newfid = some r)
    (number : r.fid.toNat = newfid.number) (tiny : r.fid < Fidtblsz)
    (fresh : newfid ≠ fid → r.path = none) (linked : ∀ p, newfid = .heap p → r.next = none)
    (walked : conn.walkTo fid newfid body statqid junk = some (reply, conn')) : conn'.Ready := by
  have ok := ready.ok _ _ target
  have is : conn.text source = some text := by rwa [← Conn.pathOf_eq (ready.ok _ _ from') from']
  have allocated : ∀ b, r.path = some (.block b) → conn.blocks.get b ≠ none := by
    intro b owns none
    by_cases same : newfid = fid
    · subst same
      obtain rfl := Option.some.inj (target.symm.trans from')
      rw [Conn.text, owns] at is
      simp [Conn.memoryOf, none] at is
    · rw [fresh same] at owns
      cases owns
  rcases @walkTo_cases conn fid newfid r body statqid junk text target ok.size path with
    ⟨fails, -⟩ | ⟨names, slen, rest, -, -, -, whole, is'⟩
  · rw [fails] at walked
    cases walked
  · rw [is'] at walked
    split_ifs at walked with none
    · obtain ⟨left, refuses, same⟩ := Option.map_eq_some_iff.mp walked
      obtain rfl := (Prod.mk.inj same).2
      by_cases place : newfid = fid
      · subst place
        obtain rfl := Option.some.inj (target.symm.trans from')
        obtain ⟨b, rest', shape⟩ : ∃ b rest', joined names ++ 0 :: rest = b :: rest' :=
          List.exists_cons_of_ne_nil (by simp)
        rw [List.append_assoc, shape] at whole refuses
        obtain ⟨conn'', r', refuses', changed, ok', -⟩ := @Conn.refuse_same conn _ _ slen junk text
          rest' b target ok is (Conn.not_mem_text is) whole
        obtain rfl := Option.some.inj (refuses'.symm.trans refuses)
        exact ready.changed changed ok'
      · obtain ⟨conn'', refuses', changed, -⟩ := @Conn.refuse_other conn fid newfid r slen
          text.length junk _ place target tiny linked
        obtain rfl := Option.some.inj (refuses'.symm.trans refuses)
        exact ready.changed changed Fid.ok_dead
    · obtain ⟨left, accepts, same⟩ := Option.map_eq_some_iff.mp walked
      obtain rfl := (Prod.mk.inj same).2
      obtain ⟨conn'', r', accepts', changed, ok', -⟩ := @Conn.accept_spec conn fid newfid r source
        slen junk _ _ from' target ok number allocated whole
      obtain rfl := Option.some.inj (accepts'.symm.trans accepts)
      exact ready.changed changed ok'

/-- A walk leaves a connection that is ready for the next one. -/
theorem Conn.Ready.p9walk (ready : conn.Ready)
    (path : ∀ fid, fidget conn body.fid = some (some fid) → conn.pathOf fid ≠ none)
    (walked : FusFids.p9walk conn body statqid junk = some (reply, conn')) : conn'.Ready := by
  rw [FusFids.p9walk] at walked
  split_ifs at walked with short
  · obtain rfl := (Prod.mk.inj (Option.some.inj walked)).2
    exact ready
  · obtain ⟨found, is, walked⟩ := Option.bind_eq_some_iff.mp walked
    cases found with
    | none =>
        obtain rfl := (Prod.mk.inj (Option.some.inj walked)).2
        exact ready
    | some fid =>
        obtain ⟨text, path⟩ := Option.ne_none_iff_exists'.mp (path fid is)
        obtain ⟨small, place, number, -⟩ := ready.source is path
        have here : conn.get fid = some (conn.fidtbl body.fid.toNat) := by
          rw [place]
          rfl
        have number' : (conn.fidtbl body.fid.toNat).fid.toNat = fid.number := by
          rw [place, number]
          rfl
        obtain ⟨record, here', walked⟩ := Option.bind_eq_some_iff.mp walked
        obtain rfl := Option.some.inj (here.symm.trans here')
        split_ifs at walked with different
        · obtain ⟨made, created, walked⟩ := Option.bind_eq_some_iff.mp walked
          obtain ⟨newfid, conn''⟩ := made
          cases newfid with
          | none =>
              obtain rfl := (Prod.mk.inj (Option.some.inj walked)).2
              rw [ready.fidcreate_none created]
              exact ready
          | some newfid =>
              obtain ⟨ready', blocks, kept, r, target, new, tiny, pathless, linked⟩ :=
                ready.fidcreate created
              obtain ⟨-, same⟩ := kept body.fid.toNat (number.symm ▸ ne_noFid small)
              have from' : conn''.get fid = some (conn.fidtbl body.fid.toNat) := by
                rw [place, Conn.get, same]
              have path' : conn''.pathOf fid = some text := by
                rw [Conn.pathOf_eq (ready'.ok _ _ from') from',
                  @Conn.text_congr conn conn'' _ fun b => by rw [blocks],
                  ← Conn.pathOf_eq (ready.ok _ _ here) here, path]
              exact walkTo_ready ready' from' path' target new tiny (fun _ => pathless) linked
                walked
        · have tiny : (conn.fidtbl body.fid.toNat).fid < Fidtblsz := number.symm ▸ small
          refine walkTo_ready ready here path here number' tiny (fun other => absurd rfl other) ?_
            walked
          rw [place]
          exact fun _ same => by cases same

end Ready

/-! ## A connection and two walks -/

/-- A connection with one fid, for the root. -/
def rooted : Conn := conncreate.modify (.table 0) fun record =>
  { record with
    fid := 0, path := some (.cpath (.table 0)), cpath := slash :: List.replicate 255 0,
    type := 0x80 }

theorem ready_rooted : rooted.Ready := by
  have changed := @Conn.changed_modify conncreate (.table 0) Fid.dead (fun record =>
    { record with
      fid := 0, path := some (.cpath (.table 0)), cpath := slash :: List.replicate 255 0,
      type := 0x80 }) rfl fun _ _ => rfl
  refine ready_conncreate.changed changed ⟨.inl rfl, ?_, fun g is => ?_⟩
  · rw [List.length_cons, List.length_replicate]
  · cases is
    rfl

/-- The body of a message. -/
def bodyOf (bytes : List UInt8) (short : bytes.length < 2 ^ 16) : Body where
  mem k := bytes.getD k 0
  room := bytes.length + 30
  size := bytes.length
  inside := le_rfl
  small := by omega

/-- From fid 0 to fid 1 by `a`. -/
def walkA : Body := bodyOf [0, 0, 0, 0, 1, 0, 0, 0, 1, 0, 1, 0, 97] (by decide)

/-- From fid 0 to fid 1 by `a` and `b`. -/
def walkAB : Body := bodyOf [0, 0, 0, 0, 1, 0, 0, 0, 2, 0, 1, 0, 97, 1, 0, 98] (by decide)

theorem fidget_rooted : fidget rooted 0 = some (some (.table 0)) := by decide +kernel

theorem pathOf_rooted : rooted.pathOf (.table 0) = some [slash] := by decide +kernel

/-! ## The theorem -/

section

variable {conn : Conn} {body : Body} {statqid : ℕ → Option Qid} {junk : ℕ → UInt8}

/-- `p9walk` behind the lookup of the fid. -/
theorem walkFrom_right_iff {fid : Place} {text : List UInt8} (ready : conn.Ready)
    (found : fidget conn body.fid = some (some fid)) (path : conn.pathOf fid = some text) :
    (∃ reply conn', conn.walkFrom fid body statqid junk = some (reply, conn') ∧
      reply.Right conn body statqid conn') ↔
    (body.newfid ≠ body.fid ∧ body.newfid < Fidtblsz ∧ fidget conn body.newfid ≠ some none) ∨
    (body.nwname ≤ Maxwelem ∧
      (body.Missing statqid ∧ ¬ (body.newfid = noFid ∧ fidget conn noFid = some none) ∨
        body.Complete statqid ∧ (body.newfid = body.fid ∨ body.newfid < Fidtblsz))) := by
  obtain ⟨small, place, number, -⟩ := ready.source found path
  have here : conn.get fid = some (conn.fidtbl body.fid.toNat) := by
    rw [place]
    rfl
  rw [Conn.walkFrom, here]
  simp only [Option.bind_eq_bind, Option.bind_some, number]
  by_cases same : body.newfid = body.fid
  · rw [if_neg (not_not.mpr same), or_iff_right fun both => both.1 same]
    exact walkTo_same ready same found path
  · rw [if_pos same]
    by_cases small' : body.newfid < Fidtblsz
    · rw [fidcreate_small small']
      by_cases free : (conn.fidtbl body.newfid.toNat).fid = noFid
      · have unused : fidget conn body.newfid = some none := by
          rw [fidget_small small', if_pos free]
        rw [if_neg (not_not.mpr free), or_iff_right fun both => both.2.2 unused]
        exact walkFrom_small ready same found path small' free
      · rw [if_pos free]
        refine iff_of_true ⟨_, conn, rfl, fun _ => rfl, Iff.rfl⟩ (.inl ⟨same, small', ?_⟩)
        rw [fidget_small small', if_neg free]
        exact fun none => by cases none
    · obtain ⟨newfid, conn', created, iff⟩ :=
        @walkFrom_large conn fid body statqid junk text ready same found path small'
      rw [created, or_iff_right fun both => small' both.2.1, ← iff]
      rfl

/-- A walk is answered as it should be exactly if it is plain. -/
theorem walks_iff (ready : conn.Ready)
    (source : ∀ fid, fidget conn body.fid = some (some fid) → conn.pathOf fid ≠ none) :
    Walks conn body statqid junk ↔ Plain conn body statqid := by
  rw [Walks, p9walk, Plain]
  by_cases short : body.size < 10
  · rw [if_pos short]
    exact iff_of_true ⟨_, conn, rfl, fun _ => rfl, Iff.rfl⟩ (.inl short)
  · rw [if_neg short, or_iff_right short]
    obtain ⟨found, is⟩ := ready.fidget_some body.fid
    rw [is]
    simp only [Option.bind_eq_bind, Option.bind_some]
    cases found with
    | none => exact iff_of_true ⟨_, conn, rfl, fun _ => rfl, Iff.rfl⟩ (.inl rfl)
    | some fid =>
        obtain ⟨text, path⟩ := Option.ne_none_iff_exists'.mp (source fid is)
        rw [or_iff_right (fun none => by cases none)]
        exact walkFrom_right_iff ready is path

end

/-- A walk by one name. -/
theorem walks_iff_one : Walks rooted walkA (fun _ => some ⟨0, 0, 7⟩) fun _ => 0 := by
  refine (walks_iff ready_rooted fun fid found => ?_).mpr (.inr (.inr (.inr ⟨by decide +kernel, .inr
    ⟨⟨[[97]], by decide +kernel, fun _ _ => Option.some_ne_none _, by decide⟩,
      .inr (by decide +kernel)⟩⟩)))
  have root : fidget rooted walkA.fid = some (some (.table 0)) := fidget_rooted
  obtain rfl := Option.some.inj (Option.some.inj (root.symm.trans found))
  rw [pathOf_rooted]
  exact Option.some_ne_none _

/-- If the second name is not found it is in the path all the same. -/
theorem not_walks_all : ¬ ∀ conn body statqid junk, Conn.Ready conn →
    (∀ fid, fidget conn body.fid = some (some fid) → conn.pathOf fid ≠ none) →
    Walks conn body statqid junk := by
  intro all
  have root : fidget rooted walkAB.fid = some (some (.table 0)) := fidget_rooted
  have walks := all rooted walkAB (fun i => if i = 0 then some ⟨0, 0, 7⟩ else none) (fun _ => 0)
    ready_rooted fun fid found => by
      obtain rfl := Option.some.inj (Option.some.inj (root.symm.trans found))
      rw [pathOf_rooted]
      exact Option.some_ne_none _
  have long : ¬ walkAB.size < 10 := by decide +kernel
  rw [Walks, p9walk, if_neg long, root] at walks
  simp only [Option.bind_eq_bind, Option.bind_some] at walks
  rcases (walkFrom_right_iff ready_rooted root pathOf_rooted).mp walks with
    used | ⟨-, missing | both⟩
  · exact used.2.2 (by decide +kernel)
  · exact absurd missing.1.missing (by simp)
  · obtain ⟨names, -, found, -⟩ := both.1
    exact found 1 (by decide +kernel) rfl

end FusFids

end Npfs
