import Npfs.Fid
import Npfs.Transition

/-!
# Exclusive opens of the npfile layer

`npfile_open` and `npfile_create` set `file->excl` for a mode with `Oexcl`.  The requests of a
connection are followed from the test of `np_open` and its siblings through the places where
`libnpfs/file.c` holds no lock, in any interleaving.
-/

namespace Npfs

namespace ExclusiveOpen

/-- The mode has `Oexcl`. -/
def exclusive (mode : UInt8) : Bool := mode &&& Oexcl ≠ 0

/-- A `Npfilefid`, and whether `fid->omode` is another one than `Onotopen`. -/
structure Npfilefid where
  file : ℕ
  /-- `f->omode`, `none` for `~0`. -/
  omode : Option UInt8
  opened : Bool
  deriving DecidableEq

/-- The fid has its file open with `Oexcl`. -/
def Npfilefid.exclusive (f : Npfilefid) : Bool := f.omode.any ExclusiveOpen.exclusive

/-- A request that the server works on, behind the test of `fid->omode`. -/
inductive Work (Fid : Type) where
  /-- In `np_walk`, in front of the walk to the next one of so many names. -/
  | walk (fid : Fid) (names : ℕ)
  /-- In `npfile_open`, in front of the lock. -/
  | opens (fid : Fid) (mode : UInt8)
  /-- In `npfile_open`, behind the lock. -/
  | middle (fid : Fid) (file : ℕ) (mode : UInt8)
  /-- In `npfile_open`, at `done` without a reply. -/
  | failed (fid : Fid) (file : ℕ) (mode : UInt8)
  /-- In `npfile_create`, in front of `dops->create`. -/
  | create (fid : Fid) (mode : UInt8)
  /-- In `npfile_create`, behind the locks. -/
  | made (fid : Fid) (file : ℕ) (mode : UInt8)
  deriving DecidableEq

namespace Work

variable {Fid : Type}

/-- The fid of a request. -/
def fid : Work Fid → Fid
  | .walk fid _ | .opens fid _ | .middle fid _ _ | .failed fid _ _ | .create fid _
  | .made fid _ _ => fid

/-- The request begins here. -/
def begins : Work Fid → Bool
  | .walk .. | .opens .. | .create .. => true
  | _ => false

variable {work : List (Work Fid)} {w v : Work Fid} {i : ℕ}

/-- The requests that are left when one is answered. -/
theorem mem_eraseIdx (alone : (work.map Work.fid).Nodup) (found : work[i]? = some w) :
    v ∈ work.eraseIdx i ↔ v ∈ work ∧ v.fid ≠ w.fid := by
  obtain ⟨inside, rfl⟩ := List.getElem?_eq_some_iff.mp found
  have split : work = work.take i ++ work[i] :: work.drop (i + 1) := by simp
  rw [split, List.map_append, List.map_cons, List.nodup_middle, List.nodup_cons,
    ← List.map_append] at alone
  have apart (v : Work Fid) (member : v ∈ work.take i ++ work.drop (i + 1)) :
      v.fid ≠ work[i].fid := fun same => alone.1 (same ▸ List.mem_map_of_mem member)
  rw [List.eraseIdx_eq_take_drop_succ]
  constructor
  · intro member
    refine ⟨?_, apart v member⟩
    rcases List.mem_append.mp member with front | back
    · exact List.mem_of_mem_take front
    · exact List.mem_of_mem_drop back
  · rintro ⟨member, other⟩
    rw [split] at member
    rcases List.mem_append.mp member with front | back
    · exact List.mem_append_left _ front
    · rcases List.mem_cons.mp back with rfl | back
      · exact absurd rfl other
      · exact List.mem_append_right _ back

/-- The requests when one has gone on. -/
theorem mem_set (alone : (work.map Work.fid).Nodup) (found : work[i]? = some w) (next : Work Fid) :
    v ∈ work.set i next ↔ v = next ∨ v ∈ work ∧ v.fid ≠ w.fid := by
  have inside := (List.getElem?_eq_some_iff.mp found).1
  rw [← mem_eraseIdx alone found, List.eraseIdx_eq_take_drop_succ, List.set_eq_take_append_cons_drop,
    if_pos inside, List.mem_append, List.mem_cons, List.mem_append]
  tauto

theorem nodup_eraseIdx (alone : (work.map Work.fid).Nodup) :
    ((work.eraseIdx i).map Work.fid).Nodup :=
  alone.sublist ((List.eraseIdx_sublist work i).map _)

theorem nodup_set (alone : (work.map Work.fid).Nodup) (found : work[i]? = some w)
    {next : Work Fid} (same : next.fid = w.fid) : ((work.set i next).map Work.fid).Nodup := by
  obtain ⟨inside, rfl⟩ := List.getElem?_eq_some_iff.mp found
  have inside' : i < (work.map Work.fid).length := by simpa using inside
  have kept : (work.map Work.fid).set i (work.map Work.fid)[i] = work.map Work.fid :=
    List.set_getElem_self inside'
  rw [List.getElem_map] at kept
  rw [List.map_set, same, kept]
  exact alone

end Work

/-- The files of the server, the fids of its connections and the requests in progress. -/
structure Tree (Fid : Type) where
  /-- `file->excl`. -/
  excl : ℕ → Bool
  /-- The next file that `npfile_alloc` makes. -/
  next : ℕ
  fid : Fid → Option Npfilefid
  work : List (Work Fid)

/-- What decides about the next step of a request. -/
structure Outcome where
  /-- The tests are passed and the calls succeed. -/
  ok : Bool
  /-- The file that `npfile_find` returns. -/
  file : ℕ

/-- What happens next. -/
inductive Event (Fid : Type) where
  /-- `np_attach` or the clone of `np_walk`: a fid gets its `Npfilefid`. -/
  | attach (fid : Fid) (file : ℕ)
  | receive (w : Work Fid)
  /-- One of the requests goes on. -/
  | go (i : ℕ) (outcome : Outcome)
  /-- The last reference to a fid is given up, by a Tclunk, a Tremove or a disconnect:
  `npfile_fiddestroy`. -/
  | destroy (fid : Fid)

namespace Tree

variable {Fid : Type} [DecidableEq Fid] (s : Tree Fid)

/-- A server with one file. -/
def start : Tree Fid := ⟨fun _ => false, 1, fun _ => none, []⟩

/-- An assignment to a fid. -/
def modify (fid : Fid) (change : Npfilefid → Npfilefid) : Tree Fid :=
  { s with fid := Function.update s.fid fid ((s.fid fid).map change) }

/-- A request is answered. -/
def finish (i : ℕ) : Tree Fid := { s with work := s.work.eraseIdx i }

/-- A request goes on at another place. -/
def move (i : ℕ) (w : Work Fid) : Tree Fid := { s with work := s.work.set i w }

/-- An assignment to `file->excl`. -/
def setExcl (file : ℕ) (excl : Bool) : Tree Fid :=
  { s with excl := Function.update s.excl file excl }

/-- `np_open` stores the mode, whatever `npfile_open` has answered. -/
def store (fid : Fid) : Tree Fid := s.modify fid fun f => { f with opened := true }

/-- `npfile_open` up to the place where it gives up the lock. -/
def npfileOpen (i : ℕ) (fid : Fid) (mode : UInt8) (file : ℕ) (o : Outcome) : Tree Fid :=
  if !o.ok then (s.store fid).finish i
  else if exclusive mode then
    if s.excl file then (s.store fid).finish i
    else (s.setExcl file true).move i (.middle fid file mode)
  else s.move i (.middle fid file mode)

/-- The next step of a request. -/
def go (i : ℕ) (o : Outcome) : Work Fid → Option (Tree Fid)
  | .walk fid names =>
    match names with
    | 0 => some (s.finish i)
    | names + 1 =>
      if !o.ok then some (s.finish i)
      else if o.file < s.next then
        some ((s.modify fid fun f => { f with file := o.file }).move i (.walk fid names))
      else none
  | .opens fid mode => (s.fid fid).map fun f => s.npfileOpen i fid mode f.file o
  | .middle fid file mode =>
    if o.ok then
      some ((s.modify fid fun f => { f with omode := some mode, opened := true }).finish i)
    else if exclusive mode then some (s.move i (.failed fid file mode))
    else some ((s.store fid).finish i)
  | .failed fid file _ => some (((s.setExcl file true).store fid).finish i)
  | .create fid mode =>
    if o.ok then
      some ({ s.setExcl s.next false with next := s.next + 1 }.move i (.made fid s.next mode))
    else some (s.finish i)
  | .made fid file mode =>
    let s := s.modify fid fun f => ⟨file, some mode, f.opened || o.ok⟩
    some ((if exclusive mode then s.setExcl file true else s).finish i)

/-- One step; `none` when it cannot be taken. -/
def step : Event Fid → Option (Tree Fid)
  | .attach fid file =>
    if (s.fid fid).isNone ∧ file < s.next then
      some { s with fid := Function.update s.fid fid (some ⟨file, none, false⟩) }
    else none
  | .receive w =>
    if w.begins ∧ (s.fid w.fid).any (!·.opened) then some { s with work := s.work ++ [w] } else none
  | .go i o => s.work[i]?.bind (s.go i o)
  | .destroy fid =>
    if (s.fid fid).isSome ∧ ∀ w ∈ s.work, w.fid ≠ fid then
      some { s with fid := Function.update s.fid fid none }
    else none

/-- The fid has the file open with `Oexcl`, or an open of it with `Oexcl` has passed its test. -/
def Claims (fid : Fid) (file : ℕ) : Prop :=
  (∃ f, s.fid fid = some f ∧ f.file = file ∧ f.exclusive = true) ∨
    ∃ mode, .middle fid file mode ∈ s.work ∧ exclusive mode = true

/-- The flag is set exactly for the files that some fid has open with `Oexcl`, or is about to; and
there is one such fid. -/
structure Right : Prop where
  flag : ∀ file, s.excl file = true ↔ ∃ fid, s.Claims fid file
  one : ∀ file fid fid', s.Claims fid file → s.Claims fid' file → fid = fid'

/-- The request does not fail behind the flag, and no other one has got hold of a file that is
created. -/
def Succeeds (o : Outcome) : Work Fid → Prop
  | .middle _ _ mode => exclusive mode = true → o.ok = true
  | .made _ file mode => exclusive mode = true → o.ok = true ∧ s.excl file = false
  | _ => True

/-- The requests of a fid come one after another, an exclusive open or create that has come to the
flag succeeds, and no fid is destroyed that has its file open with `Oexcl`. -/
def Settled : Event Fid → Prop
  | .attach .. => True
  | .receive w => ∀ v ∈ s.work, v.fid ≠ w.fid
  | .go i o => ∀ w ∈ s.work[i]?, s.Succeeds o w
  | .destroy fid => ∀ f ∈ s.fid fid, f.exclusive = false

instance (o : Outcome) : DecidablePred (s.Succeeds o)
  | .middle _ _ mode => inferInstanceAs (Decidable (exclusive mode = true → o.ok = true))
  | .made _ file mode =>
    inferInstanceAs (Decidable (exclusive mode = true → o.ok = true ∧ s.excl file = false))
  | .walk .. | .opens .. | .failed .. | .create .. => inferInstanceAs (Decidable True)

instance : DecidablePred s.Settled
  | .attach .. => inferInstanceAs (Decidable True)
  | .receive w => inferInstanceAs (Decidable (∀ v ∈ s.work, v.fid ≠ w.fid))
  | .go i o => inferInstanceAs (Decidable (∀ w ∈ s.work[i]?, s.Succeeds o w))
  | .destroy fid => inferInstanceAs (Decidable (∀ f ∈ s.fid fid, f.exclusive = false))

/-! ## What stays true -/

/-- No two requests work on one fid; their fids are not open, and a fid that has its file open with
`Oexcl` is.  An open of which the flag is set works on the file of its fid. -/
structure Sound : Prop where
  right : s.Right
  alone : (s.work.map Work.fid).Nodup
  busy : ∀ w ∈ s.work, ∃ f, s.fid w.fid = some f ∧ f.opened = false
  opened : ∀ fid f, s.fid fid = some f → f.exclusive = true → f.opened = true
  file : ∀ fid file mode, .middle fid file mode ∈ s.work →
    (s.fid fid).map (·.file) = some file
  known : ∀ fid f, s.fid fid = some f → f.file < s.next
  made : ∀ fid file mode, .made fid file mode ∈ s.work → file < s.next
  succeeds : ∀ fid file mode, .failed fid file mode ∉ s.work

variable {s} {i : ℕ} {fid : Fid} {file : ℕ} {mode : UInt8} {w v : Work Fid} {f : Npfilefid}
  {o : Outcome} {s' : Tree Fid}

omit [DecidableEq Fid] in
/-- Nothing changes for who claims a file. -/
theorem Right.congr (right : s.Right) (excl : s'.excl = s.excl)
    (claims : ∀ p n, s'.Claims p n ↔ s.Claims p n) : s'.Right where
  flag n := by
    rw [excl, right.flag]
    exact exists_congr fun p => (claims p n).symm
  one n p p' first second :=
    right.one n p p' ((claims p n).mp first) ((claims p' n).mp second)

omit [DecidableEq Fid] in
/-- A file that nobody claims is claimed. -/
theorem Right.add (right : s.Right) (free : s.excl file = false)
    (excl : s'.excl = Function.update s.excl file true)
    (claims : ∀ p n, s'.Claims p n ↔ s.Claims p n ∨ p = fid ∧ n = file) : s'.Right := by
  have unclaimed (p : Fid) : ¬ s.Claims p file := by
    intro claimed
    rw [(right.flag file).mpr ⟨p, claimed⟩] at free
    cases free
  refine ⟨fun n => ?_, fun n p p' first second => ?_⟩
  · rw [excl, Function.update_apply]
    split_ifs with same
    · subst same
      exact ⟨fun _ => ⟨fid, (claims fid n).mpr (.inr ⟨rfl, rfl⟩)⟩, fun _ => rfl⟩
    · rw [right.flag]
      refine exists_congr fun p => ?_
      rw [claims]
      exact ⟨.inl, fun new => new.resolve_right fun both => same both.2⟩
  · rcases (claims p n).mp first with first | ⟨rfl, rfl⟩ <;>
      rcases (claims p' n).mp second with second | ⟨rfl, same⟩
    · exact right.one n p p' first second
    · exact absurd (same ▸ first) (unclaimed p)
    · exact absurd second (unclaimed p')
    · rfl

/-- A request goes on: only its fid changes, and its place among the requests. -/
structure Goes (s : Tree Fid) (w : Work Fid) (s' : Tree Fid) (f : Npfilefid)
    (next : Option (Work Fid)) : Prop where
  fid : s'.fid = Function.update s.fid w.fid (some f)
  work : ∀ v, v ∈ s'.work ↔ next = some v ∨ v ∈ s.work ∧ v.fid ≠ w.fid
  alone : (s'.work.map Work.fid).Nodup
  same : ∀ v ∈ next, v.fid = w.fid

section Go

variable {next : Option (Work Fid)}

/-- The claims of the fid of a request behind its step. -/
def Own (f : Npfilefid) (fid : Fid) (next : Option (Work Fid)) (file : ℕ) : Prop :=
  f.file = file ∧ f.exclusive = true ∨
    ∃ mode, next = some (.middle fid file mode) ∧ exclusive mode = true

theorem Goes.claims (goes : s.Goes w s' f next) (p : Fid) (n : ℕ) :
    s'.Claims p n ↔ if p = w.fid then Own f w.fid next n else s.Claims p n := by
  unfold Claims Own
  rw [goes.fid]
  split_ifs with same
  · subst same
    simp only [Function.update_self, Option.some.injEq, exists_eq_left', goes.work]
    refine or_congr Iff.rfl (exists_congr fun mode => and_congr_left fun _ => ?_)
    exact ⟨fun member => member.resolve_right fun old => old.2 rfl, .inl⟩
  · simp only [Function.update_of_ne same, goes.work]
    refine or_congr Iff.rfl (exists_congr fun mode => and_congr_left fun _ => ?_)
    constructor
    · rintro (new | old)
      · exact absurd (goes.same _ new) same
      · exact old.1
    · exact fun old => .inr ⟨old, same⟩

omit [DecidableEq Fid] in
/-- A fid that a request works on is not open with `Oexcl`. -/
theorem Sound.plain (sound : s.Sound) (member : w ∈ s.work) (live : s.fid w.fid = some f) :
    f.exclusive = false := by
  obtain ⟨f', live', opened⟩ := sound.busy w member
  obtain rfl : f = f' := Option.some.inj (live.symm.trans live')
  by_contra exclusive
  rw [sound.opened w.fid f live (by simpa using exclusive)] at opened
  cases opened

omit [DecidableEq Fid] in
theorem Sound.same (sound : s.Sound) (member : w ∈ s.work) (member' : v ∈ s.work)
    (fid : v.fid = w.fid) : v = w :=
  List.inj_on_of_nodup_map sound.alone member' member fid

omit [DecidableEq Fid] in
/-- The claims of the fid of a request. -/
theorem Sound.claims (sound : s.Sound) (member : w ∈ s.work) (n : ℕ) :
    s.Claims w.fid n ↔ ∃ mode, w = .middle w.fid n mode ∧ exclusive mode = true := by
  obtain ⟨f, live, -⟩ := sound.busy w member
  have plain := sound.plain member live
  constructor
  · rintro (⟨f', live', -, exclusive⟩ | ⟨mode, claimed, exclusive⟩)
    · obtain rfl : f = f' := Option.some.inj (live.symm.trans live')
      rw [plain] at exclusive
      cases exclusive
    · exact ⟨mode, (sound.same member claimed rfl).symm, exclusive⟩
  · rintro ⟨mode, is, exclusive⟩
    exact .inr ⟨mode, is ▸ member, exclusive⟩

/-- The step changes no claim. -/
theorem Goes.right (goes : s.Goes w s' f next) (sound : s.Sound) (member : w ∈ s.work)
    (excl : s'.excl = s.excl)
    (own : ∀ n, Own f w.fid next n ↔ ∃ mode, w = .middle w.fid n mode ∧ exclusive mode = true) :
    s'.Right := by
  refine sound.right.congr excl fun p n => ?_
  rw [goes.claims]
  split_ifs with same
  · subst same
    rw [own, sound.claims member]
  · rfl

/-- The step claims a file that nobody has. -/
theorem Goes.right_add (goes : s.Goes w s' f next) (sound : s.Sound) (member : w ∈ s.work)
    (free : s.excl file = false) (excl : s'.excl = Function.update s.excl file true)
    (before : ∀ n mode, w ≠ .middle w.fid n mode)
    (own : ∀ n, Own f w.fid next n ↔ n = file) : s'.Right := by
  suffices claims : ∀ p n, s'.Claims p n ↔ s.Claims p n ∨ p = w.fid ∧ n = file from
    sound.right.add free excl claims
  intro p n
  rw [goes.claims]
  split_ifs with same
  · subst same
    rw [own, sound.claims member]
    refine ⟨fun new => .inr ⟨rfl, new⟩, ?_⟩
    rintro (⟨mode, is, -⟩ | ⟨-, new⟩)
    · exact absurd is (before n mode)
    · exact new
  · exact ⟨.inl, fun new => new.resolve_right fun both => same both.1⟩

/-- What a step of a request has to do to keep the rest. -/
theorem Goes.sound (goes : s.Goes w s' f next) (sound : s.Sound) (right : s'.Right)
    (busy : ∀ v ∈ next, f.opened = false) (opened : f.exclusive = true → f.opened = true)
    (file : ∀ file mode, next = some (.middle w.fid file mode) → f.file = file)
    (grows : s.next ≤ s'.next) (known : f.file < s'.next)
    (made : ∀ file mode, next = some (.made w.fid file mode) → file < s'.next)
    (succeeds : ∀ file mode, next ≠ some (.failed w.fid file mode)) : s'.Sound where
  right := right
  alone := goes.alone
  busy v member := by
    rw [goes.fid]
    rcases (goes.work v).mp member with new | ⟨old, other⟩
    · rw [goes.same v new, Function.update_self]
      exact ⟨f, rfl, busy v new⟩
    · rw [Function.update_of_ne other]
      exact sound.busy v old
  opened p g live := by
    rw [goes.fid, Function.update_apply] at live
    split_ifs at live with same
    · obtain rfl := Option.some.inj live
      exact opened
    · exact sound.opened p g live
  file p n mode member := by
    rw [goes.fid]
    rcases (goes.work _).mp member with new | ⟨old, other⟩
    · obtain rfl : p = w.fid := goes.same _ new
      rw [Function.update_self, Option.map_some, file n mode new]
    · rw [Function.update_of_ne (show p ≠ w.fid from other)]
      exact sound.file p n mode old
  known p g live := by
    rw [goes.fid, Function.update_apply] at live
    split_ifs at live with same
    · obtain rfl := Option.some.inj live
      exact known
    · exact (sound.known p g live).trans_le grows
  made p n mode member := by
    rcases (goes.work _).mp member with new | ⟨old, -⟩
    · obtain rfl : p = w.fid := goes.same _ new
      exact made n mode new
    · exact (sound.made p n mode old).trans_le grows
  succeeds p n mode member := by
    rcases (goes.work _).mp member with new | ⟨old, -⟩
    · obtain rfl : p = w.fid := goes.same _ new
      exact succeeds n mode new
    · exact sound.succeeds p n mode old

/-- The request is answered. -/
theorem Sound.goes_none (sound : s.Sound) (found : s.work[i]? = some w)
    (fids : s'.fid = Function.update s.fid w.fid (some f)) (work : s'.work = s.work.eraseIdx i) :
    Goes s w s' f none where
  fid := fids
  work v := by
    rw [work, Work.mem_eraseIdx sound.alone found]
    simp
  alone := by
    rw [work]
    exact Work.nodup_eraseIdx sound.alone
  same v member := by cases member

/-- The request goes on. -/
theorem Sound.goes_some (sound : s.Sound) (found : s.work[i]? = some w)
    (fids : s'.fid = Function.update s.fid w.fid (some f)) (work : s'.work = s.work.set i v)
    (same : v.fid = w.fid) : Goes s w s' f (some v) where
  fid := fids
  work v' := by
    rw [work, Work.mem_set sound.alone found, Option.some.injEq, eq_comm]
  alone := by
    rw [work]
    exact Work.nodup_set sound.alone found same
  same v' member := by
    obtain rfl := Option.some.inj member
    exact same

end Go

/-! ## One step -/

theorem modify_of_some (live : s.fid fid = some f) (change : Npfilefid → Npfilefid) :
    s.modify fid change = { s with fid := Function.update s.fid fid (some (change f)) } := by
  simp [modify, live]

theorem update_of_some (live : s.fid fid = some f) : Function.update s.fid fid (some f) = s.fid := by
  rw [← live, Function.update_eq_self]

/-- A step after which the fid does not claim a file, as before. -/
theorem Goes.plain {next : Option (Work Fid)} (goes : s.Goes w s' f next) (sound : s.Sound)
    (member : w ∈ s.work) (excl : s'.excl = s.excl) (exclusive : f.exclusive = false)
    (before : ∀ n mode, w = .middle w.fid n mode → ExclusiveOpen.exclusive mode = false)
    (after : ∀ n mode, next = some (.middle w.fid n mode) →
      ExclusiveOpen.exclusive mode = false) : s'.Right := by
  refine goes.right sound member excl fun n => ?_
  constructor
  · rintro (⟨-, claimed⟩ | ⟨mode, is, claimed⟩)
    · rw [exclusive] at claimed
      cases claimed
    · rw [after n mode is] at claimed
      cases claimed
  · rintro ⟨mode, is, claimed⟩
    rw [before n mode is] at claimed
    cases claimed

/-- The request is answered without a claim. -/
theorem Sound.finish (sound : s.Sound) (found : s.work[i]? = some w)
    (live : s.fid w.fid = some f) {g : Npfilefid}
    (fids : s'.fid = Function.update s.fid w.fid (some g)) (work : s'.work = s.work.eraseIdx i)
    (excl : s'.excl = s.excl) (next : s'.next = s.next) (file : g.file = f.file)
    (plain : g.exclusive = false)
    (before : ∀ n mode, w = .middle w.fid n mode → ExclusiveOpen.exclusive mode = false) :
    s'.Sound := by
  have member := List.mem_of_getElem? found
  have goes := sound.goes_none found fids work
  have right : s'.Right := by
    refine goes.plain sound member excl plain before ?_
    rintro n mode is
    cases is
  refine goes.sound sound right ?_ ?_ ?_ next.ge ?_ ?_ ?_
  · intro v is
    cases is
  · intro exclusive
    rw [plain] at exclusive
    cases exclusive
  · rintro n mode is
    cases is
  · rw [file, next]
    exact sound.known w.fid f live
  · rintro n mode is
    cases is
  · rintro n mode is
    cases is

theorem Sound.walk {names : ℕ} (sound : s.Sound)
    (found : s.work[i]? = some (.walk fid names))
    (taken : s.go i o (.walk fid names) = some s') : s'.Sound := by
  have member := List.mem_of_getElem? found
  obtain ⟨f, live, closed⟩ : ∃ f, s.fid fid = some f ∧ f.opened = false := sound.busy _ member
  have plain := sound.plain member live
  have answered : (s.finish i).Sound := by
    refine sound.finish found live (update_of_some live).symm rfl rfl rfl rfl plain ?_
    rintro n mode is
    cases is
  cases names with
  | zero =>
      obtain rfl : s.finish i = s' := Option.some.inj taken
      exact answered
  | succ names =>
      simp only [Tree.go] at taken
      split_ifs at taken with failed inside
      · obtain rfl := Option.some.inj taken
        exact answered
      · rw [modify_of_some live] at taken
        have is := Option.some.inj taken
        -- The fid stands at the file that was found, and is as little open as before.
        have goes : Goes s (.walk fid (names + 1)) s' { f with file := o.file }
            (some (.walk fid names)) := sound.goes_some found (is ▸ rfl) (is ▸ rfl) rfl
        have right := goes.plain sound member (is ▸ rfl) plain (fun n mode is => by cases is)
          (fun n mode is => by cases is)
        refine goes.sound sound right (fun v _ => closed) ?_ ?_ (is ▸ le_rfl) (is ▸ inside)
          ?_ ?_
        · intro exclusive
          cases plain.symm.trans exclusive
        · rintro n mode is
          cases is
        · rintro n mode is
          cases is
        · rintro n mode is
          cases is

theorem Sound.opens (sound : s.Sound) (found : s.work[i]? = some (.opens fid mode))
    (taken : s.go i o (.opens fid mode) = some s') : s'.Sound := by
  have member := List.mem_of_getElem? found
  obtain ⟨f, live, closed⟩ : ∃ f, s.fid fid = some f ∧ f.opened = false := sound.busy _ member
  have plain := sound.plain member live
  have before (n : ℕ) (mode' : UInt8) : Work.opens fid mode ≠ .middle fid n mode' := by
    intro is
    cases is
  have answered : ((s.store fid).finish i).Sound := by
    have stored := modify_of_some live fun f => { f with opened := true }
    have fids : ((s.store fid).finish i).fid =
        Function.update s.fid fid (some { f with opened := true }) :=
      congrArg Tree.fid stored
    have before (n : ℕ) (mode' : UInt8) (is : Work.opens fid mode = .middle fid n mode') :
        ExclusiveOpen.exclusive mode' = false := absurd is (before n mode')
    exact sound.finish found live fids rfl rfl rfl rfl plain before
  simp only [Tree.go, live, Option.map_some, npfileOpen] at taken
  -- The request goes behind the lock, with the file of its fid.
  have goes {s' : Tree Fid} (fids : s'.fid = s.fid)
      (work : s'.work = s.work.set i (.middle fid f.file mode)) :
      Goes s (.opens fid mode) s' f (some (.middle fid f.file mode)) :=
    sound.goes_some found (fids.trans (update_of_some live).symm) work rfl
  have rest {s' : Tree Fid} (fids : s'.fid = s.fid)
      (work : s'.work = s.work.set i (.middle fid f.file mode)) (next : s'.next = s.next)
      (right : s'.Right) : s'.Sound := by
    refine (goes fids work).sound sound right (fun v _ => closed) ?_ ?_ next.ge ?_ ?_ ?_
    · intro exclusive
      rw [plain] at exclusive
      cases exclusive
    · rintro n mode is
      cases is
      rfl
    · rw [next]
      exact sound.known fid f live
    · rintro n mode is
      cases is
    · rintro n mode is
      cases is
  split_ifs at taken with failed wanted busy
  · obtain rfl := Option.some.inj taken
    exact answered
  · obtain rfl := Option.some.inj taken
    exact answered
  · have is := Option.some.inj taken
    have goes := @goes s' (is ▸ rfl) (is ▸ rfl)
    refine rest (is ▸ rfl) (is ▸ rfl) (is ▸ rfl) ?_
    have excl : s'.excl = Function.update s.excl f.file true := is ▸ rfl
    refine goes.right_add sound member (by simpa using busy) excl before fun n => ?_
    constructor
    · rintro (⟨-, exclusive⟩ | ⟨mode', is, -⟩)
      · rw [plain] at exclusive
        cases exclusive
      · cases is
        rfl
    · rintro rfl
      exact .inr ⟨mode, rfl, wanted⟩
  · have is := Option.some.inj taken
    have goes := @goes s' (is ▸ rfl) (is ▸ rfl)
    refine rest (is ▸ rfl) (is ▸ rfl) (is ▸ rfl) ?_
    refine goes.plain sound member (is ▸ rfl) plain ?_ ?_
    · exact fun n mode is => absurd is (before n mode)
    · rintro n mode' is
      cases is
      simpa using wanted

theorem Sound.middle (sound : s.Sound) (found : s.work[i]? = some (.middle fid file mode))
    (succeeds : s.Succeeds o (.middle fid file mode))
    (taken : s.go i o (.middle fid file mode) = some s') : s'.Sound := by
  have member := List.mem_of_getElem? found
  obtain ⟨f, live, closed⟩ : ∃ f, s.fid fid = some f ∧ f.opened = false := sound.busy _ member
  have plain := sound.plain member live
  obtain rfl : f.file = file := by
    have := sound.file fid file mode member
    rwa [live, Option.map_some, Option.some.injEq] at this
  simp only [Tree.go] at taken
  split_ifs at taken with ok wanted
  · rw [modify_of_some live] at taken
    have is := Option.some.inj taken
    -- The mode of the fid takes the place of the request.
    have goes : Goes s (.middle fid f.file mode) s' { f with omode := some mode, opened := true }
        none := sound.goes_none found (is ▸ rfl) (is ▸ rfl)
    have right : s'.Right := by
      refine goes.right sound member (is ▸ rfl) fun n => ?_
      constructor
      · rintro (⟨rfl, exclusive⟩ | ⟨mode', is, -⟩)
        · exact ⟨mode, rfl, exclusive⟩
        · cases is
      · rintro ⟨mode', is, exclusive⟩
        cases is
        exact .inl ⟨rfl, exclusive⟩
    refine goes.sound sound right (fun v is => by cases is) (fun _ => rfl) ?_ (is ▸ le_rfl)
      (is ▸ sound.known fid f live) ?_ ?_
    · rintro n mode is
      cases is
    · rintro n mode is
      cases is
    · rintro n mode is
      cases is
  · exact absurd (succeeds wanted) ok
  · rw [store, modify_of_some live] at taken
    have is := Option.some.inj taken
    have fids : s'.fid = Function.update s.fid fid (some { f with opened := true }) := is ▸ rfl
    refine sound.finish found live fids (is ▸ rfl) (is ▸ rfl) (is ▸ rfl) rfl plain ?_
    rintro n mode' is
    cases is
    simpa using wanted

omit [DecidableEq Fid] in
/-- Nobody has a file that is still to be created. -/
theorem Sound.fresh (sound : s.Sound) : s.excl s.next = false := by
  by_contra set
  obtain ⟨p, claimed⟩ := (sound.right.flag s.next).mp (by simpa using set)
  rcases claimed with ⟨f, live, last, -⟩ | ⟨mode, member, -⟩
  · exact absurd (sound.known p f live) (by omega)
  · have file := sound.file p s.next mode member
    obtain ⟨f, live, -⟩ : ∃ f, s.fid p = some f ∧ f.opened = false := sound.busy _ member
    have known := sound.known p f live
    rw [live, Option.map_some, Option.some.injEq] at file
    omega

theorem Sound.create (sound : s.Sound) (found : s.work[i]? = some (.create fid mode))
    (taken : s.go i o (.create fid mode) = some s') : s'.Sound := by
  have member := List.mem_of_getElem? found
  obtain ⟨f, live, closed⟩ : ∃ f, s.fid fid = some f ∧ f.opened = false := sound.busy _ member
  have plain := sound.plain member live
  simp only [Tree.go] at taken
  split_ifs at taken with ok
  · obtain rfl := Option.some.inj taken
    have fresh := sound.fresh
    have excl : Function.update s.excl s.next false = s.excl := by
      rw [← fresh, Function.update_eq_self]
    have goes : Goes s (.create fid mode)
        (move { s.setExcl s.next false with next := s.next + 1 } i (.made fid s.next mode)) f
        (some (.made fid s.next mode)) :=
      sound.goes_some found (update_of_some live).symm rfl rfl
    have right := goes.plain sound member excl plain (fun n mode is => by cases is)
      (fun n mode is => by cases is)
    refine goes.sound sound right (fun v _ => closed) ?_ ?_ (Nat.le_succ _) ?_ ?_ ?_
    · intro exclusive
      rw [plain] at exclusive
      cases exclusive
    · rintro n mode is
      cases is
    · exact (sound.known fid f live).trans (Nat.lt_succ_self _)
    · rintro n mode is
      cases is
      exact Nat.lt_succ_self _
    · rintro n mode is
      cases is
  · obtain rfl := Option.some.inj taken
    refine sound.finish found live (update_of_some live).symm rfl rfl rfl rfl plain ?_
    rintro n mode is
    cases is

theorem Sound.create_made (sound : s.Sound) (found : s.work[i]? = some (.made fid file mode))
    (succeeds : s.Succeeds o (.made fid file mode))
    (taken : s.go i o (.made fid file mode) = some s') : s'.Sound := by
  have member := List.mem_of_getElem? found
  obtain ⟨f, live, closed⟩ : ∃ f, s.fid fid = some f ∧ f.opened = false := sound.busy _ member
  have plain := sound.plain member live
  simp only [Tree.go, modify_of_some live] at taken
  have is := Option.some.inj taken
  have goes : Goes s (.made fid file mode) s' ⟨file, some mode, f.opened || o.ok⟩ none := by
    refine sound.goes_none found ?_ ?_
    · rw [← is]
      split_ifs <;> rfl
    · rw [← is]
      split_ifs <;> rfl
  have next : s'.next = s.next := by
    rw [← is]
    split_ifs <;> rfl
  have before (n : ℕ) (mode' : UInt8) : Work.made fid file mode ≠ .middle fid n mode' := by
    intro is
    cases is
  have right : s'.Right := by
    split_ifs at is with wanted
    · refine goes.right_add sound member (succeeds wanted).2 (is ▸ rfl) before fun n => ?_
      constructor
      · rintro (⟨same, -⟩ | ⟨mode', is, -⟩)
        · exact same.symm
        · cases is
      · rintro rfl
        exact .inl ⟨rfl, wanted⟩
    · refine goes.plain sound member (is ▸ rfl) (Bool.eq_false_iff.mpr wanted) ?_ ?_
      · exact fun n mode is => absurd is (before n mode)
      · rintro n mode is
        cases is
  refine goes.sound sound right (fun v is => by cases is) ?_ ?_ next.ge ?_ ?_ ?_
  · intro exclusive
    rw [(succeeds exclusive).1, Bool.or_true]
  · rintro n mode is
    cases is
  · rw [next]
    exact sound.made fid file mode member
  · rintro n mode is
    cases is
  · rintro n mode is
    cases is

/-- A fid without a request is given or loses its `Npfilefid`. -/
theorem Sound.assign (sound : s.Sound) {g : Option Npfilefid}
    (idle : ∀ w ∈ s.work, w.fid ≠ fid) (before : ∀ f ∈ s.fid fid, f.exclusive = false)
    (after : ∀ f ∈ g, f.exclusive = false ∧ f.file < s.next) :
    Tree.Sound { s with fid := Function.update s.fid fid g } := by
  have others (p : Fid) (other : p ≠ fid) : Function.update s.fid fid g p = s.fid p :=
    Function.update_of_ne other _ _
  have own : Function.update s.fid fid g fid = g := Function.update_self _ _ _
  refine ⟨sound.right.congr rfl fun p n => ?_, sound.alone, ?_, ?_, ?_, ?_, sound.made,
    sound.succeeds⟩
  · by_cases same : p = fid
    · subst same
      constructor
      · rintro (⟨f, live, -, exclusive⟩ | busy)
        · rw [(after f (own.symm.trans live)).1] at exclusive
          cases exclusive
        · exact .inr busy
      · rintro (⟨f, live, -, exclusive⟩ | busy)
        · rw [before f live] at exclusive
          cases exclusive
        · exact .inr busy
    · unfold Claims
      dsimp only
      rw [others p same]
  · intro w member
    obtain ⟨f, live, closed⟩ := sound.busy w member
    exact ⟨f, (others w.fid (idle w member)).trans live, closed⟩
  · intro p f live exclusive
    by_cases same : p = fid
    · subst same
      rw [(after f (own.symm.trans live)).1] at exclusive
      cases exclusive
    · exact sound.opened p f ((others p same).symm.trans live) exclusive
  · intro p n mode member
    exact (congrArg (Option.map (·.file)) (others p (idle _ member))).trans
      (sound.file p n mode member)
  · intro p f live
    by_cases same : p = fid
    · subst same
      exact (after f (own.symm.trans live)).2
    · exact sound.known p f ((others p same).symm.trans live)

omit [DecidableEq Fid] in
theorem Sound.receive (sound : s.Sound) (begins : w.begins = true)
    (live : (s.fid w.fid).any (!·.opened) = true) (idle : ∀ v ∈ s.work, v.fid ≠ w.fid) :
    Tree.Sound { s with work := s.work ++ [w] } := by
  obtain ⟨f, live, closed⟩ := (Option.any_eq_true _ _).mp live
  have old {v : Work Fid} (member : v ∈ s.work ++ [w]) (later : v.begins = false) : v ∈ s.work := by
    rcases List.mem_append.mp member with old | new
    · exact old
    · rw [List.mem_singleton.mp new, begins] at later
      cases later
  refine ⟨sound.right.congr rfl fun p n => ?_, ?_, ?_, sound.opened, ?_, sound.known, ?_, ?_⟩
  · refine or_congr Iff.rfl (exists_congr fun mode => and_congr_left fun _ => ?_)
    exact ⟨fun member => old member rfl, fun member => List.mem_append_left _ member⟩
  · show ((s.work ++ [w]).map Work.fid).Nodup
    rw [List.map_append, List.nodup_append]
    refine ⟨sound.alone, List.nodup_singleton _, ?_⟩
    intro p member q new same
    obtain ⟨v, old, rfl⟩ := List.mem_map.mp member
    exact idle v old (same.trans (List.mem_singleton.mp new))
  · intro v member
    rcases List.mem_append.mp member with member | new
    · exact sound.busy v member
    · rw [List.mem_singleton.mp new]
      exact ⟨f, live, by simpa using closed⟩
  · exact fun p n mode member => sound.file p n mode (old member rfl)
  · exact fun p n mode member => sound.made p n mode (old member rfl)
  · exact fun p n mode member => sound.succeeds p n mode (old member rfl)

/-- One step that is settled. -/
theorem Sound.step {e : Event Fid} (sound : s.Sound) (settled : s.Settled e)
    (taken : s.step e = some s') : s'.Sound := by
  cases e with
  | attach fid file =>
      simp only [Tree.step] at taken
      split_ifs at taken with fresh
      obtain rfl := Option.some.inj taken
      have none' : s.fid fid = none := by simpa using fresh.1
      refine sound.assign ?_ ?_ ?_
      · rintro w member rfl
        obtain ⟨f, live, -⟩ := sound.busy w member
        cases none'.symm.trans live
      · intro f live
        cases none'.symm.trans live
      · intro f live
        obtain rfl := Option.some.inj live
        exact ⟨rfl, fresh.2⟩
  | receive w =>
      simp only [Tree.step] at taken
      split_ifs at taken with allowed
      obtain rfl := Option.some.inj taken
      exact sound.receive allowed.1 allowed.2 settled
  | go i o =>
      obtain ⟨w, found, taken⟩ := Option.bind_eq_some_iff.mp taken
      have succeeds := settled w found
      cases w with
      | walk fid names => exact sound.walk found taken
      | opens fid mode => exact sound.opens found taken
      | middle fid file mode => exact sound.middle found succeeds taken
      | failed fid file mode =>
          exact absurd (List.mem_of_getElem? found) (sound.succeeds fid file mode)
      | create fid mode => exact sound.create found taken
      | made fid file mode => exact sound.create_made found succeeds taken
  | destroy fid =>
      simp only [Tree.step] at taken
      split_ifs at taken with idle
      obtain rfl := Option.some.inj taken
      refine sound.assign idle.2 settled ?_
      intro f live
      cases live

omit [DecidableEq Fid] in
theorem sound_start : (start : Tree Fid).Sound where
  right := by
    refine ⟨fun file => ⟨fun set => ?_, ?_⟩, ?_⟩
    · cases set
    · rintro ⟨fid, ⟨f, live, -⟩ | ⟨mode, member, -⟩⟩
      · cases live
      · cases member
    · rintro file fid fid' (⟨f, live, -⟩ | ⟨mode, member, -⟩)
      · cases live
      · cases member
  alone := List.nodup_nil
  busy w member := by cases member
  opened fid f live := by cases live
  file fid file mode member := by cases member
  known fid f live := by cases live
  made fid file mode member := by cases member
  succeeds fid file mode member := by cases member

theorem sound_of_run (run : Transition.Reaches (@step Fid _) Settled start s) : s.Sound :=
  run.invariant Sound sound_start fun sound settled taken => sound.step settled taken

/-- What holds behind each step: the flag is right, a step sets or clears it only for the fid that
has the file then, an exclusive open is refused as long as some fid has the file, with the flag as
it was, and an open that passes its test gets the file that no fid has. -/
structure Exclusive (s : Tree Fid) : Prop where
  right : s.Right
  changes : ∀ {i o w s' n}, s.work[i]? = some w → s.step (.go i o) = some s' →
    s'.excl n ≠ s.excl n → s'.Claims w.fid n
  refuses : ∀ {i fid mode f} o, s.work[i]? = some (.opens fid mode) → s.fid fid = some f →
    exclusive mode = true → (o.ok = false ∨ ∃ fid', s.Claims fid' f.file) →
    ∃ s', s.step (.go i o) = some s' ∧ s'.work = s.work.eraseIdx i ∧ s'.excl = s.excl
  grants : ∀ {i fid mode f} o, s.work[i]? = some (.opens fid mode) → s.fid fid = some f →
    exclusive mode = true → o.ok = true → (∀ fid', ¬ s.Claims fid' f.file) →
    ∃ s', s.step (.go i o) = some s' ∧ s'.Claims fid f.file

theorem go_opens (found : s.work[i]? = some (.opens fid mode)) (live : s.fid fid = some f) :
    s.step (.go i o) = some (s.npfileOpen i fid mode f.file o) := by
  simp only [step, found, Option.bind_some, go, live, Option.map_some]

theorem Sound.changes {n : ℕ} (sound : s.Sound) (found : s.work[i]? = some w)
    (taken : s.step (.go i o) = some s') (changed : s'.excl n ≠ s.excl n) :
    s'.Claims w.fid n := by
  have member := List.mem_of_getElem? found
  have inside : i < s.work.length := (List.getElem?_eq_some_iff.mp found).1
  obtain ⟨f, live, -⟩ := sound.busy w member
  have only {file : ℕ} {flag : Bool} (changed : Function.update s.excl file flag n ≠ s.excl n) :
      n = file := by
    by_contra other
    exact changed (Function.update_of_ne other _ _)
  obtain ⟨w', found', taken⟩ := Option.bind_eq_some_iff.mp taken
  obtain rfl : w = w' := Option.some.inj (found.symm.trans found')
  cases w with
  | walk fid names =>
      cases names with
      | zero =>
          obtain rfl : s.finish i = s' := Option.some.inj taken
          exact absurd rfl changed
      | succ names =>
          simp only [go] at taken
          split_ifs at taken <;> obtain rfl := Option.some.inj taken <;> exact absurd rfl changed
  | opens fid mode =>
      replace live : s.fid fid = some f := live
      simp only [go, live, Option.map_some, npfileOpen] at taken
      split_ifs at taken with failed wanted busy <;> obtain rfl := Option.some.inj taken
      · exact absurd rfl changed
      · exact absurd rfl changed
      · rw [only changed]
        exact .inr ⟨mode, List.mem_set inside _, wanted⟩
      · exact absurd rfl changed
  | middle fid file mode =>
      simp only [go] at taken
      split_ifs at taken <;> obtain rfl := Option.some.inj taken <;> exact absurd rfl changed
  | failed fid file mode => exact absurd member (sound.succeeds fid file mode)
  | create fid mode =>
      simp only [go] at taken
      split_ifs at taken <;> obtain rfl := Option.some.inj taken
      · obtain rfl := only changed
        exact absurd ((Function.update_self _ _ _).trans sound.fresh.symm) changed
      · exact absurd rfl changed
  | made fid file mode =>
      replace live : s.fid fid = some f := live
      simp only [go, modify_of_some live] at taken
      split_ifs at taken with wanted <;> obtain rfl := Option.some.inj taken
      · rw [only changed]
        exact .inl ⟨_, Function.update_self _ _ _, rfl, wanted⟩
      · exact absurd rfl changed

/-- In every settled run the flag of a file is set exactly when some fid has it with `Oexcl`. -/
theorem claimed_of_run (run : Transition.Reaches (@step Fid _) Settled start s) :
    s.Exclusive := by
  have sound := sound_of_run run
  refine ⟨sound.right, sound.changes, ?_, ?_⟩
  · intro i fid mode f o found live wanted refused
    refine ⟨_, go_opens found live, ?_⟩
    unfold npfileOpen
    split_ifs with failed busy
    · exact ⟨rfl, rfl⟩
    · exact ⟨rfl, rfl⟩
    · rcases refused with failed' | claimed
      · rw [failed'] at failed
        exact absurd rfl failed
      · exact absurd ((sound.right.flag f.file).mpr claimed) busy
  · intro i fid mode f o found live wanted ok free
    refine ⟨_, go_opens found live, ?_⟩
    have unset : s.excl f.file ≠ true := fun set =>
      (sound.right.flag f.file).mp set |>.elim free
    simp only [npfileOpen, ok, wanted, unset, Bool.not_true, Bool.false_eq_true, if_true, if_false]
    have inside : i < s.work.length := (List.getElem?_eq_some_iff.mp found).1
    exact .inr ⟨mode, List.mem_set inside _, wanted⟩

end Tree

/-! ## A fid that is clunked -/

/-- An attach and an open with `Oexcl`, by the one fid of a client. -/
def openExclusively : List (Event Unit) :=
  [.attach () 0, .receive (.opens () Oexcl), .go 0 ⟨true, 0⟩, .go 0 ⟨true, 0⟩]

/-- The flag stays set when the fid that had the file is gone. -/
theorem not_claimed_of_run : ¬ ∀ s : Tree Unit,
    Transition.Reaches Tree.step (fun _ _ => True) Tree.start s → s.Exclusive := by
  intro all
  have played : (Transition.play Tree.step (fun _ _ => True) Tree.start
      (openExclusively ++ [Event.destroy ()])).map (fun s => (s.excl 0, s.fid (), s.work)) =
        some (true, none, []) := by
    decide +kernel
  obtain ⟨s, is, last⟩ := Option.map_eq_some_iff.mp played
  obtain ⟨set, gone, idle⟩ : s.excl 0 = true ∧ s.fid () = none ∧ s.work = [] := by
    simpa using last
  obtain ⟨fid, ⟨f, live, -⟩ | ⟨mode, member, -⟩⟩ :=
    ((all s (Transition.reaches_of_play is)).right.flag 0).mp set
  · rw [gone] at live
    cases live
  · rw [idle] at member
    cases member

/-- An open without a failure sets the flag. -/
theorem claimed_of_run_open : ∃ s : Tree Unit, s.excl 0 = true ∧ s.Exclusive := by
  have played : (Transition.play Tree.step Tree.Settled Tree.start openExclusively).map
      (fun s => s.excl 0) = some true := by
    decide +kernel
  obtain ⟨s, is, set⟩ := Option.map_eq_some_iff.mp played
  exact ⟨s, set, Tree.claimed_of_run (Transition.reaches_of_play is)⟩

end ExclusiveOpen

end Npfs
