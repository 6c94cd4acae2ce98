import Npfs.Transition
import Npfs.UfsOps

/-!
# Names in a directory

Any number of threads create files in the directories of a tree and rename its files:
`npfile_find`, `npfile_create` and `npfile_wstat` of `libnpfs/file.c` over `rfs_create` and
`rfs_wstat` of `fs/ramfs2.c`.  What a thread does under one lock is one step, and so is each taking
of a further lock.
-/

namespace Npfs.NameRace

open Function Ufs

/-! ## The tree -/

/-- `"."`. -/
def dot : CStr := cstr "."

/-- `".."`. -/
def dotdot : CStr := cstr ".."

/-- A name that a file may have. -/
def Proper (name : CStr) : Prop := name ≠ dot ∧ name ≠ dotdot ∧ name ≠ cstr ""

/-- An `Npfile`; files are known by their `qid.path`. -/
structure Npfile where
  parent : ℕ
  name : CStr
  /-- `mode & Dmdir`. -/
  dmdir : Bool
  /-- The list from `dirfirst` along `next`. -/
  children : List ℕ

/-- A `Tcreate` on a fid of the directory `dir`. -/
structure Create where
  dir : ℕ
  name : CStr
  /-- `perm & Dmdir`. -/
  dmdir : Bool
  /-- `perm & Dmlink`. -/
  dmlink : Bool
  /-- The answer of `npfile_checkperm` for `dir` and of `check_perm` for the new file. -/
  permitted : Bool

/-- A `Twstat` with a name, on a fid of `file`. -/
structure Rename where
  file : ℕ
  name : CStr
  /-- The answer of the tests of `npfile_wstat`. -/
  permitted : Bool

/-- Where a thread is. -/
inductive At where
  | idle
  /-- About to call `npfile_find` in `npfile_create`. -/
  | finding (r : Create)
  /-- About to lock the directory and to call `rfs_create`. -/
  | creating (r : Create)
  /-- About to lock the file in `npfile_wstat`. -/
  | statting (r : Rename)
  /-- In `rfs_wstat`, about to lock the parent. -/
  | entering (r : Rename)
  /-- In `rfs_wstat` with both locks, about to call `npfile_find`. -/
  | naming (r : Rename)

/-- The file that a thread works on: the directory of a create, or the file of a rename. -/
def At.file? : At → Option ℕ
  | .idle => none
  | .finding r | .creating r => some r.dir
  | .statting r | .entering r | .naming r => some r.file

/-- The request that has made its test, and inserts its file next. -/
def At.insert? : At → Option Create
  | .creating r => if r.dmlink then none else some r
  | _ => none

/-- The request whose tests `npfile_wstat` has made, or makes with success. -/
def At.rename? : At → Option Rename
  | .statting r => if r.permitted then some r else none
  | .entering r | .naming r => some r
  | _ => none

/-- The insertion ahead is one of the same name in the same directory. -/
def At.clashes (at_ : At) (r : Create) : Bool :=
  at_.insert?.any fun r' => decide (r'.dir = r.dir) && decide (r'.name = r.name)

/-- A request was answered. -/
structure Reply where
  dir : ℕ
  name : CStr
  /-- The error, `none` for a success. -/
  ename : Option CStr
  deriving DecidableEq

/-- The tree, its locks and the threads that work on it. -/
structure Tree (Thread : Type) where
  file : ℕ → Npfile
  /-- The next `qid.path`. -/
  qidpath : ℕ
  lock : ℕ → Option Thread
  at_ : Thread → At
  /-- History: the answered requests. -/
  replies : List Reply

/-- What happens next. -/
inductive Event (Thread : Type) where
  | create (t : Thread) (r : Create)
  | rename (t : Thread) (r : Rename)
  /-- The thread takes its next step. -/
  | go (t : Thread)

namespace Tree

variable {Thread : Type} [DecidableEq Thread] (s : Tree Thread)

/-- The tree of `main` in `fs/ramfs2.c`: the root is its own parent. -/
def start : Tree Thread where
  file _ := ⟨0, cstr "", true, []⟩
  qidpath := 1
  lock _ := none
  at_ _ := .idle
  replies := []

/-- The names of the children of a directory. -/
def names (dir : ℕ) : List CStr := (s.file dir).children.map fun child => (s.file child).name

/-- The children that `npfile_find` visits. -/
def visited (name : CStr) : List ℕ → List ℕ
  | [] => []
  | child :: rest =>
    if (s.file child).name = name then [child] else child :: visited name rest

/-- `npfile_find`; `none` when it waits for a lock. -/
def npfileFind (dir : ℕ) (name : CStr) : Option (Option ℕ) :=
  if name = dotdot then some (some (s.file dir).parent)
  else if (s.lock dir).isNone &&
      (s.visited name (s.file dir).children).all fun child => (s.lock child).isNone then
    some ((s.file dir).children.find? fun child => decide ((s.file child).name = name))
  else none

/-- A thread goes on. -/
def move (t : Thread) (at_ : At) : Tree Thread := { s with at_ := update s.at_ t at_ }

/-- The request of a thread is answered. -/
def reply (t : Thread) (dir : ℕ) (name : CStr) (ename : Option CStr) : Tree Thread :=
  { s with replies := ⟨dir, name, ename⟩ :: s.replies }.move t .idle

/-- The file that `npfile_alloc` makes. -/
def npfileAlloc (r : Create) : Npfile := ⟨r.dir, r.name, r.dmdir, []⟩

/-- `rfs_create` for a request without `Dmlink`. -/
def rfsCreate (r : Create) : Tree Thread :=
  let dir := s.file r.dir
  { s with
    file := update (update s.file s.qidpath (npfileAlloc r)) r.dir
      { dir with children := dir.children ++ [s.qidpath] }
    qidpath := s.qidpath + 1 }

/-- The directory of a rename. -/
def parent (r : Rename) : ℕ := (s.file r.file).parent

/-- Take a lock. -/
def locked (f : ℕ) (t : Thread) : Tree Thread := { s with lock := update s.lock f (some t) }

/-- The two locks of a rename are released. -/
def unlocked (r : Rename) : Tree Thread :=
  { s with lock := update (update s.lock (s.parent r) none) r.file none }

/-- `file->name = sname`. -/
def named (r : Rename) : Tree Thread :=
  { s with file := update s.file r.file { s.file r.file with name := r.name } }

/-- The next step of a thread; `none` when it waits. -/
def go (t : Thread) : Option (Tree Thread) :=
  match s.at_ t with
  | .idle => none
  | .finding r =>
    (s.npfileFind r.dir r.name).map fun found =>
      if found.isSome then s.reply t r.dir r.name (some Eexist)
      else if r.name = dot ∨ r.name = dotdot then s.reply t r.dir r.name (some Eexist)
      else if !r.permitted then s.reply t r.dir r.name (some Eperm)
      else s.move t (.creating r)
  | .creating r =>
    if (s.lock r.dir).isSome then none
    else if r.dmlink then some (s.reply t r.dir r.name (some Eperm))
    else some ((s.rfsCreate r).reply t r.dir r.name none)
  | .statting r =>
    if (s.lock r.file).isSome then none
    else if !r.permitted then some (s.reply t (s.parent r) r.name (some Eperm))
    else some ((s.locked r.file t).move t (.entering r))
  | .entering r =>
    if (s.lock (s.parent r)).isSome then none
    else some ((s.locked (s.parent r) t).move t (.naming r))
  | .naming r =>
    (s.npfileFind (s.parent r) r.name).map fun found =>
      if found.isSome then (s.unlocked r).reply t (s.parent r) r.name (some Eexist)
      else ((s.named r).unlocked r).reply t (s.parent r) r.name none

/-- One step; `none` when it cannot be taken. -/
def step : Event Thread → Option (Tree Thread)
  | .create t r =>
    match s.at_ t with
    | .idle =>
      if r.dir < s.qidpath ∧ (s.file r.dir).dmdir = true then some (s.move t (.finding r))
      else none
    | _ => none
  | .rename t r =>
    match s.at_ t with
    | .idle => if r.file < s.qidpath then some (s.move t (.statting r)) else none
    | _ => none
  | .go t => s.go t

/-- The lock that the next step of a thread needs. -/
def awaits (t : Thread) : Option ℕ :=
  match s.at_ t with
  | .idle => none
  | .finding r => if r.name = dotdot then none else some r.dir
  | .creating r => some r.dir
  | .statting r => some r.file
  | .entering r => some (s.parent r)
  | .naming r => if r.name = dotdot then none else some (s.parent r)

/-- The children of a directory have different, proper names; a name that is asked for goes to one
request, and no request waits for a lock of its own thread. -/
structure Unique : Prop where
  nodup : ∀ dir, (s.names dir).Nodup
  proper : ∀ dir, ∀ name ∈ s.names dir, Proper name
  one : ∀ r ∈ s.replies, r.ename ≠ some Eperm → r.name ≠ dot → r.name ≠ dotdot →
    s.replies.count ⟨r.dir, r.name, none⟩ = 1
  served : ∀ t f, s.awaits t = some f → s.lock f ≠ some t

/-- A request that may insert its file makes its test when no other one is between its test and its
insertion of that name, and does not ask for the empty name. -/
def TestsAlone : At → Prop
  | .finding r => r.permitted = true → r.dmlink = false →
    r.name ≠ cstr "" ∧ ∀ u, (s.at_ u).clashes r = false
  | _ => True

/-- Each test is made alone, and the permitted renames are ones to `".."` of other files than the
root. -/
def Settled : Event Thread → Prop
  | .create .. => True
  | .rename _ r => r.permitted = true → r.name = dotdot ∧ s.parent r ≠ r.file
  | .go t => s.TestsAlone (s.at_ t)

/-! ## One step -/

variable {s} {s' : Tree Thread} {t u : Thread} {at_ : At} {dir f : ℕ} {name : CStr}

theorem at_move (s : Tree Thread) (t u : Thread) (at_ : At) :
    (s.move t at_).at_ u = if u = t then at_ else s.at_ u := update_apply s.at_ t at_ u

omit [DecidableEq Thread] in
theorem mem_names : name ∈ s.names dir ↔
    ∃ child ∈ (s.file dir).children, (s.file child).name = name := by
  simp [names]

omit [DecidableEq Thread] in
theorem dotdot_or_mem_of_npfileFind {child : ℕ}
    (found : s.npfileFind dir name = some (some child)) : name = dotdot ∨ name ∈ s.names dir := by
  unfold npfileFind at found
  split_ifs at found with up
  · exact .inl up
  · have same := List.find?_some (Option.some.inj found)
    have mem := List.mem_of_find?_eq_some (Option.some.inj found)
    exact .inr (mem_names.mpr ⟨child, mem, by simpa using same⟩)

omit [DecidableEq Thread] in
theorem of_npfileFind_none (found : s.npfileFind dir name = some none) :
    name ≠ dotdot ∧ name ∉ s.names dir ∧ s.lock dir = none := by
  unfold npfileFind at found
  split_ifs at found with up free
  · simp at found
  refine ⟨up, fun mem => ?_, by simpa using (Bool.and_eq_true_iff.mp free).1⟩
  obtain ⟨child, mem, same⟩ := mem_names.mp mem
  have other := List.find?_eq_none.mp (Option.some.inj found) child mem
  exact other (by simpa using same)

/-- The locks of a thread. -/
def held (s : Tree Thread) (t : Thread) : List ℕ :=
  match s.at_ t with
  | .entering r => [r.file]
  | .naming r => [s.parent r, r.file]
  | _ => []

/-- The locks are held by the threads that have taken them. -/
def Held (s : Tree Thread) : Prop := ∀ t f, s.lock f = some t ↔ f ∈ s.held t

/-- What a step does. -/
inductive Effect (s : Tree Thread) : Event Thread → Tree Thread → Prop
  | create {t : Thread} {r : Create} (idle : s.at_ t = .idle) (known : r.dir < s.qidpath) :
      Effect s (.create t r) (s.move t (.finding r))
  | rename {t : Thread} {r : Rename} (idle : s.at_ t = .idle) (known : r.file < s.qidpath) :
      Effect s (.rename t r) (s.move t (.statting r))
  | exist {t : Thread} {r : Create} (stood : s.at_ t = .finding r)
      (why : r.name = dot ∨ r.name = dotdot ∨ r.name ∈ s.names r.dir) :
      Effect s (.go t) (s.reply t r.dir r.name (some Eexist))
  | refuse {t : Thread} {dir : ℕ} {name : CStr} (free : s.held t = []) :
      Effect s (.go t) (s.reply t dir name (some Eperm))
  | test {t : Thread} {r : Create} (stood : s.at_ t = .finding r) (permitted : r.permitted = true)
      (absent : r.name ∉ s.names r.dir) (proper : r.name ≠ dot ∧ r.name ≠ dotdot) :
      Effect s (.go t) (s.move t (.creating r))
  | insert {t : Thread} {r : Create} (stood : s.at_ t = .creating r) (link : r.dmlink = false) :
      Effect s (.go t) ((s.rfsCreate r).reply t r.dir r.name none)
  | lockFile {t : Thread} {r : Rename} (stood : s.at_ t = .statting r)
      (permitted : r.permitted = true) (free : s.lock r.file = none) :
      Effect s (.go t) ((s.locked r.file t).move t (.entering r))
  | lockParent {t : Thread} {r : Rename} (stood : s.at_ t = .entering r)
      (free : s.lock (s.parent r) = none) :
      Effect s (.go t) ((s.locked (s.parent r) t).move t (.naming r))
  | keep {t : Thread} {r : Rename} (stood : s.at_ t = .naming r)
      (why : r.name = dotdot ∨ r.name ∈ s.names (s.parent r)) :
      Effect s (.go t) ((s.unlocked r).reply t (s.parent r) r.name (some Eexist))

/-- `rfs_wstat` has locked the directory that `npfile_find` is to lock again. -/
theorem go_naming (held : s.Held) {r : Rename} (stood : s.at_ t = .naming r)
    (other : r.name ≠ dotdot) : s.go t = none := by
  have own : s.lock (s.parent r) = some t := (held t _).mpr (by simp [Tree.held, stood])
  simp [go, stood, npfileFind, other, own]

theorem effect_of_go (held : s.Held) (taken : s.go t = some s') : Effect s (.go t) s' := by
  cases stood : s.at_ t with
  | idle => simp [go, stood] at taken
  | finding r =>
      simp only [go, stood] at taken
      obtain ⟨found, find, result⟩ := Option.map_eq_some_iff.mp taken
      cases found with
      | some child =>
          simp only [Option.isSome_some, if_true] at result
          subst result
          exact .exist stood (.inr (dotdot_or_mem_of_npfileFind find))
      | none =>
          obtain ⟨up, absent, -⟩ := of_npfileFind_none find
          simp only [Option.isSome_none, Bool.false_eq_true, if_false] at result
          split_ifs at result with special refused
          · subst result
            exact .exist stood (special.imp id .inl)
          · subst result
            exact .refuse (by simp [Tree.held, stood])
          · subst result
            exact .test stood (by simpa using refused) absent (not_or.mp special)
  | creating r =>
      simp only [go, stood] at taken
      split_ifs at taken with busy link
      · cases taken
        exact .refuse (by simp [Tree.held, stood])
      · cases taken
        exact .insert stood (by simpa using link)
  | statting r =>
      simp only [go, stood] at taken
      split_ifs at taken with busy refused
      · cases taken
        exact .refuse (by simp [Tree.held, stood])
      · cases taken
        exact .lockFile stood (by simpa using refused) (by simpa using busy)
  | entering r =>
      simp only [go, stood] at taken
      split_ifs at taken with busy
      cases taken
      exact .lockParent stood (by simpa using busy)
  | naming r =>
      by_cases up : r.name = dotdot
      · simp only [go, stood, npfileFind, up, if_true, Option.map_some, Option.isSome_some,
          Option.some.injEq] at taken
        subst taken
        rw [← up]
        exact .keep stood (.inl up)
      · simp [go_naming held stood up] at taken

theorem effect_of_step (held : s.Held) {event : Event Thread} (taken : s.step event = some s') :
    Effect s event s' := by
  cases event with
  | create t r =>
      simp only [step] at taken
      split at taken
      · rename_i idle
        split_ifs at taken with known
        cases taken
        exact .create idle known.1
      · cases taken
  | rename t r =>
      simp only [step] at taken
      split at taken
      · rename_i idle
        split_ifs at taken with known
        cases taken
        exact .rename idle known
      · cases taken
  | go t => exact effect_of_go held taken

/-! ## Locks -/

omit [DecidableEq Thread] in
theorem held_start : (start : Tree Thread).Held := by
  simp [start, held, Held]

/-- The files that a thread works on are in the tree, and so are the children of the directories. -/
structure Grown (s : Tree Thread) : Prop where
  known : ∀ t f, (s.at_ t).file? = some f → f < s.qidpath
  below : ∀ dir, ∀ child ∈ (s.file dir).children, child < s.qidpath
  unborn : ∀ dir, s.qidpath ≤ dir → (s.file dir).children = []

omit [DecidableEq Thread] in
theorem grown_start : (start : Tree Thread).Grown where
  known := by simp [start, At.file?]
  below := by simp [start]
  unborn := by simp [start]

/-- A thread goes on with the files of the request that it had. -/
theorem Grown.move (grown : s.Grown) (inside : ∀ f, at_.file? = some f → f < s.qidpath) :
    (s.move t at_).Grown where
  known u f working := by
    rw [at_move] at working
    split_ifs at working
    · exact inside f working
    · exact grown.known u f working
  below := grown.below
  unborn := grown.unborn

theorem Grown.reply (grown : s.Grown) {ename : Option CStr} : (s.reply t dir name ename).Grown :=
  Grown.move ⟨grown.1, grown.2, grown.3⟩ (by simp [At.file?])

omit [DecidableEq Thread] in
theorem file_rfsCreate (s : Tree Thread) (r : Create) (f : ℕ) :
    (s.rfsCreate r).file f =
      if f = r.dir then { s.file r.dir with children := (s.file r.dir).children ++ [s.qidpath] }
      else if f = s.qidpath then npfileAlloc r else s.file f := by
  simp [rfsCreate, update_apply]

omit [DecidableEq Thread] in
theorem children_rfsCreate (s : Tree Thread) (r : Create)
    (unborn : (s.file s.qidpath).children = []) (f : ℕ) :
    ((s.rfsCreate r).file f).children =
      if f = r.dir then (s.file f).children ++ [s.qidpath] else (s.file f).children := by
  rw [file_rfsCreate s r]
  split_ifs with same fresh
  · rw [same]
  · rw [fresh, unborn]
    rfl
  · rfl

omit [DecidableEq Thread] in
/-- The files of the tree keep their names and parents. -/
theorem kept_rfsCreate (s : Tree Thread) (r : Create)
    (old : f < s.qidpath) : ((s.rfsCreate r).file f).name = (s.file f).name ∧
      ((s.rfsCreate r).file f).parent = (s.file f).parent := by
  rw [file_rfsCreate s r]
  split_ifs with same fresh
  · rw [same]
    exact ⟨rfl, rfl⟩
  · omega
  · exact ⟨rfl, rfl⟩

omit [DecidableEq Thread] in
theorem Grown.rfsCreate (grown : s.Grown) {r : Create} (inside : r.dir < s.qidpath) :
    (s.rfsCreate r).Grown where
  known u f working := (grown.known u f working).trans (Nat.lt_succ_self _)
  below dir child mem := by
    change child < s.qidpath + 1
    rw [children_rfsCreate s r (grown.unborn _ le_rfl)] at mem
    split_ifs at mem
    · rcases List.mem_append.mp mem with mem | mem
      · exact (grown.below dir child mem).trans (Nat.lt_succ_self _)
      · rw [List.mem_singleton.mp mem]
        exact Nat.lt_succ_self _
    · exact (grown.below dir child mem).trans (Nat.lt_succ_self _)
  unborn dir beyond := by
    have past : s.qidpath + 1 ≤ dir := beyond
    rw [children_rfsCreate s r (grown.unborn _ le_rfl), if_neg (by omega)]
    exact grown.unborn dir (by omega)

theorem Grown.of_effect (grown : s.Grown) {event : Event Thread} (effect : Effect s event s') :
    s'.Grown := by
  cases effect with
  | create idle known => exact grown.move (by simp [At.file?, known])
  | rename idle known => exact grown.move (by simp [At.file?, known])
  | exist | refuse => exact grown.reply
  | @test t r stood => exact grown.move fun f working => grown.known t f (by rwa [stood])
  | @insert t r stood => exact (grown.rfsCreate (grown.known t _ (by rw [stood]; rfl))).reply
  | @lockFile t r stood =>
      have same : (s.locked r.file t).Grown := ⟨grown.1, grown.2, grown.3⟩
      exact same.move fun f working => grown.known t f (by rwa [stood])
  | @lockParent t r stood =>
      have same : (s.locked (s.parent r) t).Grown := ⟨grown.1, grown.2, grown.3⟩
      exact same.move fun f working => grown.known t f (by rwa [stood])
  | @keep t r stood =>
      have same : (s.unlocked r).Grown := ⟨grown.1, grown.2, grown.3⟩
      exact same.reply

omit [DecidableEq Thread] in
/-- A thread that stays where it is keeps its locks as long as its file keeps its parent. -/
theorem held_congr (stays : s'.at_ u = s.at_ u)
    (parents : ∀ r : Rename, (s.at_ u).file? = some r.file → s'.parent r = s.parent r) :
    s'.held u = s.held u := by
  unfold held
  rw [stays]
  cases stood : s.at_ u with
  | naming r => simp only [parents r (by rw [stood]; rfl)]
  | _ => rfl

/-- One thread goes on, and the others keep their locks. -/
theorem Held.of_others (held : s.Held) (stays : ∀ u, u ≠ t → s'.at_ u = s.at_ u)
    (parents : ∀ u, ∀ r : Rename, (s.at_ u).file? = some r.file → s'.parent r = s.parent r)
    (others : ∀ u, u ≠ t → ∀ f, s'.lock f = some u ↔ s.lock f = some u)
    (own : ∀ f, s'.lock f = some t ↔ f ∈ s'.held t) : s'.Held := by
  intro u f
  by_cases same : u = t
  · rw [same]
    exact own f
  · rw [others u same f, held u f, held_congr (stays u same) (parents u)]

theorem move_of_ne (s : Tree Thread) (at_ : At) (other : u ≠ t) :
    (s.move t at_).at_ u = s.at_ u := by
  rw [at_move, if_neg other]

/-- A thread without locks goes on to a place where it needs none. -/
theorem Held.move (held : s.Held) (before : s.held t = [])
    (after : (s.move t at_).held t = []) : (s.move t at_).Held := by
  refine held.of_others (fun u other => move_of_ne s at_ other) (fun _ _ _ => rfl)
    (fun _ _ _ => Iff.rfl) fun f => ?_
  rw [after, ← before]
  exact held t f

/-- A thread takes a further lock. -/
theorem Held.lock (held : s.Held) (free : s.lock f = none)
    (after : ((s.locked f t).move t at_).held t = f :: s.held t) :
    ((s.locked f t).move t at_).Held := by
  refine held.of_others (t := t) (fun u other => move_of_ne _ at_ other) (fun _ _ _ => rfl)
    (fun u other g => ?_) fun g => ?_
  · change update s.lock f (some t) g = some u ↔ _
    rw [update_apply]
    split_ifs with same
    · simp [same, free, Ne.symm other]
    · rfl
  · change update s.lock f (some t) g = some t ↔ _
    rw [after, update_apply, List.mem_cons, ← held t g]
    split_ifs with same
    · simp [same]
    · simp [same]

/-- A rename gives both locks back. -/
theorem Held.unlock (held : s.Held) {r : Rename} (stood : s.at_ t = .naming r)
    {replies : List Reply} : ({ s.unlocked r with replies }.move t .idle).Held := by
  have own : ∀ g, s.lock g = some t ↔ g ∈ [s.parent r, r.file] := by
    intro g
    rw [held t g, Tree.held, stood]
  have lock : ∀ g, (s.unlocked r).lock g =
      if g = r.file then none else if g = s.parent r then none else s.lock g := by
    simp [unlocked, update_apply]
  refine held.of_others (t := t) (fun u other => move_of_ne _ .idle other) (fun _ _ _ => rfl)
    (fun u other g => ?_) fun g => ?_
  · change (s.unlocked r).lock g = some u ↔ _
    rw [lock]
    split_ifs with file dir
    · simp [(own g).mpr (by simp [file]), Ne.symm other]
    · simp [(own g).mpr (by simp [dir]), Ne.symm other]
    · rfl
  · change (s.unlocked r).lock g = some t ↔ _
    rw [lock]
    split_ifs with file dir
    · simp [at_move, Tree.held]
    · simp [at_move, Tree.held]
    · simp [own, file, dir, at_move, Tree.held]

theorem Held.of_effect (held : s.Held) (grown : s.Grown) {event : Event Thread}
    (effect : Effect s event s') : s'.Held := by
  cases effect with
  | create idle | rename idle =>
      exact held.move (by simp [Tree.held, idle]) (by simp [Tree.held, at_move])
  | exist stood =>
      have same : ∀ replies, ({ s with replies } : Tree Thread).Held := fun _ => held
      exact (same _).move (by simp [Tree.held, stood]) (by simp [Tree.held, at_move])
  | refuse free =>
      have same : ∀ replies, ({ s with replies } : Tree Thread).Held := fun _ => held
      exact (same _).move free (by simp [Tree.held, at_move])
  | test stood => exact held.move (by simp [Tree.held, stood]) (by simp [Tree.held, at_move])
  | @insert t r stood =>
      refine held.of_others (t := t) (fun u other => move_of_ne _ .idle other) (fun u r' work => ?_)
        (fun _ _ _ => Iff.rfl) fun f => ?_
      · exact (kept_rfsCreate s r (grown.known u _ work)).2
      · refine (held t f).trans ?_
        simp [Tree.held, stood, at_move, reply]
  | lockFile stood permitted free =>
      exact held.lock free (by simp [Tree.held, stood, at_move])
  | lockParent stood free =>
      exact held.lock free (by simp [Tree.held, stood, parent, locked, Tree.move])
  | keep stood => exact held.unlock stood

/-- The locks and the files in every run. -/
theorem grown_of_run {guard : Tree Thread → Event Thread → Prop}
    (run : Transition.Reaches step guard start s) : s.Grown ∧ s.Held := by
  refine run.invariant (fun s => s.Grown ∧ s.Held) ⟨grown_start, held_start⟩ ?_
  intro s s' event sound _ taken
  have effect := effect_of_step sound.2 taken
  exact ⟨sound.1.of_effect effect, sound.2.of_effect sound.1 effect⟩

/-- A rename that is permitted is never answered, whatever the other threads do, unless its name is
`".."`: no step of its thread can be taken. -/
theorem stuck_of_naming {guard : Tree Thread → Event Thread → Prop}
    (run : Transition.Reaches step guard start s) {r : Rename} (stood : s.at_ t = .naming r)
    (other : r.name ≠ dotdot) : s.step (.go t) = none :=
  go_naming (grown_of_run run).2 stood other

/-! ## Names -/

/-- What holds of the names as long as each step is settled. -/
structure Named (s : Tree Thread) : Prop where
  nodup : ∀ dir, (s.names dir).Nodup
  proper : ∀ dir, ∀ name ∈ s.names dir, Proper name
  counted : ∀ dir name, s.replies.count ⟨dir, name, none⟩ = (s.names dir).count name
  answered : ∀ r ∈ s.replies,
    r.ename = some Eperm ∨ r.name = dot ∨ r.name = dotdot ∨ r.name ∈ s.names r.dir
  absent : ∀ t r, (s.at_ t).insert? = some r → r.name ∉ s.names r.dir ∧ Proper r.name
  alone : ∀ t u r r', (s.at_ t).insert? = some r → (s.at_ u).insert? = some r' →
    r'.dir = r.dir → r'.name = r.name → u = t
  tame : ∀ t r, (s.at_ t).rename? = some r → r.name = dotdot ∧ s.parent r ≠ r.file

omit [DecidableEq Thread] in
theorem named_start : (start : Tree Thread).Named where
  nodup := by simp [start, names]
  proper := by simp [start, names]
  counted := by simp [start, names]
  answered := by simp [start]
  absent := by simp [start, At.insert?]
  alone := by simp [start, At.insert?]
  tame := by simp [start, At.rename?]

omit [DecidableEq Thread] in
theorem ne_of_not_clashes {r r' : Create} (clear : at_.clashes r = false)
    (ahead : at_.insert? = some r') (dir : r'.dir = r.dir) : r'.name ≠ r.name := by
  intro same
  simp [At.clashes, ahead, dir, same] at clear

namespace Named

/-- A thread goes on, and inserts no file next. -/
theorem go (named : s.Named) (lock : ℕ → Option Thread) (none : at_.insert? = none)
    (tame : ∀ r, at_.rename? = some r → r.name = dotdot ∧ s.parent r ≠ r.file) :
    ({ s with lock }.move t at_).Named := by
  have before : ∀ u r, (({ s with lock } : Tree Thread).move t at_ |>.at_ u).insert? = some r →
      (s.at_ u).insert? = some r := by
    intro u r ahead
    rw [at_move] at ahead
    split_ifs at ahead
    · simp [none] at ahead
    · exact ahead
  exact
    { nodup := named.nodup
      proper := named.proper
      counted := named.counted
      answered := named.answered
      absent := fun u r ahead => named.absent u r (before u r ahead)
      alone := fun u v r r' front back => named.alone u v r r' (before u r front) (before v r' back)
      tame := fun u r work => by
        rw [at_move] at work
        split_ifs at work
        · exact tame r work
        · exact named.tame u r work }

omit [DecidableEq Thread] in
/-- An error is reported. -/
theorem refuse (named : s.Named) {error : CStr}
    (why : error = Eperm ∨ name = dot ∨ name = dotdot ∨ name ∈ s.names dir) :
    ({ s with replies := ⟨dir, name, some error⟩ :: s.replies } : Tree Thread).Named :=
  { named with
    counted := fun dir' name' => by
      refine Eq.trans ?_ (named.counted dir' name')
      simp
    answered := fun r mem => by
      rcases List.mem_cons.mp mem with same | mem
      · rw [same]
        exact why.imp (congrArg some) id
      · exact named.answered r mem }

/-- A request makes its test when no other one is about to insert the name. -/
theorem test (named : s.Named) {r : Create} (absent : r.name ∉ s.names r.dir)
    (special : r.name ≠ dot ∧ r.name ≠ dotdot)
    (settled : r.dmlink = false → r.name ≠ cstr "" ∧ ∀ u, (s.at_ u).clashes r = false) :
    (s.move t (.creating r)).Named := by
  have ahead : ∀ u r', ((s.move t (.creating r)).at_ u).insert? = some r' →
      (u = t ∧ r' = r ∧ r.dmlink = false) ∨ (s.at_ u).insert? = some r' := by
    intro u r' ahead
    rw [at_move] at ahead
    split_ifs at ahead with same
    · left
      simp only [At.insert?] at ahead
      split_ifs at ahead with link
      exact ⟨same, (Option.some.inj ahead).symm, by simpa using link⟩
    · exact .inr ahead
  exact
    { nodup := named.nodup
      proper := named.proper
      counted := named.counted
      answered := named.answered
      absent := fun u r' front => by
        rcases ahead u r' front with ⟨-, rfl, link⟩ | old
        · exact ⟨absent, special.1, special.2, (settled link).1⟩
        · exact named.absent u r' old
      alone := fun u v r₁ r₂ front back dir name => by
        rcases ahead u r₁ front with ⟨rfl, rfl, link⟩ | first
        · rcases ahead v r₂ back with ⟨rfl, -, -⟩ | second
          · rfl
          · exact absurd name (ne_of_not_clashes ((settled link).2 v) second dir)
        · rcases ahead v r₂ back with ⟨rfl, rfl, link⟩ | second
          · exact absurd name.symm (ne_of_not_clashes ((settled link).2 u) first dir.symm)
          · exact named.alone u v r₁ r₂ first second dir name
      tame := fun u r' work => by
        rw [at_move] at work
        split_ifs at work
        · simp [At.rename?] at work
        · exact named.tame u r' work }

end Named

omit [DecidableEq Thread] in
theorem names_rfsCreate (grown : s.Grown) {r : Create} (inside : r.dir < s.qidpath) (dir : ℕ) :
    (s.rfsCreate r).names dir =
      if dir = r.dir then s.names dir ++ [r.name] else s.names dir := by
  have fresh : ((s.rfsCreate r).file s.qidpath).name = r.name := by
    rw [file_rfsCreate, if_neg (by omega), if_pos rfl]
    rfl
  have old : ∀ f, (s.file f).children.map (fun child => ((s.rfsCreate r).file child).name) =
      s.names f := fun f =>
    List.map_congr_left fun child mem => (kept_rfsCreate s r (grown.below f child mem)).1
  unfold names
  rw [children_rfsCreate s r (grown.unborn _ le_rfl)]
  split_ifs
  · rw [List.map_append, old, List.map_singleton, fresh]
    rfl
  · exact old dir

/-- The file is inserted. -/
theorem Named.insert (named : s.Named) (grown : s.Grown) {r : Create}
    (stood : s.at_ t = .creating r) (link : r.dmlink = false) :
    ((s.rfsCreate r).reply t r.dir r.name none).Named := by
  have inside := grown.known t r.dir (by rw [stood]; rfl)
  have mine : (s.at_ t).insert? = some r := by simp [stood, At.insert?, link]
  obtain ⟨absent, proper⟩ := named.absent t r mine
  have names : ∀ dir, ((s.rfsCreate r).reply t r.dir r.name none).names dir =
      if dir = r.dir then s.names dir ++ [r.name] else s.names dir := names_rfsCreate grown inside
  have at_ : ∀ u, ((s.rfsCreate r).reply t r.dir r.name none).at_ u =
      if u = t then .idle else s.at_ u := fun u => at_move _ t u .idle
  have more : ∀ {dir name}, name ∈ s.names dir →
      name ∈ ((s.rfsCreate r).reply t r.dir r.name none).names dir := by
    intro dir name mem
    rw [names]
    split_ifs
    · exact List.mem_append_left _ mem
    · exact mem
  exact
    { nodup := fun dir => by
        rw [names]
        split_ifs with same
        · rw [same]
          simpa [List.nodup_append, named.nodup] using fun a mem => ne_of_mem_of_not_mem mem absent
        · exact named.nodup dir
      proper := fun dir name mem => by
        rw [names] at mem
        split_ifs at mem
        · rcases List.mem_append.mp mem with mem | mem
          · exact named.proper dir name mem
          · rw [List.mem_singleton.mp mem]
            exact proper
        · exact named.proper dir name mem
      counted := fun dir name => by
        change List.count _ (⟨r.dir, r.name, none⟩ :: s.replies) = _
        rw [names, List.count_cons, named.counted]
        split_ifs with same own own <;> simp_all
      answered := fun reply mem => by
        rcases List.mem_cons.mp mem with same | mem
        · rw [same]
          refine .inr (.inr (.inr ?_))
          rw [names, if_pos rfl]
          simp
        · exact (named.answered reply mem).imp_right (Or.imp_right (Or.imp_right more))
      absent := fun u r' ahead => by
        rw [at_] at ahead
        split_ifs at ahead with same
        · cases ahead
        · obtain ⟨out, fit⟩ := named.absent u r' ahead
          refine ⟨?_, fit⟩
          rw [names]
          split_ifs with dir
          · intro mem
            rcases List.mem_append.mp mem with mem | mem
            · exact out mem
            · exact same (named.alone t u r r' mine ahead dir (List.mem_singleton.mp mem))
          · exact out
      alone := fun u v r₁ r₂ front back => by
        rw [at_] at front back
        split_ifs at front back
        · cases front
        · cases front
        · cases back
        · exact named.alone u v r₁ r₂ front back
      tame := fun u r' work => by
        rw [at_] at work
        split_ifs at work
        · cases work
        · have old := grown.known u r'.file (by
            cases stood : s.at_ u <;> simp_all [At.rename?, At.file?])
          have parent : ((s.rfsCreate r).reply t r.dir r.name none).parent r' = s.parent r' :=
            (kept_rfsCreate s r old).2
          rw [parent]
          exact named.tame u r' work }

theorem Named.of_effect (named : s.Named) (grown : s.Grown) {event : Event Thread}
    (effect : Effect s event s') (settled : s.Settled event) : s'.Named := by
  cases effect with
  | create => exact named.go s.lock rfl (by simp [At.rename?])
  | @rename t r =>
      refine named.go s.lock rfl fun r' work => ?_
      simp only [At.rename?] at work
      split_ifs at work with permitted
      obtain rfl := Option.some.inj work
      exact settled permitted
  | exist stood why => exact (named.refuse (.inr why)).go _ rfl (by simp [At.rename?])
  | refuse => exact (named.refuse (.inl rfl)).go _ rfl (by simp [At.rename?])
  | test stood permitted absent special =>
      simp only [Settled, TestsAlone, stood] at settled
      exact named.test absent special (settled permitted)
  | insert stood link => exact named.insert grown stood link
  | @lockFile t r stood permitted =>
      refine named.go _ rfl fun r' work => ?_
      exact named.tame t r' (by simpa [stood, At.rename?, permitted] using work)
  | @lockParent t r stood =>
      refine named.go _ rfl fun r' work => ?_
      exact named.tame t r' (by simpa [stood, At.rename?] using work)
  | @keep t r stood =>
      obtain ⟨up, -⟩ := named.tame t r (by simp [stood, At.rename?])
      exact (named.refuse (.inr (.inr (.inl up)))).go _ rfl (by simp [At.rename?])

omit [DecidableEq Thread] in
theorem Named.unique (named : s.Named) (held : s.Held) : s.Unique where
  nodup := named.nodup
  proper := named.proper
  one r mem served dot dotdot := by
    have answer := named.answered r mem
    have present : r.name ∈ s.names r.dir := by simpa [served, dot, dotdot] using answer
    rw [named.counted]
    exact List.count_eq_one_of_mem (named.nodup r.dir) present
  served t f needed own := by
    have mine := (held t f).mp own
    unfold awaits at needed
    unfold Tree.held at mine
    split at needed <;> rename_i stood
    · cases needed
    · simp [stood] at mine
    · simp [stood] at mine
    · simp [stood] at mine
    · rename_i r
      obtain ⟨-, other⟩ := named.tame t r (by simp [stood, At.rename?])
      simp only [stood, List.mem_singleton] at mine
      exact other ((Option.some.inj needed).trans mine)
    · rename_i r
      obtain ⟨up, -⟩ := named.tame t r (by simp [stood, At.rename?])
      simp [up] at needed

/-- In every run in which each step is settled, names are unique. -/
theorem unique_of_run (run : Transition.Reaches step Settled start s) : s.Unique := by
  have sound : s.Named ∧ s.Grown ∧ s.Held := by
    refine run.invariant (fun s => s.Named ∧ s.Grown ∧ s.Held)
      ⟨named_start, grown_start, held_start⟩ ?_
    intro s s' event sound settled taken
    obtain ⟨named, grown, held⟩ := sound
    have effect := effect_of_step held taken
    exact ⟨named.of_effect grown effect settled, grown.of_effect effect,
      held.of_effect grown effect⟩
  exact sound.1.unique sound.2.2

/-! ## Two requests for one name -/

/-- A request to make the file `a` in the root. -/
def createA : Create := ⟨0, cstr "a", false, false, true⟩

/-- Two threads make their tests before either inserts its file. -/
theorem not_unique_of_run :
    ¬ ∀ s : Tree Bool, Transition.Reaches step (fun _ _ => True) start s → s.Unique := by
  intro unique
  let played := Transition.play step (fun _ _ => True) (start : Tree Bool)
    [.create false createA, .create true createA, .go false, .go true, .go false, .go true]
  have run := Transition.reaches_of_play (Option.some_get (show played.isSome from rfl)).symm
  have twice := (unique _ run).nodup 0
  exact absurd twice (by decide)

instance [Fintype Thread] (s : Tree Thread) : ∀ at_, Decidable (s.TestsAlone at_)
  | .finding r => inferInstanceAs (Decidable (r.permitted = true → r.dmlink = false →
      r.name ≠ cstr "" ∧ ∀ u, (s.at_ u).clashes r = false))
  | .idle | .creating _ | .statting _ | .entering _ | .naming _ => .isTrue trivial

instance [Fintype Thread] (s : Tree Thread) : ∀ event, Decidable (s.Settled event)
  | .create .. => .isTrue trivial
  | .rename _ r => inferInstanceAs
      (Decidable (r.permitted = true → r.name = dotdot ∧ s.parent r ≠ r.file))
  | .go t => inferInstanceAs (Decidable (s.TestsAlone (s.at_ t)))

/-- The second thread makes its test when the first has inserted its file. -/
theorem unique_of_run_turns : ∃ s : Tree Bool, Transition.Reaches step Settled start s ∧
    s.names 0 = [cstr "a"] ∧ s.Unique := by
  let played := Transition.play step Settled (start : Tree Bool)
    [.create false createA, .create true createA, .go false, .go false, .go true]
  have run := Transition.reaches_of_play (Option.some_get (show played.isSome from rfl)).symm
  exact ⟨_, run, rfl, unique_of_run run⟩

end Tree

end Npfs.NameRace
