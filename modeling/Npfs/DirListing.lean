import Npfs.DoublyLinked
import Npfs.Transition
import Npfs.Fid

/-!
# Listing a directory while it changes

Fids list the directories of a tree while others create and remove files: `npfile_read`,
`npfile_create`, `npfile_remove`, `npfile_wstat` and `npfile_walk` of `libnpfs/file.c` over
`rfs_first`, `rfs_next`, `rfs_create` and `rfs_remove` of `fs/ramfs2.c`.  A request is one step,
except that `npfile_remove` makes its tests and removes the file under different locks.
-/

namespace Npfs.DirListing

open Function DoublyLinked

/-- `Enotempty`. -/
def Enotempty : CStr := cstr "directory not empty"

/-- `Enotfound`. -/
def Enotfound : CStr := cstr "file not found"

/-! ## Entries of a listing -/

/-- The lengths of the strings of a file that an entry contains. -/
structure Texts where
  name : ℕ
  uid : ℕ
  gid : ℕ
  muid : ℕ
  extension : ℕ

/-- What `buf_put_wstat` asks `buf_check_size` for, call by call. -/
def widths (dotu : Bool) (texts : Texts) : List ℕ :=
  [2, 2, 4, 1, 4, 8, 4, 4, 4, 8, 2 + texts.name, 2 + texts.uid, 2 + texts.gid, 2 + texts.muid] ++
    if dotu then [2 + texts.extension, 4, 4, 4] else []

/-- `size_wstat`. -/
def sizeWstat (dotu : Bool) (texts : Texts) : ℕ :=
  2 + 4 + 13 + 4 + 4 + 4 + 8 + 8 + texts.name + texts.uid + texts.gid + texts.muid +
    if dotu then 4 + 4 + 4 + 2 + texts.extension else 0

/-- The cursor after the calls of `buf_check_size`, in a buffer that ends at `ep`. -/
def putAll (ep : ℕ) : ℕ → List ℕ → ℕ
  | p, [] => p
  | p, width :: rest =>
    putAll ep (if ep < p + width then (if p < ep then ep + 1 else p) else p + width) rest

/-- `np_serialize_stat`: how many bytes are stored. -/
def npSerializeStat (dotu : Bool) (texts : Texts) (buflen : ℕ) : ℕ :=
  if buflen < sizeWstat dotu texts then 0
  else
    let p := putAll buflen 0 (widths dotu texts)
    if buflen < p then 0 else p

/-- The size of a whole entry. -/
def entrySize (dotu : Bool) (texts : Texts) : ℕ := (widths dotu texts).sum

/-- A failed `buf_check_size` that finds the cursor right at the end leaves no trace; that happens
at most to an entry whose last string is empty. -/
def Closed (dotu : Bool) (texts : Texts) : Prop := dotu = true ∨ 0 < texts.muid

theorem entrySize_eq (dotu : Bool) (texts : Texts) :
    entrySize dotu texts = sizeWstat dotu texts + 2 := by
  cases dotu
  all_goals
    simp only [entrySize, widths, sizeWstat, Bool.false_eq_true, if_true, if_false, List.append_nil,
      List.cons_append, List.nil_append, List.sum_cons, List.sum_nil]
    omega

theorem putAll_of_fits {ep p : ℕ} {ws : List ℕ} (fits : p + ws.sum ≤ ep) :
    putAll ep p ws = p + ws.sum := by
  induction ws generalizing p with
  | nil => rfl
  | cons width rest ih =>
      rw [List.sum_cons] at fits ⊢
      rw [putAll, if_neg (by omega), ih (by omega)]
      omega

theorem putAll_append (ep p : ℕ) (front back : List ℕ) :
    putAll ep p (front ++ back) = putAll ep (putAll ep p front) back := by
  induction front generalizing p with
  | nil => rfl
  | cons width rest ih => exact ih _

/-- Without room for the last two bytes the last field goes beyond the end. -/
theorem lt_putAll {ep : ℕ} {front : List ℕ} {width : ℕ} (wide : 2 < width)
    (enough : front.sum + width ≤ ep + 2) (short : ep < front.sum + width) :
    ep < putAll ep 0 (front ++ [width]) := by
  have inside : putAll ep 0 front = front.sum := by
    rw [putAll_of_fits (by omega), Nat.zero_add]
  rw [putAll_append, inside, putAll, putAll, if_pos short, if_pos (by omega)]
  exact Nat.lt_succ_self ep

/-- The fields of an entry before the last one, and the last one. -/
theorem widths_eq (dotu : Bool) (texts : Texts) : ∃ front width,
    widths dotu texts = front ++ [width] ∧ (Closed dotu texts → 2 < width) := by
  cases dotu with
  | true =>
      refine ⟨[2, 2, 4, 1, 4, 8, 4, 4, 4, 8, 2 + texts.name, 2 + texts.uid, 2 + texts.gid,
        2 + texts.muid, 2 + texts.extension, 4, 4], 4, by simp [widths], fun _ => by omega⟩
  | false =>
      refine ⟨[2, 2, 4, 1, 4, 8, 4, 4, 4, 8, 2 + texts.name, 2 + texts.uid, 2 + texts.gid],
        2 + texts.muid, by simp [widths], fun closed => ?_⟩
      simp only [Closed, Bool.false_eq_true, false_or] at closed
      omega

theorem npSerializeStat_of_fits {dotu : Bool} {texts : Texts} {buflen : ℕ}
    (fits : entrySize dotu texts ≤ buflen) :
    npSerializeStat dotu texts buflen = entrySize dotu texts := by
  have whole := putAll_of_fits (p := 0) (show 0 + (widths dotu texts).sum ≤ buflen by
    rw [Nat.zero_add]
    exact fits)
  rw [Nat.zero_add] at whole
  have size := entrySize_eq dotu texts
  rw [npSerializeStat, if_neg (by omega), whole]
  exact if_neg (by unfold entrySize at fits; omega)

/-- An entry is stored as a whole or not at all. -/
theorem npSerializeStat_of_short {dotu : Bool} {texts : Texts} {buflen : ℕ}
    (closed : Closed dotu texts) (short : buflen < entrySize dotu texts) :
    npSerializeStat dotu texts buflen = 0 := by
  have size := entrySize_eq dotu texts
  by_cases tiny : buflen < sizeWstat dotu texts
  · rw [npSerializeStat, if_pos tiny]
  · obtain ⟨front, width, fields, wide⟩ := widths_eq dotu texts
    have sum : front.sum + width = entrySize dotu texts := by simp [entrySize, fields]
    rw [npSerializeStat, if_neg tiny, fields]
    exact if_pos (lt_putAll (wide closed) (by omega) (by omega))

/-! ## The loop of `npfile_read` -/

section Loop

variable (texts : ℕ → Texts) (dotu : Bool) (next : ℕ → Option ℕ) (count : ℕ)

/-- The loop of `npfile_read`, from `n` bytes and the child `cf` on: the bytes and the child at its
end, and the children that were stored as a whole.  No turn stores less than one byte, so `count`
turns are enough. -/
def readLoop : ℕ → ℕ → Option ℕ → ℕ × Option ℕ × List ℕ
  | 0, n, cf => (n, cf, [])
  | _ + 1, n, none => (n, none, [])
  | turns + 1, n, some cf =>
    if n < count then
      let i := npSerializeStat dotu (texts cf) (count - n - 1)
      if i = 0 then (n, some cf, [])
      else
        let (n, cf', stored) := readLoop turns (n + i) (next cf)
        (n, cf', if i = entrySize dotu (texts cf) then cf :: stored else stored)
    else (n, some cf, [])

variable {texts dotu next count}

/-- Along a list of children each one is stored, up to where the loop ends. -/
theorem readLoop_along {turns n : ℕ} {back : List ℕ}
    (linked : ∀ front cf rest, back = front ++ cf :: rest → next cf = rest.head?)
    (closed : ∀ cf ∈ back, Closed dotu (texts cf)) :
    ∃ stored rest, back = stored ++ rest ∧
      (readLoop texts dotu next count turns n back.head?).2 = (rest.head?, stored) := by
  induction turns generalizing n back with
  | zero => exact ⟨[], back, rfl, rfl⟩
  | succ turns ih =>
      cases back with
      | nil => exact ⟨[], [], rfl, rfl⟩
      | cons cf back =>
          have size := entrySize_eq dotu (texts cf)
          simp only [List.head?_cons, readLoop]
          by_cases less : n < count
          · by_cases fits : entrySize dotu (texts cf) ≤ count - n - 1
            · rw [npSerializeStat_of_fits fits, linked [] cf back rfl, if_pos less,
                if_neg (by omega), if_pos rfl]
              obtain ⟨stored, rest, parts, result⟩ := ih (n := n + entrySize dotu (texts cf))
                (fun front cf' rest parts => linked (cf :: front) cf' rest (by rw [parts]; rfl))
                fun cf' mem => closed cf' (List.mem_cons_of_mem _ mem)
              refine ⟨cf :: stored, rest, by rw [parts]; rfl, ?_⟩
              simp only [result]
            · rw [npSerializeStat_of_short (closed cf List.mem_cons_self) (by omega),
                if_pos less, if_pos rfl]
              exact ⟨[], cf :: back, rfl, rfl⟩
          · rw [if_neg less]
            exact ⟨[], cf :: back, rfl, rfl⟩

theorem readLoop_none (turns n : ℕ) :
    readLoop texts dotu next count turns n none = (n, none, []) := by
  cases turns <;> rfl

/-- A child that nothing follows is the last one. -/
theorem readLoop_last {turns n cf : ℕ} (alone : next cf = none) :
    ∃ stored, (∀ child ∈ stored, child = cf) ∧
      ((readLoop texts dotu next count turns n (some cf)).2 = (none, stored) ∨
        (readLoop texts dotu next count turns n (some cf)).2 = (some cf, stored)) := by
  cases turns with
  | zero => exact ⟨[], by simp, .inr rfl⟩
  | succ turns =>
      simp only [readLoop]
      split_ifs
      · exact ⟨[], by simp, .inr rfl⟩
      · exact ⟨[cf], by simp, .inl (by rw [alone, readLoop_none])⟩
      · exact ⟨[], by simp, .inl (by rw [alone, readLoop_none])⟩
      · exact ⟨[], by simp, .inr rfl⟩

end Loop

/-! ## The tree -/

/-- A directory that a fid has open. -/
structure Listing where
  dir : ℕ
  /-- `conn->dotu`. -/
  dotu : Bool
  diroffset : ℕ
  dirent : Option ℕ
  /-- History: the children of the directory when the listing began. -/
  atStart : List ℕ
  /-- History: the children whose entries were returned. -/
  returned : List ℕ

/-- The requests, as far as what they do with the parent of their file tells them apart. -/
inductive Op where
  | create
  | remove
  /-- `Twstat` with a name. -/
  | rename
  /-- `Twalk` to `".."`. -/
  | walkUp
  /-- `Tstat`, `Topen`, `Twrite`, `Tclunk`, `Tread` of a file, `Twalk` to another name, `Twstat`
  without a name. -/
  | other
  deriving DecidableEq

/-- The request needs the parent of its file. -/
def Op.needsParent : Op → Bool
  | .remove | .rename | .walkUp => true
  | .create | .other => false

/-- A request on a file was answered. -/
structure Answer where
  op : Op
  /-- The file had been removed. -/
  removed : Bool
  error : Option CStr

/-- The answer to a request on a removed file that needs the parent is an error. -/
def Answer.Fit (a : Answer) : Prop := a.removed = true → a.op.needsParent = true → a.error ≠ none

/-- The files of a tree, which are known by their `qid.path`, and the fids that list them. -/
structure Tree (Fid Thread : Type) where
  parent : ℕ → Option ℕ
  /-- `mode & Dmdir`. -/
  dmdir : ℕ → Bool
  links : Links ℕ
  dirfirst : ℕ → Option ℕ
  dirlast : ℕ → Option ℕ
  /-- The next `qid.path`. -/
  qidpath : ℕ
  listing : Fid → Option Listing
  /-- A thread that has made the tests of `npfile_remove`, with the file and its parent. -/
  removing : Thread → Option (ℕ × ℕ)
  /-- A null pointer was followed. -/
  fault : Bool
  /-- History: the answered requests. -/
  answers : List Answer

/-- What happens next. -/
inductive Event (Fid Thread : Type) where
  /-- `Topen` of a directory. -/
  | open_ (fid : Fid) (dir : ℕ) (dotu : Bool)
  /-- `Tread` of a directory, at the offset that the fid has come to. -/
  | read (fid : Fid) (count : ℕ)
  /-- `Tcreate`, with the error of its tests. -/
  | create (dir : ℕ) (dmdir : Bool) (error : Option CStr)
  /-- `Tremove`, up to the lock of the parent. -/
  | test (t : Thread) (file : ℕ)
  /-- The rest of it, with the answer of `npfile_checkperm`. -/
  | remove (t : Thread) (permitted : Bool)
  | rename (file : ℕ) (error : Option CStr)
  | walkUp (file : ℕ) (permitted : Bool)
  | other (file : ℕ) (error : Option CStr)

namespace Tree

section Steps

variable {Fid Thread : Type} [DecidableEq Fid] [DecidableEq Thread] (texts : ℕ → Texts)
  (s : Tree Fid Thread)

/-- The tree of `main` in `fs/ramfs2.c`: the root is its own parent. -/
def start : Tree Fid Thread where
  parent f := if f = 0 then some 0 else none
  dmdir f := decide (f = 0)
  links := ⟨fun _ => none, fun _ => none⟩
  dirfirst _ := none
  dirlast _ := none
  qidpath := 1
  listing _ := none
  removing _ := none
  fault := false
  answers := []

/-- The children of a directory. -/
def children (dir : ℕ) : List ℕ :=
  (List.range s.qidpath).filter fun f => decide (s.parent f = some dir) && decide (f ≠ 0)

/-- A request on a file is answered. -/
def answer (op : Op) (file : ℕ) (error : Option CStr) : Tree Fid Thread :=
  { s with answers := ⟨op, (s.parent file).isNone, error⟩ :: s.answers }

/-- `rfs_create`. -/
def rfsCreate (dir : ℕ) (dmdir : Bool) : Tree Fid Thread :=
  let file := s.qidpath
  let links : Links ℕ := ⟨update s.links.next file none, update s.links.prev file none⟩
  { s with
    parent := update s.parent file (some dir)
    dmdir := update s.dmdir file dmdir
    links := (links.setNext (s.dirlast dir) (some file)).setPrev (some file) (s.dirlast dir)
    dirfirst :=
      if (s.dirlast dir).isSome then update s.dirfirst file none
      else update (update s.dirfirst file none) dir (some file)
    dirlast := update (update s.dirlast file none) dir (some file)
    qidpath := s.qidpath + 1 }

/-- `rfs_remove`; `none` when it follows a null pointer. -/
def rfsRemove (dir file : ℕ) : Option (Tree Fid Thread) :=
  let next := s.links.next file
  let prev := s.links.prev file
  let before :=
    if s.dirfirst dir = some file then some s.links
    else prev.map fun p => s.links.setNext (some p) next
  before.map fun links =>
    let links := links.setPrev next prev
    { s with
      parent := update s.parent file none
      links := ⟨update links.next file none, update links.prev file none⟩
      dirfirst := if s.dirfirst dir = some file then update s.dirfirst dir next else s.dirfirst
      dirlast := if s.dirlast dir = some file then update s.dirlast dir prev else s.dirlast }

/-- `npfile_read` starts the listing again at offset 0. -/
def begun (l : Listing) : Listing :=
  if l.diroffset = 0 then
    { l with dirent := s.dirfirst l.dir, atStart := s.children l.dir, returned := [] }
  else l

/-- `npfile_read` of a directory. -/
def npfileRead (l : Listing) (count : ℕ) : Listing :=
  let l := s.begun l
  let (n, cf, stored) := readLoop texts l.dotu s.links.next count count 0 l.dirent
  { l with diroffset := l.diroffset + n, dirent := cf, returned := l.returned ++ stored }

/-- One step; `none` when it is not one.  A `Tread` has a count that is large enough for the next
child. -/
def step (event : Event Fid Thread) : Option (Tree Fid Thread) :=
  if s.fault then none
  else match event with
  | .open_ fid dir dotu =>
    if dir < s.qidpath ∧ s.dmdir dir = true then
      some { s with listing := update s.listing fid (some ⟨dir, dotu, 0, none, [], []⟩) }
    else none
  | .read fid count =>
    (s.listing fid).bind fun l =>
      if ∀ cf ∈ (s.begun l).dirent, entrySize l.dotu (texts cf) < count then
        some { s with listing := update s.listing fid (some (s.npfileRead texts l count)) }
      else none
  | .create dir dmdir error =>
    if dir < s.qidpath ∧ s.dmdir dir = true then
      some ((if error.isSome then s else s.rfsCreate dir dmdir).answer .create dir error)
    else none
  | .test t file =>
    if file < s.qidpath ∧ s.removing t = none then
      if s.dmdir file = true ∧ (s.dirfirst file).isSome = true then
        some (s.answer .remove file (some Enotempty))
      else
        some (match s.parent file with
          | none => { s with fault := true }
          | some parent => { s with removing := update s.removing t (some (file, parent)) })
    else none
  | .remove t permitted =>
    (s.removing t).map fun (file, parent) =>
      let done := { s with removing := update s.removing t none }
      if permitted then
        match done.rfsRemove parent file with
        | none => { s with fault := true }
        | some removed =>
          { removed with answers := ⟨.remove, (s.parent file).isNone, none⟩ :: s.answers }
      else done.answer .remove file (some Eperm)
  | .rename file error =>
    if file < s.qidpath then
      some (if (s.parent file).isNone then { s with fault := true }
        else s.answer .rename file error)
    else none
  | .walkUp file permitted =>
    if file < s.qidpath ∧ s.dmdir file = true then
      some (s.answer .walkUp file
        (if !permitted then some Eperm
        else if (s.parent file).isNone then some Enotfound else none))
    else none
  | .other file error => if file < s.qidpath then some (s.answer .other file error) else none

/-- A child that exists throughout a listing is returned exactly once, and a request on a removed
file is answered, with an error where it needs the parent. -/
structure Listed : Prop where
  safe : s.fault = false
  answered : ∀ a ∈ s.answers, a.Fit
  once : ∀ fid l, s.listing fid = some l → ∀ f ∈ l.atStart, s.parent f = some l.dir →
    l.returned.count f ≤ 1 ∧ (l.dirent = none → l.returned.count f = 1)

/-- The fid has come to `file`, and no other child that it began with is left to be returned. -/
def PassesOn (file : ℕ) (l : Listing) : Prop :=
  l.dirent = some file →
    ∀ f ∈ l.atStart, s.parent f = some l.dir → f = file ∨ f ∈ l.returned

/-- No `Tremove` or renaming `Twstat` is for a removed file or for the root, no file is removed that
a fid has come to with others left to be returned, and the entries that are read do not end in an
empty string. -/
def Settled : Event Fid Thread → Prop
  | .read fid _ => ∀ l ∈ s.listing fid, ∀ f ∈ s.children l.dir, Closed l.dotu (texts f)
  | .test _ file => s.parent file = none → s.dmdir file = true ∧ (s.dirfirst file).isSome = true
  | .remove t permitted => ∀ job ∈ s.removing t, permitted = true →
    s.parent job.1 ≠ none ∧ job.1 ≠ 0 ∧ ∀ fid, ∀ l ∈ s.listing fid, s.PassesOn job.1 l
  | .rename file _ => s.parent file ≠ none
  | _ => True

end Steps

/-! ## The lists of children -/

section Lists

variable {Fid Thread : Type} {s : Tree Fid Thread} {chain : ℕ → List ℕ} {dir file f : ℕ}

/-- `chain dir` are the children of `dir`, from `dirfirst` to `dirlast`. -/
structure Shape (s : Tree Fid Thread) (chain : ℕ → List ℕ) : Prop where
  joined : ∀ dir, Joined s.links none (chain dir)
  first : ∀ dir, s.dirfirst dir = (chain dir).head?
  last : ∀ dir, s.dirlast dir = (chain dir).getLast?
  mem : ∀ dir f, f ∈ chain dir ↔ s.parent f = some dir ∧ f ≠ 0
  loose : ∀ f, s.parent f = none → s.links.next f = none
  unborn : ∀ f, s.qidpath ≤ f → s.parent f = none ∧ chain f = []

namespace Shape

theorem lt (shape : s.Shape chain) (parent : s.parent f ≠ none) : f < s.qidpath := by
  by_contra beyond
  exact parent (shape.unborn f (by omega)).1

theorem lt_of_mem (shape : s.Shape chain) (mem : f ∈ chain dir) : f < s.qidpath :=
  shape.lt (by simp [((shape.mem dir f).mp mem).1])

theorem eq_of_mem (shape : s.Shape chain) {dir' : ℕ} (mem : f ∈ chain dir)
    (mem' : f ∈ chain dir') : dir = dir' := by
  have parent := ((shape.mem dir f).mp mem).1
  rw [((shape.mem dir' f).mp mem').1] at parent
  exact (Option.some.inj parent).symm

theorem mem_children (shape : s.Shape chain) : f ∈ s.children dir ↔ f ∈ chain dir := by
  simp only [children, List.mem_filter, List.mem_range, Bool.and_eq_true, decide_eq_true_eq]
  rw [← shape.mem]
  exact ⟨And.right, fun mem => ⟨shape.lt_of_mem mem, mem⟩⟩

/-- A new file goes behind the children of its directory. -/
theorem create (shape : s.Shape chain) (inside : dir < s.qidpath) (dmdir : Bool) :
    (s.rfsCreate dir dmdir).Shape (update chain dir (chain dir ++ [s.qidpath])) := by
  have fresh : ∀ d, s.qidpath ∉ chain d := fun d mem => lt_irrefl _ (shape.lt_of_mem mem)
  have empty := (shape.unborn s.qidpath le_rfl).2
  have apart : dir ≠ s.qidpath := by omega
  have next : ∀ q, (s.rfsCreate dir dmdir).links.next q =
      if s.dirlast dir = some q then some s.qidpath
      else if q = s.qidpath then none else s.links.next q := by
    intro q
    simp [rfsCreate, Links.next_setNext, update_apply]
  have prev : ∀ q, (s.rfsCreate dir dmdir).links.prev q =
      if s.qidpath = q then s.dirlast dir else s.links.prev q := by
    intro q
    simp only [rfsCreate, Links.prev_setPrev, Links.prev_setNext, update_apply, Option.some.injEq]
    split_ifs with same same' <;> first | rfl | exact absurd same'.symm same
  have tail : s.dirlast dir ≠ some s.qidpath := by
    rw [shape.last]
    exact fun same => fresh dir (List.mem_of_getLast? same)
  exact
    { joined := fun d => by
        by_cases same : d = dir
        · subst same
          rw [update_self]
          refine (shape.joined d).append ⟨?_, ?_⟩ (fun q mem => ?_) fun q mem => ?_
          · rw [prev, if_pos rfl, shape.last, Option.or_none]
          · rw [next, if_neg tail, if_pos rfl]
          · have other : q ≠ s.qidpath := fun same => fresh d (same ▸ mem)
            rw [next, if_neg other, shape.last]
          · have other : s.qidpath ≠ q := fun same => fresh d (same ▸ mem)
            rw [prev, if_neg other]
        · rw [update_of_ne same]
          refine (shape.joined d).congr (fun q mem => ?_) fun q mem => ?_
          · have other : q ≠ s.qidpath := fun same => fresh d (same ▸ mem)
            have apart : s.dirlast dir ≠ some q := by
              rw [shape.last]
              exact fun last => same (shape.eq_of_mem mem (List.mem_of_getLast? last))
            rw [next, if_neg apart, if_neg other]
          · have other : s.qidpath ≠ q := fun same => fresh d (same ▸ mem)
            rw [prev, if_neg other]
      first := fun d => by
        by_cases same : d = dir
        · subst same
          rw [update_self, List.head?_append, ← shape.first]
          cases last : s.dirlast d with
          | none =>
              have nil : chain d = [] :=
                List.getLast?_eq_none_iff.mp ((shape.last d).symm.trans last)
              simp [rfsCreate, last, shape.first, nil]
          | some q =>
              have nonempty : chain d ≠ [] := by
                rintro nil
                simp [shape.last, nil] at last
              obtain ⟨first, head⟩ := Option.isSome_iff_exists.mp
                (List.isSome_head?.mpr nonempty)
              simp [rfsCreate, last, update_of_ne apart, shape.first, head]
        · rw [update_of_ne same, ← shape.first]
          by_cases new : d = s.qidpath
          · subst new
            cases last : s.dirlast dir <;> simp [rfsCreate, last, same, shape.first, empty]
          · cases last : s.dirlast dir <;> simp [rfsCreate, last, same, new]
      last := fun d => by
        by_cases same : d = dir
        · subst same
          simp [rfsCreate]
        · rw [update_of_ne same]
          by_cases new : d = s.qidpath
          · subst new
            simp [rfsCreate, same, empty]
          · simp [rfsCreate, same, new, shape.last]
      mem := fun d f => by
        have root : s.qidpath ≠ 0 := by omega
        by_cases new : f = s.qidpath
        · subst new
          by_cases same : d = dir
          · subst same
            simp [rfsCreate, root]
          · simp [rfsCreate, same, fresh, Ne.symm same]
        · have kept : (s.rfsCreate dir dmdir).parent f = s.parent f := by simp [rfsCreate, new]
          rw [kept, ← shape.mem]
          by_cases same : d = dir
          · subst same
            simp [new]
          · simp [same]
      loose := fun f none => by
        by_cases new : f = s.qidpath
        · simp [rfsCreate, new] at none
        · have kept : (s.rfsCreate dir dmdir).parent f = s.parent f := by simp [rfsCreate, new]
          rw [kept] at none
          have apart : s.dirlast dir ≠ some f := by
            rw [shape.last]
            intro last
            simp [((shape.mem dir f).mp (List.mem_of_getLast? last)).1] at none
          rw [next, if_neg apart, if_neg new]
          exact shape.loose f none
      unborn := fun f beyond => by
        have past : s.qidpath + 1 ≤ f := beyond
        obtain ⟨none, nil⟩ := shape.unborn f (by omega)
        have other : f ≠ s.qidpath := by omega
        have other' : f ≠ dir := by omega
        simp [rfsCreate, other, other', none, nil] }

/-- The links after `rfs_remove`. -/
def cleared (l : Links ℕ) (file : ℕ) : Links ℕ :=
  ⟨update (l.unlink file).next file none, update (l.unlink file).prev file none⟩

section Removal

variable {front back : List ℕ}

/-- The child is at one place only. -/
theorem not_mem_parts (shape : s.Shape chain) (parts : chain dir = front ++ file :: back) :
    file ∉ front ∧ file ∉ back := by
  have once := (shape.joined dir).nodup
  rw [parts] at once
  simp only [List.nodup_append, List.nodup_cons, List.mem_cons] at once
  exact ⟨fun mem => once.2.2 file mem file (.inl rfl) rfl, once.2.1.1⟩

/-- The children of other directories are not among its siblings. -/
theorem foreign (shape : s.Shape chain) (parts : chain dir = front ++ file :: back) {d q : ℕ}
    (other : d ≠ dir) (inside : q ∈ chain d) : q ≠ file ∧ q ∉ front ∧ q ∉ back := by
  have absent : q ∉ chain dir := fun mem => other (shape.eq_of_mem inside mem)
  rw [parts] at absent
  simp only [List.mem_append, List.mem_cons, not_or] at absent
  exact ⟨absent.2.1, absent.1, absent.2.2⟩

/-- The links on both sides of the child. -/
theorem around (shape : s.Shape chain) (parts : chain dir = front ++ file :: back) :
    s.links.next file = back.head? ∧ s.links.prev file = front.getLast? := by
  have joined := shape.joined dir
  rw [parts] at joined
  exact ⟨joined.next_eq, joined.prev_eq.trans (Option.or_none)⟩

theorem joined_cleared (shape : s.Shape chain) (parts : chain dir = front ++ file :: back)
    (d : ℕ) : Joined (cleared s.links file) none (update chain dir (front ++ back) d) := by
  have next : ∀ q, q ≠ file → (cleared s.links file).next q = (s.links.unlink file).next q :=
    fun q other => by simp [cleared, other]
  have prev : ∀ q, q ≠ file → (cleared s.links file).prev q = (s.links.unlink file).prev q :=
    fun q other => by simp [cleared, other]
  obtain ⟨after, before⟩ := shape.around parts
  by_cases same : d = dir
  · subst same
    have joined := shape.joined d
    rw [parts] at joined
    rw [update_self]
    have other : ∀ q ∈ front ++ back, q ≠ file := by
      rintro q inside rfl
      exact (List.mem_append.mp inside).elim (shape.not_mem_parts parts).1
        (shape.not_mem_parts parts).2
    exact joined.removed.congr (fun q inside => next q (other q inside))
      fun q inside => prev q (other q inside)
  · rw [update_of_ne same]
    refine (shape.joined d).congr (fun q inside => ?_) fun q inside => ?_
    · obtain ⟨other, ahead, -⟩ := shape.foreign parts same inside
      have apart : s.links.prev file ≠ some q := by
        rw [before]
        exact fun last => ahead (List.mem_of_getLast? last)
      rw [next q other, Links.next_unlink, if_neg apart]
    · obtain ⟨other, -, behind⟩ := shape.foreign parts same inside
      have apart : s.links.next file ≠ some q := by
        rw [after]
        exact fun first => behind (List.mem_of_head? first)
      rw [prev q other, Links.prev_unlink, if_neg apart]

/-- `dirfirst` after `rfs_remove`. -/
theorem first_removed (shape : s.Shape chain) (parts : chain dir = front ++ file :: back) (d : ℕ) :
    (if s.dirfirst dir = some file then update s.dirfirst dir (s.links.next file)
      else s.dirfirst) d = (update chain dir (front ++ back) d).head? := by
  by_cases same : d = dir
  · subst same
    rw [update_self, shape.first, parts]
    cases front with
    | nil => simp [(shape.around parts).1]
    | cons first front =>
        have other : first ≠ file := fun same => (shape.not_mem_parts parts).1 (by simp [same])
        simp [other, shape.first, parts]
  · rw [update_of_ne same, ← shape.first]
    split_ifs
    · rw [update_of_ne same]
    · rfl

/-- `dirlast` after `rfs_remove`. -/
theorem last_removed (shape : s.Shape chain) (parts : chain dir = front ++ file :: back) (d : ℕ) :
    (if s.dirlast dir = some file then update s.dirlast dir (s.links.prev file)
      else s.dirlast) d = (update chain dir (front ++ back) d).getLast? := by
  by_cases same : d = dir
  · subst same
    rw [update_self, shape.last, parts]
    cases back with
    | nil => simp [(shape.around parts).2]
    | cons second back =>
        have other : (second :: back).getLast? ≠ some file := fun last =>
          (shape.not_mem_parts parts).2 (List.mem_of_getLast? last)
        have last : (front ++ file :: second :: back).getLast? = (second :: back).getLast? := by
          rw [List.getLast?_append, List.getLast?_cons_cons, List.getLast?_cons]
          rfl
        rw [last, if_neg other, shape.last, parts, last, List.getLast?_append, List.getLast?_cons]
        rfl
  · rw [update_of_ne same, ← shape.last]
    split_ifs
    · rw [update_of_ne same]
    · rfl

theorem rfsRemove_eq (shape : s.Shape chain) (parts : chain dir = front ++ file :: back) :
    s.rfsRemove dir file = some { s with
      parent := update s.parent file none
      links := cleared s.links file
      dirfirst := if s.dirfirst dir = some file then update s.dirfirst dir (s.links.next file)
        else s.dirfirst
      dirlast := if s.dirlast dir = some file then update s.dirlast dir (s.links.prev file)
        else s.dirlast } := by
  have before : (if s.dirfirst dir = some file then some s.links
      else (s.links.prev file).map fun p => s.links.setNext (some p) (s.links.next file)) =
      some (s.links.setNext (s.links.prev file) (s.links.next file)) := by
    rw [shape.first, parts, (shape.around parts).2]
    cases front with
    | nil => simp [Links.setNext]
    | cons first front =>
        have other : first ≠ file := fun same => (shape.not_mem_parts parts).1 (by simp [same])
        simp [other, List.getLast?_cons]
  have unlinked : (s.links.setNext (s.links.prev file) (s.links.next file)).setPrev
      (s.links.next file) (s.links.prev file) = s.links.unlink file := by
    simp [Links.unlink, Links.next_setNext]
  simp only [rfsRemove, before, Option.map_some, unlinked]
  rfl

end Removal

/-- A child leaves its directory. -/
theorem remove (shape : s.Shape chain) (parent : s.parent file = some dir) (child : file ≠ 0) :
    ∃ dirfirst dirlast, s.rfsRemove dir file = some { s with
        parent := update s.parent file none
        links := cleared s.links file
        dirfirst
        dirlast } ∧
      Shape ({ s with
        parent := update s.parent file none
        links := cleared s.links file
        dirfirst
        dirlast } : Tree Fid Thread) (update chain dir ((chain dir).erase file)) := by
  have mem : file ∈ chain dir := (shape.mem dir file).mpr ⟨parent, child⟩
  obtain ⟨front, back, parts⟩ := List.append_of_mem mem
  have rest : (chain dir).erase file = front ++ back := by
    rw [parts, List.erase_append_right _ (shape.not_mem_parts parts).1, List.erase_cons_head]
  rw [rest]
  refine ⟨_, _, shape.rfsRemove_eq parts, shape.joined_cleared parts, shape.first_removed parts,
    shape.last_removed parts, fun d f => ?_, fun f free => ?_, fun f beyond => ?_⟩
  · change _ ↔ update s.parent file none f = some d ∧ f ≠ 0
    by_cases gone : f = file
    · subst gone
      by_cases same : d = dir
      · subst same
        simp [shape.not_mem_parts parts]
      · have absent : f ∉ chain d := fun inside => (shape.foreign parts same inside).1 rfl
        simp [same, absent]
    · rw [update_of_ne gone, ← shape.mem]
      by_cases same : d = dir
      · subst same
        rw [update_self, parts]
        simp [gone]
      · rw [update_of_ne same]
  · change update s.parent file none f = none at free
    change (cleared s.links file).next f = none
    by_cases gone : f = file
    · simp [gone, cleared]
    · rw [update_of_ne gone] at free
      have apart : s.links.prev file ≠ some f := by
        rw [(shape.around parts).2]
        intro last
        have inside : f ∈ chain dir := by
          rw [parts]
          exact List.mem_append_left _ (List.mem_of_getLast? last)
        simp [((shape.mem dir f).mp inside).1] at free
      simp [cleared, gone, Links.next_unlink, apart, shape.loose f free]
  · obtain ⟨free, nil⟩ := shape.unborn f beyond
    refine ⟨by simp [update_apply, free], ?_⟩
    by_cases same : f = dir
    · subst same
      simp [nil] at parts
    · simp [same, nil]

end Shape

/-! ## Listings -/

/-- Where a listing stands among the children of its directory: those in front of `dirent` are
returned, and the others are not, unless none of them is left to be returned. -/
structure Following (s : Tree Fid Thread) (chain : ℕ → List ℕ) (l : Listing) : Prop where
  old : ∀ f ∈ l.atStart, f < s.qidpath ∧ f ≠ 0
  parts : ∃ front back, chain l.dir = front ++ back ∧
    (∀ f ∈ front, f ∈ l.atStart → l.returned.count f = 1) ∧
    (∀ f ∈ back, f ∈ l.atStart → l.returned.count f = 0) ∧
    (l.dirent = back.head? ∧ back ≠ [] ∨
      (∀ f ∈ back, f ∉ l.atStart) ∧
        ∀ cf, l.dirent = some cf → cf < s.qidpath ∧ s.parent cf = none)

namespace Following

variable {l : Listing} {texts : ℕ → Texts}

/-- A listing of which nothing has been read yet. -/
theorem opened (s : Tree Fid Thread) (chain : ℕ → List ℕ) (dir : ℕ) (dotu : Bool) :
    s.Following chain ⟨dir, dotu, 0, none, [], []⟩ where
  old := by simp
  parts := ⟨[], chain dir, rfl, by simp, by simp, .inr ⟨by simp, by simp⟩⟩

theorem once (following : s.Following chain l) (shape : s.Shape chain) (began : f ∈ l.atStart)
    (parent : s.parent f = some l.dir) :
    l.returned.count f ≤ 1 ∧ (l.dirent = none → l.returned.count f = 1) := by
  obtain ⟨front, back, parts, passed, ahead, place⟩ := following.parts
  have mem : f ∈ front ++ back := by
    rw [← parts]
    exact (shape.mem _ f).mpr ⟨parent, (following.old f began).2⟩
  rcases List.mem_append.mp mem with mem | mem
  · have one := passed f mem began
    exact ⟨one.le, fun _ => one⟩
  · have zero := ahead f mem began
    refine ⟨by omega, fun ended => ?_⟩
    rcases place with ⟨head, nonempty⟩ | ⟨done, -⟩
    · rw [ended] at head
      exact absurd (List.head?_eq_none_iff.mp head.symm) nonempty
    · exact absurd began (done f mem)

/-- A new file comes behind all children that a listing began with. -/
theorem create (following : s.Following chain l) (dir : ℕ) (dmdir : Bool) :
    (s.rfsCreate dir dmdir).Following (update chain dir (chain dir ++ [s.qidpath])) l where
  old f began := ⟨(following.old f began).1.trans (Nat.lt_succ_self _), (following.old f began).2⟩
  parts := by
    obtain ⟨front, back, parts, passed, ahead, place⟩ := following.parts
    have new : s.qidpath ∉ l.atStart := fun began => lt_irrefl _ (following.old _ began).1
    have stale : ∀ cf, cf < s.qidpath ∧ s.parent cf = none →
        cf < (s.rfsCreate dir dmdir).qidpath ∧ (s.rfsCreate dir dmdir).parent cf = none := by
      rintro cf ⟨inside, gone⟩
      refine ⟨inside.trans (Nat.lt_succ_self _), ?_⟩
      simp [rfsCreate, inside.ne, gone]
    by_cases same : l.dir = dir
    · refine ⟨front, back ++ [s.qidpath], ?_, passed, ?_, ?_⟩
      · rw [same, update_self, ← same, parts, List.append_assoc]
      · intro f mem began
        rcases List.mem_append.mp mem with mem | mem
        · exact ahead f mem began
        · rw [List.mem_singleton.mp mem] at began
          exact absurd began new
      · refine place.imp ?_ ?_
        · rintro ⟨head, nonempty⟩
          refine ⟨?_, by simp⟩
          rw [head, List.head?_append_of_ne_nil _ nonempty]
        · rintro ⟨done, left⟩
          refine ⟨fun f mem => ?_, fun cf here => stale cf (left cf here)⟩
          rcases List.mem_append.mp mem with mem | mem
          · exact done f mem
          · rw [List.mem_singleton.mp mem]
            exact new
    · refine ⟨front, back, ?_, passed, ahead, ?_⟩
      · rw [update_of_ne same, parts]
      · exact place.imp id fun ⟨done, left⟩ => ⟨done, fun cf here => stale cf (left cf here)⟩

/-- A child is removed that the listing may miss. -/
theorem remove {s' : Tree Fid Thread} (following : s.Following chain l) (shape : s.Shape chain)
    (inside : file < s.qidpath) (passes : s.PassesOn file l) (qidpath : s'.qidpath = s.qidpath)
    (gone : s'.parent = update s.parent file none) :
    s'.Following (update chain dir ((chain dir).erase file)) l where
  old f began := by
    rw [qidpath]
    exact following.old f began
  parts := by
    obtain ⟨front, back, parts, passed, ahead, place⟩ := following.parts
    have stale : ∀ cf, cf < s.qidpath ∧ s.parent cf = none →
        cf < s'.qidpath ∧ s'.parent cf = none := by
      rintro cf ⟨inside, free⟩
      rw [qidpath, gone, update_apply]
      exact ⟨inside, by simp [free]⟩
    by_cases same : l.dir = dir
    · rw [← same, update_self, parts, List.erase_append]
      split_ifs with front_
      · refine ⟨front.erase file, back, rfl, fun f mem => passed f (List.mem_of_mem_erase mem),
          ahead, ?_⟩
        exact place.imp id fun ⟨done, left⟩ => ⟨done, fun cf here => stale cf (left cf here)⟩
      · refine ⟨front, back.erase file, rfl, passed,
          fun f mem => ahead f (List.mem_of_mem_erase mem), ?_⟩
        rcases place with ⟨head, nonempty⟩ | ⟨done, left⟩
        · by_cases here : l.dirent = some file
          · refine .inr ⟨fun f mem began => ?_, fun cf here' => ?_⟩
            · have once : back.Nodup := by
                have once := (shape.joined l.dir).nodup
                rw [parts] at once
                exact (List.nodup_append.mp once).2.1
              have behind := (once.mem_erase_iff).mp mem
              have parent := (shape.mem l.dir f).mp (by
                rw [parts]
                exact List.mem_append_right _ behind.2)
              rcases passes here f began parent.1 with rfl | mem
              · exact behind.1 rfl
              · exact List.count_eq_zero.mp (ahead f behind.2 began) mem
            · rw [here] at here'
              obtain rfl := Option.some.inj here'
              rw [qidpath, gone, update_self]
              exact ⟨inside, rfl⟩
          · obtain ⟨cf, rest, rfl⟩ := List.exists_cons_of_ne_nil nonempty
            have other : cf ≠ file := by
              rintro rfl
              exact here head
            left
            rw [List.erase_cons_tail (by simpa using other)]
            exact ⟨head, by simp⟩
        · exact .inr ⟨fun f mem => done f (List.mem_of_mem_erase mem),
            fun cf here => stale cf (left cf here)⟩
    · rw [update_of_ne same]
      refine ⟨front, back, parts, passed, ahead, ?_⟩
      exact place.imp id fun ⟨done, left⟩ => ⟨done, fun cf here => stale cf (left cf here)⟩

theorem begun (following : s.Following chain l) (shape : s.Shape chain) :
    s.Following chain (s.begun l) := by
  unfold Tree.begun
  split_ifs with first
  · refine ⟨fun f mem => ?_, [], chain l.dir, rfl, by simp, by simp, ?_⟩
    · have mem := (shape.mem_children).mp mem
      exact ⟨shape.lt_of_mem mem, ((shape.mem _ f).mp mem).2⟩
    · by_cases empty : chain l.dir = []
      · right
        simp [shape.first, empty]
      · exact .inl ⟨shape.first l.dir, empty⟩
  · exact following

/-- The loop takes a listing on. -/
theorem loop (following : s.Following chain l) (shape : s.Shape chain)
    (closed : ∀ f ∈ s.children l.dir, Closed l.dotu (texts f)) {count : ℕ} {dirent : Option ℕ}
    {stored : List ℕ} (diroffset : ℕ)
    (result : (readLoop texts l.dotu s.links.next count count 0 l.dirent).2 = (dirent, stored)) :
    s.Following chain { l with diroffset, dirent, returned := l.returned ++ stored } where
  old := following.old
  parts := by
    obtain ⟨front, back, parts, passed, ahead, place⟩ := following.parts
    have joined := shape.joined l.dir
    rw [parts] at joined
    obtain ⟨-, once, apart⟩ := List.nodup_append.mp joined.nodup
    rcases place with ⟨head, -⟩ | ⟨done, left⟩
    · have linked : ∀ ahead cf rest, back = ahead ++ cf :: rest →
          s.links.next cf = rest.head? := by
        rintro ahead cf rest rfl
        rw [← List.append_assoc] at joined
        exact joined.next_eq
      have whole : ∀ cf ∈ back, Closed l.dotu (texts cf) := fun cf mem => closed cf (by
        rw [shape.mem_children, parts]
        exact List.mem_append_right _ mem)
      obtain ⟨taken, rest, rfl, result'⟩ :=
        @readLoop_along texts l.dotu s.links.next count count 0 back linked whole
      rw [head, result'] at result
      obtain ⟨rfl, rfl⟩ := Prod.mk.inj result
      obtain ⟨distinct, -, later⟩ := List.nodup_append.mp once
      refine ⟨front ++ taken, rest, by rw [List.append_assoc, parts], ?_, ?_, ?_⟩
      · intro f mem began
        rw [List.count_append]
        rcases List.mem_append.mp mem with mem | mem
        · have absent : f ∉ taken := fun mem' =>
            apart f mem f (List.mem_append_left _ mem') rfl
          rw [passed f mem began, List.count_eq_zero.mpr absent]
        · rw [ahead f (List.mem_append_left _ mem) began, List.count_eq_one_of_mem distinct mem]
      · intro f mem began
        have absent : f ∉ taken := fun mem' => later f mem' f mem rfl
        rw [List.count_append, ahead f (List.mem_append_right _ mem) began,
          List.count_eq_zero.mpr absent]
      · by_cases empty : rest = []
        · exact .inr (by simp [empty])
        · exact .inl ⟨rfl, empty⟩
    · have listed : ∀ f ∈ front ++ back, s.parent f ≠ none := by
        rw [← parts]
        exact fun f mem => by simp [((shape.mem _ f).mp mem).1]
      have unmoved : (∀ f ∈ stored, s.parent f = none) ∧
          ∀ cf, dirent = some cf → cf < s.qidpath ∧ s.parent cf = none := by
        cases here : l.dirent with
        | none =>
            rw [here, readLoop_none] at result
            obtain ⟨rfl, rfl⟩ := Prod.mk.inj result
            simp
        | some cf =>
            obtain ⟨inside, free⟩ := left cf here
            obtain ⟨only_, same, ends⟩ :=
              @readLoop_last texts l.dotu s.links.next count count 0 cf (shape.loose cf free)
            rw [here] at result
            rw [result] at ends
            rcases ends with ends | ends
            · obtain ⟨rfl, rfl⟩ := Prod.mk.inj ends
              exact ⟨fun f mem => same f mem ▸ free, by simp⟩
            · obtain ⟨rfl, rfl⟩ := Prod.mk.inj ends
              refine ⟨fun f mem => same f mem ▸ free, fun cf' here' => ?_⟩
              obtain rfl := Option.some.inj here'
              exact ⟨inside, free⟩
      have absent : ∀ f ∈ front ++ back, stored.count f = 0 := fun f mem =>
        List.count_eq_zero.mpr fun mem' => listed f mem (unmoved.1 f mem')
      refine ⟨front, back, parts, fun f mem began => ?_, fun f mem began => ?_,
        .inr ⟨done, unmoved.2⟩⟩
      · rw [List.count_append, passed f mem began, absent f (List.mem_append_left _ mem)]
      · rw [List.count_append, ahead f mem began, absent f (List.mem_append_right _ mem)]

/-- `npfile_read` takes a listing on. -/
theorem read (following : s.Following chain l) (shape : s.Shape chain)
    (closed : ∀ f ∈ s.children l.dir, Closed l.dotu (texts f)) (count : ℕ) :
    s.Following chain (s.npfileRead texts l count) := by
  have dir : (s.begun l).dir = l.dir ∧ (s.begun l).dotu = l.dotu := by
    unfold Tree.begun
    split_ifs <;> exact ⟨rfl, rfl⟩
  refine (following.begun shape).loop shape ?_ _ rfl
  rw [dir.1, dir.2]
  exact closed

end Following

/-! ## Every run -/

/-- What holds as long as each step is settled. -/
structure Sound (s : Tree Fid Thread) (chain : ℕ → List ℕ) : Prop where
  shape : s.Shape chain
  following : ∀ fid l, s.listing fid = some l → s.Following chain l
  jobs : ∀ t job, s.removing t = some job →
    job.1 < s.qidpath ∧ (s.parent job.1 = none ∨ s.parent job.1 = some job.2)
  safe : s.fault = false
  answered : ∀ a ∈ s.answers, a.Fit

theorem sound_start : (start : Tree Fid Thread).Sound fun _ => [] where
  shape :=
    { joined := fun _ => trivial
      first := fun _ => rfl
      last := fun _ => rfl
      mem := fun dir f => by
        simp only [start, List.not_mem_nil, false_iff, not_and]
        intro parent
        split_ifs at parent with root
        simp [root]
      loose := fun _ _ => rfl
      unborn := fun f beyond => by
        have other : f ≠ 0 := by
          have past : 1 ≤ f := beyond
          omega
        simp [start, other] }
  following := by simp [start]
  jobs := by simp [start]
  safe := rfl
  answered := by simp [start]

namespace Sound

variable {texts : ℕ → Texts}

/-- The files stay as they are. -/
theorem of_files (sound : s.Sound chain) {listing : Fid → Option Listing}
    {removing : Thread → Option (ℕ × ℕ)} {answers : List Answer}
    (following : ∀ fid l, listing fid = some l → s.Following chain l)
    (jobs : ∀ t job, removing t = some job →
      job.1 < s.qidpath ∧ (s.parent job.1 = none ∨ s.parent job.1 = some job.2))
    (answered : ∀ a ∈ answers, a.Fit) :
    ({ s with listing, removing, answers } : Tree Fid Thread).Sound chain where
  shape := ⟨sound.shape.joined, sound.shape.first, sound.shape.last, sound.shape.mem,
    sound.shape.loose, sound.shape.unborn⟩
  following fid l found := ⟨(following fid l found).old, (following fid l found).parts⟩
  jobs := jobs
  safe := sound.safe
  answered := answered

theorem answer (sound : s.Sound chain) {op : Op} {error : Option CStr}
    (fit : s.parent file = none → op.needsParent = true → error ≠ none) :
    (s.answer op file error).Sound chain := by
  refine sound.of_files sound.following sound.jobs fun a mem => ?_
  rcases List.mem_cons.mp mem with rfl | mem
  · exact fun removed => fit (by simpa using removed)
  · exact sound.answered a mem

theorem create (sound : s.Sound chain) (inside : dir < s.qidpath) (dmdir : Bool) :
    (s.rfsCreate dir dmdir).Sound (update chain dir (chain dir ++ [s.qidpath])) where
  shape := sound.shape.create inside dmdir
  following fid l found := (sound.following fid l found).create dir dmdir
  jobs t job found := by
    obtain ⟨old, parent⟩ := sound.jobs t job found
    have kept : (s.rfsCreate dir dmdir).parent job.1 = s.parent job.1 := by
      simp [rfsCreate, old.ne]
    rw [kept]
    exact ⟨old.trans (Nat.lt_succ_self _), parent⟩
  safe := sound.safe
  answered := sound.answered

/-- A file is removed that no listing may miss. -/
theorem remove (sound : s.Sound chain) (parent : s.parent file = some dir) (child : file ≠ 0)
    (passes : ∀ fid l, s.listing fid = some l → s.PassesOn file l) :
    ∃ s', s.rfsRemove dir file = some s' ∧
      s'.Sound (update chain dir ((chain dir).erase file)) := by
  obtain ⟨dirfirst, dirlast, removed, shape⟩ := sound.shape.remove parent child
  have inside := sound.shape.lt (f := file) (by simp [parent])
  refine ⟨_, removed, shape, fun fid l found => ?_, fun t job found => ?_, sound.safe,
    sound.answered⟩
  · exact (sound.following fid l found).remove sound.shape inside (passes fid l found) rfl rfl
  · obtain ⟨old, parent⟩ := sound.jobs t job found
    refine ⟨old, ?_⟩
    change update s.parent file none job.1 = none ∨ update s.parent file none job.1 = some job.2
    rw [update_apply]
    split_ifs
    · exact .inl rfl
    · exact parent

variable [DecidableEq Fid] [DecidableEq Thread]

theorem step {s' : Tree Fid Thread} (sound : s.Sound chain) {event : Event Fid Thread}
    (settled : s.Settled texts event) (taken : s.step texts event = some s') :
    ∃ chain', s'.Sound chain' := by
  unfold Tree.step at taken
  rw [if_neg (by simp [sound.safe])] at taken
  cases event with
  | open_ fid dir dotu =>
      simp only at taken
      split_ifs at taken with directory
      cases taken
      refine ⟨chain, sound.of_files (fun fid' l found => ?_) sound.jobs sound.answered⟩
      rw [update_apply] at found
      split_ifs at found
      · cases found
        exact .opened s chain dir dotu
      · exact sound.following fid' l found
  | read fid count =>
      simp only at taken
      obtain ⟨l, found, taken⟩ := Option.bind_eq_some_iff.mp taken
      split_ifs at taken with large
      cases taken
      refine ⟨chain, sound.of_files (fun fid' l' found' => ?_) sound.jobs sound.answered⟩
      rw [update_apply] at found'
      split_ifs at found'
      · cases found'
        exact (sound.following fid l found).read sound.shape (settled l found) count
      · exact sound.following fid' l' found'
  | create dir dmdir error =>
      simp only at taken
      split_ifs at taken with directory refused
      · cases taken
        exact ⟨chain, sound.answer (by simp [Op.needsParent])⟩
      · cases taken
        exact ⟨_, (sound.create directory.1 dmdir).answer (by simp [Op.needsParent])⟩
  | test t file =>
      simp only at taken
      split_ifs at taken with idle busy
      · cases taken
        exact ⟨chain, sound.answer (by simp)⟩
      · cases parent : s.parent file with
        | none => exact absurd (settled parent) busy
        | some dir =>
            simp only [parent, Option.some.injEq] at taken
            subst taken
            refine ⟨chain, sound.of_files sound.following (fun t' job found => ?_)
              sound.answered⟩
            rw [update_apply] at found
            split_ifs at found
            · cases found
              exact ⟨idle.1, .inr parent⟩
            · exact sound.jobs t' job found
  | remove t permitted =>
      simp only at taken
      obtain ⟨job, found, taken⟩ := Option.map_eq_some_iff.mp taken
      have free : ∀ t' job', update s.removing t none t' = some job' →
          s.removing t' = some job' := by
        intro t' job' found'
        rw [update_apply] at found'
        split_ifs at found'
        exact found'
      have done : ({ s with removing := update s.removing t none } : Tree Fid Thread).Sound
          chain := sound.of_files sound.following
            (fun t' job' found' => sound.jobs t' job' (free t' job' found')) sound.answered
      cases permitted with
      | false =>
          simp only [Bool.false_eq_true, if_false] at taken
          subst taken
          exact ⟨chain, done.answer (by simp)⟩
      | true =>
          obtain ⟨live, child, passes⟩ := settled job found rfl
          obtain ⟨old, parent⟩ := sound.jobs t job found
          obtain ⟨s'', removed, sound'⟩ := done.remove (parent.resolve_left live) child
            fun fid l found => passes fid l found
          simp only [removed, if_true] at taken
          subst taken
          refine ⟨_, sound'.of_files sound'.following sound'.jobs fun a mem => ?_⟩
          rcases List.mem_cons.mp mem with rfl | mem
          · exact fun gone => absurd (by simpa using gone) live
          · exact sound.answered a mem
  | rename file error =>
      simp only at taken
      split_ifs at taken with inside gone
      · exact absurd (by simpa using gone) settled
      · cases taken
        exact ⟨chain, sound.answer fun free => absurd free settled⟩
  | walkUp file permitted =>
      simp only at taken
      split_ifs at taken with inside refused gone
      · cases taken
        exact ⟨chain, sound.answer (by simp)⟩
      · cases taken
        exact ⟨chain, sound.answer (by simp)⟩
      · cases taken
        exact ⟨chain, sound.answer fun free => absurd (by simp [free]) gone⟩
  | other file error =>
      simp only at taken
      split_ifs at taken with inside
      cases taken
      exact ⟨chain, sound.answer (by simp [Op.needsParent])⟩

omit [DecidableEq Fid] [DecidableEq Thread] in
theorem listed (sound : s.Sound chain) : s.Listed where
  safe := sound.safe
  answered := sound.answered
  once fid l found _ began parent := (sound.following fid l found).once sound.shape began parent

end Sound

end Lists

variable {Fid Thread : Type} [DecidableEq Fid] [DecidableEq Thread] {texts : ℕ → Texts}
  {s : Tree Fid Thread}

instance (dotu : Bool) (texts : Texts) : Decidable (Closed dotu texts) :=
  inferInstanceAs (Decidable (dotu = true ∨ 0 < texts.muid))

instance (s : Tree Fid Thread) (file : ℕ) (l : Listing) : Decidable (s.PassesOn file l) :=
  inferInstanceAs (Decidable (l.dirent = some file →
    ∀ f ∈ l.atStart, s.parent f = some l.dir → f = file ∨ f ∈ l.returned))

instance [Fintype Fid] (s : Tree Fid Thread) : ∀ event, Decidable (s.Settled texts event)
  | .read fid _ => inferInstanceAs
      (Decidable (∀ l ∈ s.listing fid, ∀ f ∈ s.children l.dir, Closed l.dotu (texts f)))
  | .test _ file => inferInstanceAs (Decidable
      (s.parent file = none → s.dmdir file = true ∧ (s.dirfirst file).isSome = true))
  | .remove t permitted => inferInstanceAs (Decidable
      (∀ job ∈ s.removing t, permitted = true → s.parent job.1 ≠ none ∧ job.1 ≠ 0 ∧
        ∀ fid, ∀ l ∈ s.listing fid, s.PassesOn job.1 l))
  | .rename file _ => inferInstanceAs (Decidable (s.parent file ≠ none))
  | .open_ .. | .create .. | .walkUp .. | .other .. => .isTrue trivial

end Tree

end Npfs.DirListing
