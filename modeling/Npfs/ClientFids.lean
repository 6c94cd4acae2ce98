import Npfs.ClientPool
import Npfs.Ufs

/-!
# The fids of the client

The calls of `libnpclient` that allocate an `Npcfid` or free one.  A call is served by a server that
treats fids as 9P says; how it answers each message is a part of the call.  What messages say about
users, and the `Npwstat` of a Twstat, is left out.
-/

namespace Npfs.ClientFids

open Ufs (slash)

/-- An `Npcfid`, by the number of the ones that were allocated before it. -/
abbrev NpcfidPtr := ℕ

/-! ## Messages -/

/-- A T-message. -/
inductive Tmessage where
  | tversion
  | tauth (afid : UInt32)
  | tattach (fid afid : UInt32)
  | twalk (fid newfid : UInt32) (wnames : List (List UInt8))
  | topen (fid : UInt32) (mode : UInt8)
  | tcreate (fid : UInt32) (name : List UInt8) (perm : UInt32) (mode : UInt8)
  | tclunk (fid : UInt32)
  | tremove (fid : UInt32)
  | tstat (fid : UInt32)
  | twstat (fid : UInt32)

/-- How a message is answered. -/
inductive Answer where
  /-- Rversion, and whether `npc_mount` knows the version. -/
  | version (known : Bool)
  | walked (nwqid : ℕ)
  /-- The R-message of any other message. -/
  | done
  /-- Rerror.  The fid of a Tclunk or a Tremove may be gone nevertheless. -/
  | error (gone : Bool)
  deriving DecidableEq

/-- The fids of a server that answers a message so, if it can. -/
def serve (fids : Finset UInt32) : Tmessage → Answer → Option (Finset UInt32)
  | .tversion, .version _ => some fids
  | .tauth fid, .done | .tattach fid _, .done =>
    if fid ∈ fids then none else some (insert fid fids)
  | .twalk fid newfid wnames, .walked nwqid =>
    if fid ∈ fids ∧ (newfid = fid ∨ newfid ∉ fids) ∧ nwqid ≤ wnames.length then
      some (if nwqid = wnames.length then insert newfid fids else fids)
    else none
  | .topen fid _, .done | .tcreate fid _ _ _, .done | .tstat fid, .done | .twstat fid, .done =>
    if fid ∈ fids then some fids else none
  | .tclunk fid, .done | .tremove fid, .done =>
    if fid ∈ fids then some (fids.erase fid) else none
  | .tclunk fid, .error gone | .tremove fid, .error gone =>
    some (if gone then fids.erase fid else fids)
  | _, .error _ => some fids
  | _, _ => none

/-! ## The client -/

/-- A file system as the client has it, and the fids of its server. -/
structure Mount where
  /-- `fs->fidpool`. -/
  fidpool : Npcpool
  /-- The number of `Npcfid`s that were allocated. -/
  made : ℕ
  /-- `fid->fid`. -/
  fid : NpcfidPtr → UInt32
  /-- The `Npcfid`s that are allocated and not freed. -/
  live : Finset NpcfidPtr
  /-- An `Npcfid` was freed twice. -/
  misused : Bool
  /-- `fs->root`. -/
  root : Option NpcfidPtr
  /-- `fs->afid`. -/
  afid : Option NpcfidPtr
  /-- Whether `npc_mount` has returned the file system. -/
  mounted : Option Bool
  /-- The `Npcfid`s of the caller. -/
  held : Finset NpcfidPtr
  fids : Finset UInt32

namespace Mount

/-- `npc_create_fsys`. -/
def start : Mount where
  fidpool := npcCreatePool NOFID
  made := 0
  fid _ := 0
  live := ∅
  misused := false
  root := none
  afid := none
  mounted := none
  held := ∅
  fids := ∅

variable (s : Mount)

/-- `npc_fid_alloc`. -/
def npcFidAlloc : Option (NpcfidPtr × Mount) :=
  match npcGetId s.fidpool true with
  | (none, _) => none
  | (some id, fidpool) => some (s.made, { s with
      fidpool
      made := s.made + 1
      fid := Function.update s.fid s.made id
      live := insert s.made s.live })

/-- `npc_fid_free`. -/
def npcFidFree (fid : NpcfidPtr) : Mount :=
  { s with
    fidpool := npcPutId s.fidpool (s.fid fid)
    live := s.live.erase fid
    misused := s.misused || decide (fid ∉ s.live) }

/-- `npc_rpc`, with the answers that the server gives from here on. -/
def npcRpc (tc : Tmessage) : List Answer → Option (Answer × Mount × List Answer)
  | [] => none
  | rc :: answers => (serve s.fids tc rc).map fun fids => (rc, { s with fids }, answers)

end Mount

/-! ## Calls -/

/-- The inner loop of `npc_walk`: the names it finds, and what is left of the path. -/
def gather : (turns n : ℕ) → (s : List UInt8) → List (List UInt8) × List UInt8
  | 0, _, s | _ + 1, 0, s => ([], s)
  | _ + 1, _ + 1, [] => ([], [])
  | turns + 1, n + 1, c :: s =>
    if c = slash then gather turns (n + 1) s
    else
      let wname := (c :: s).takeWhile (· ≠ slash)
      let rest := ((c :: s).dropWhile (· ≠ slash)).drop 1
      let (wnames, rest) := gather turns n rest
      (wname :: wnames, rest)

/-- The names of each Twalk of `npc_walk`. -/
def twalks : (turns : ℕ) → (s : List UInt8) → List (List (List UInt8))
  | 0, _ => []
  | turns + 1, s =>
    let (wnames, rest) := gather s.length MAXWELEM s
    wnames :: if rest = [] then [] else twalks turns rest

/-- The names of each Twalk of a path. -/
def pathTwalks (path : List UInt8) : List (List (List UInt8)) :=
  let s := path.dropWhile (· = slash)
  twalks (s.length + 1) s

/-- What is in front of the last slash of a path, and what is behind it. -/
def strrchr (path : List UInt8) : Option (List UInt8 × List UInt8) :=
  if slash ∈ path then
    some (((path.reverse.dropWhile (· ≠ slash)).drop 1).reverse,
      (path.reverse.takeWhile (· ≠ slash)).reverse)
  else none

namespace Mount

/-- The outer loop of `npc_walk`: whether it ends without an error, and `nfid`. -/
def walkLoop (fid : NpcfidPtr) : List (List (List UInt8)) → (nfid : UInt32) → Mount →
    List Answer → Option (Bool × UInt32 × Mount × List Answer)
  | [], nfid, s, answers => some (true, nfid, s, answers)
  | wnames :: turns, nfid, s, answers => do
    let (rc, s, answers) ← s.npcRpc (.twalk nfid (s.fid fid) wnames) answers
    match rc with
    | .walked nwqid =>
      if nwqid ≠ wnames.length then some (false, s.fid fid, s, answers)
      else walkLoop fid turns (s.fid fid) s answers
    | _ => some (false, nfid, s, answers)

variable (s : Mount)

/-- `npc_clunk`: whether it returns 0. -/
def npcClunk (fid : NpcfidPtr) (answers : List Answer) : Option (Bool × Mount × List Answer) := do
  let (rc, s, answers) ← s.npcRpc (.tclunk (s.fid fid)) answers
  if rc = .done then some (true, s.npcFidFree fid, answers) else some (false, s, answers)

/-- `npc_walk`. -/
def npcWalk (path : List UInt8) (answers : List Answer) :
    Option (Option NpcfidPtr × Mount × List Answer) := do
  let root ← s.root
  let (fid, s) ← s.npcFidAlloc
  let (arrived, nfid, s, answers) ← walkLoop fid (pathTwalks path) (s.fid root) s answers
  if arrived then
    some (some fid, s, answers)
  else if nfid = s.fid fid then
    let (_, s, answers) ← s.npcClunk fid answers
    some (none, s, answers)
  else
    some (none, s, answers)

/-- `npc_close`; no requests of the fid are to be cancelled. -/
def npcClose (fid : NpcfidPtr) (answers : List Answer) : Option (Bool × Mount × List Answer) :=
  s.npcClunk fid answers

/-- Ask for something about a fid, and clunk it if this is refused: whether it is answered. -/
def npcAsk (fid : NpcfidPtr) (tc : Tmessage) (answers : List Answer) :
    Option (Bool × Mount × List Answer) := do
  let (rc, s, answers) ← s.npcRpc tc answers
  if rc = .done then
    some (true, s, answers)
  else
    let (_, s, answers) ← s.npcClose fid answers
    some (false, s, answers)

/-- `npc_open`. -/
def npcOpen (path : List UInt8) (mode : UInt8) (answers : List Answer) :
    Option (Option NpcfidPtr × Mount × List Answer) := do
  let (fid, s, answers) ← s.npcWalk path answers
  match fid with
  | none => some (none, s, answers)
  | some fid =>
    let (opened, s, answers) ← s.npcAsk fid (.topen (s.fid fid) mode) answers
    some (if opened then some fid else none, s, answers)

/-- `npc_create`.  It follows `NULL` if the path has no slash, and if `npc_walk` fails. -/
def npcCreate (path : List UInt8) (perm : UInt32) (mode : UInt8) (answers : List Answer) :
    Option (Option NpcfidPtr × Mount × List Answer) := do
  let (pname, fname) ← strrchr path
  let (fid, s, answers) ← s.npcWalk pname answers
  let fid ← fid
  let (created, s, answers) ← s.npcAsk fid (.tcreate (s.fid fid) fname perm mode) answers
  some (if created then some fid else none, s, answers)

/-- `npc_stat`: whether it returns a record. -/
def npcStat (path : List UInt8) (answers : List Answer) : Option (Bool × Mount × List Answer) := do
  let (fid, s, answers) ← s.npcWalk path answers
  match fid with
  | none => some (false, s, answers)
  | some fid => s.npcAsk fid (.tstat (s.fid fid)) answers

/-- `npc_wstat`: what it returns. -/
def npcWstat (path : List UInt8) (answers : List Answer) : Option (ℤ × Mount × List Answer) := do
  let (fid, s, answers) ← s.npcWalk path answers
  match fid with
  | none => some (0, s, answers)
  | some fid =>
    let (written, s, answers) ← s.npcAsk fid (.twstat (s.fid fid)) answers
    some (if written then 0 else -1, s, answers)

/-- `npc_remove`: what it returns. -/
def npcRemove (path : List UInt8) (answers : List Answer) : Option (ℤ × Mount × List Answer) := do
  let (fid, s, answers) ← s.npcWalk path answers
  match fid with
  | none => some (-1, s, answers)
  | some fid =>
    let (rc, s, answers) ← s.npcRpc (.tremove (s.fid fid)) answers
    if rc = .done then some (0, s.npcFidFree fid, answers) else some (-1, s, answers)

/-- The part of `npc_mount` that authenticates, if there is an `auth`, which passes or not: whether
`npc_mount` goes on. -/
def authenticate (auth : Option Bool) (answers : List Answer) :
    Option (Bool × Mount × List Answer) :=
  match auth with
  | none => some (true, s, answers)
  | some passes => do
    let (afid, s) ← s.npcFidAlloc
    let (rc, s, answers) ← s.npcRpc (.tauth (s.fid afid)) answers
    if rc = .done then some (passes, { s with afid := some afid }, answers)
    else some (true, s.npcFidFree afid, answers)

/-- `npc_mount` behind `npc_create_fsys`: whether it returns the file system. -/
def npcMount (auth : Option Bool) (answers : List Answer) :
    Option (Bool × Mount × List Answer) := do
  let (rc, s, answers) ← s.npcRpc .tversion answers
  if rc ≠ .version true then
    some (false, s, answers)
  else
    let (passed, s, answers) ← s.authenticate auth answers
    if passed then
      let (root, s) ← s.npcFidAlloc
      let afid := (s.afid.map s.fid).getD NOFID
      let (rc, s, answers) ← s.npcRpc (.tattach (s.fid root) afid) answers
      some (rc = .done, { s with root := some root }, answers)
    else
      some (false, s, answers)

end Mount

/-- A call of the client. -/
inductive Call where
  | mount (auth : Option Bool)
  | walk (path : CStr)
  | openPath (path : CStr) (mode : UInt8)
  | create (path : CStr) (perm : UInt32) (mode : UInt8)
  | stat (path : CStr)
  | wstat (path : CStr)
  | remove (path : CStr)
  | close (fid : NpcfidPtr)

/-- Whether a call walks a path. -/
def Call.walks : Call → Bool
  | .mount _ | .close _ => false
  | _ => true

namespace Mount

/-- The caller gets an `Npcfid`. -/
def give (s : Mount) (fid : Option NpcfidPtr) : Mount := { s with held := fid.toFinset ∪ s.held }

/-- Serve a call. -/
def call (s : Mount) (answers : List Answer) : Call → Option (Mount × List Answer)
  | .mount auth => do
    let (mounted, s, answers) ← s.npcMount auth answers
    return ({ s with mounted := some mounted }, answers)
  | .walk path => do
    let (fid, s, answers) ← s.npcWalk path.bytes answers
    return (s.give fid, answers)
  | .openPath path mode => do
    let (fid, s, answers) ← s.npcOpen path.bytes mode answers
    return (s.give fid, answers)
  | .create path perm mode => do
    let (fid, s, answers) ← s.npcCreate path.bytes perm mode answers
    return (s.give fid, answers)
  | .stat path => do
    let (_, s, answers) ← s.npcStat path.bytes answers
    return (s, answers)
  | .wstat path => do
    let (_, s, answers) ← s.npcWstat path.bytes answers
    return (s, answers)
  | .remove path => do
    let (_, s, answers) ← s.npcRemove path.bytes answers
    return (s, answers)
  | .close fid => do
    let (closed, s, answers) ← s.npcClose fid answers
    return (if closed then { s with held := s.held.erase fid } else s, answers)

/-- When a call can be made: `npc_mount` is the first one, and only an `Npcfid` of the caller is
closed. -/
def Ready (s : Mount) : Call → Prop
  | .mount _ => s.mounted = none
  | .close fid => s.mounted = some true ∧ fid ∈ s.held
  | _ => s.mounted = some true

instance (s : Mount) : DecidablePred s.Ready
  | .mount _ => inferInstanceAs (Decidable (s.mounted = none))
  | .close fid => inferInstanceAs (Decidable (s.mounted = some true ∧ fid ∈ s.held))
  | .walk _ | .openPath _ _ | .create _ _ _ | .stat _ | .wstat _ | .remove _ =>
    inferInstanceAs (Decidable (s.mounted = some true))

/-- Make a call, which gets all the answers. -/
def step (s : Mount) (label : Call × List Answer) : Option Mount :=
  if s.Ready label.1 then
    (s.call label.2 label.1).bind fun (s, answers) => if answers = [] then some s else none
  else none

/-- The `Npcfid`s in use. -/
def kept (s : Mount) : Finset NpcfidPtr := s.held ∪ s.root.toFinset ∪ s.afid.toFinset

/-- The fids are conserved. -/
structure Conserved (s : Mount) : Prop where
  allocated : ∀ k, Bitmap.holds s.fidpool.map k ↔ ∃ fid ∈ s.kept, (s.fid fid).toNat = k
  apart : ∀ fid ∈ s.kept, ∀ other ∈ s.kept, s.fid fid = s.fid other → fid = other
  freed : s.live = s.kept
  once : s.misused = false
  server : ∀ id ∈ s.fids, Bitmap.holds s.fidpool.map id.toNat

/-- A number is free. -/
def Room (s : Mount) : Prop := ∃ id : UInt32, Bitmap.holds s.fidpool.map id.toNat = false

end Mount

/-- Each Twalk is answered with as many qids as it has names, and what is answered then is as it has
to be; or a Twalk that is not the first one is not, and the Tclunk behind it is answered. -/
def Settles (rest : List Answer → Prop) :
    (created : Bool) → List (List (List UInt8)) → List Answer → Prop
  | _, [], answers => rest answers
  | _, _ :: _, [] => False
  | created, wnames :: turns, rc :: answers =>
    if rc = .walked wnames.length then Settles rest true turns answers
    else created = true ∧ answers = [.done]

/-- A message is answered by an error, and the Tclunk behind it is answered. -/
def Refused (answers : List Answer) : Prop :=
  answers = [.error false, .done] ∨ answers = [.error true, .done]

instance : DecidablePred Refused := fun answers =>
  inferInstanceAs (Decidable (answers = [.error false, .done] ∨ answers = [.error true, .done]))

instance decidableSettles {rest : List Answer → Prop} [DecidablePred rest] :
    ∀ created turns answers, Decidable (Settles rest created turns answers)
  | _, [], answers => inferInstanceAs (Decidable (rest answers))
  | _, _ :: _, [] => inferInstanceAs (Decidable False)
  | created, wnames :: turns, rc :: answers =>
    have := @decidableSettles rest _ true turns answers
    inferInstanceAs (Decidable (if rc = .walked wnames.length then Settles rest true turns answers
      else created = true ∧ answers = [.done]))

/-- A walk that fails has created the fid, and clunks it; npc_open and npc_create clunk it if they
fail; npc_stat and npc_wstat fail and clunk it; npc_remove does not fail behind the walk. -/
def Call.Settles : Call → List Answer → Prop
  | .mount _, _ | .close _, _ => True
  | .walk path, answers => ClientFids.Settles (· = []) false (pathTwalks path.bytes) answers
  | .openPath path _, answers =>
    ClientFids.Settles (fun rest => rest = [.done] ∨ Refused rest) false (pathTwalks path.bytes)
      answers
  | .create path _ _, answers => ∀ parts ∈ strrchr path.bytes,
    ClientFids.Settles (fun rest => rest = [.done] ∨ Refused rest) false (pathTwalks parts.1)
      answers
  | .stat path, answers | .wstat path, answers =>
    ClientFids.Settles Refused false (pathTwalks path.bytes) answers
  | .remove path, answers => ClientFids.Settles (· = [.done]) false (pathTwalks path.bytes) answers

/-- A call that takes a number finds one free, and what becomes of its fid is settled. -/
def Clean (s : Mount) (label : Call × List Answer) : Prop :=
  (label.1.walks = true → s.Room) ∧ label.1.Settles label.2

/-! ## The names of a path -/

/-- The names of a path. -/
def names (path : List UInt8) : List (List UInt8) := (path.splitOn slash).filter (· ≠ [])

theorem names_slash (s : List UInt8) : names (slash :: s) = names s := by
  have split : (slash :: s).splitOn slash = [] :: s.splitOn slash :=
    List.splitOn_append_cons_self [] s
  simp [names, split]

/-- The leading slashes are in front of no name. -/
theorem names_dropWhile (s : List UInt8) : names (s.dropWhile (· = slash)) = names s := by
  induction s with
  | nil => rfl
  | cons c s ih =>
      by_cases slashed : c = slash
      · subst slashed
        rw [names_slash, ← ih]
        simp
      · simp [slashed]

section Names

variable {wname rest s : List UInt8}

theorem names_single (single : slash ∉ wname) (some : wname ≠ []) : names wname = [wname] := by
  rw [names, List.splitOn_eq_singleton single]
  simp [some]

theorem names_append (single : slash ∉ wname) (some : wname ≠ []) :
    names (wname ++ slash :: rest) = wname :: names rest := by
  rw [names, List.splitOn_append_cons_self, List.splitOn_eq_singleton single]
  simp [names, some]

/-- The first name, and the ones behind the slash that ends it. -/
theorem names_cons (plain : s.headD slash ≠ slash) : names s =
    s.takeWhile (· ≠ slash) :: names ((s.dropWhile (· ≠ slash)).drop 1) := by
  have whole : s.takeWhile (· ≠ slash) ++ s.dropWhile (· ≠ slash) = s :=
    List.takeWhile_append_dropWhile
  have single : slash ∉ s.takeWhile (· ≠ slash) := fun member => by
    simpa using List.all_eq_true.mp List.all_takeWhile slash member
  have some : s.takeWhile (· ≠ slash) ≠ [] := by
    cases s with
    | nil => exact absurd rfl plain
    | cons c s => simp_all
  have ends : ∀ c ∈ (s.dropWhile (· ≠ slash)).head?, c = slash := by
    intro c first
    have kept := List.head?_dropWhile_not (fun c => decide (c ≠ slash)) s
    rw [Option.mem_def.mp first] at kept
    simpa using kept
  generalize s.takeWhile (· ≠ slash) = wname at whole single some ⊢
  generalize s.dropWhile (· ≠ slash) = behind at whole ends ⊢
  subst whole
  cases behind with
  | nil => simpa [names] using names_single single some
  | cons c rest =>
      obtain rfl := ends c rfl
      exact names_append single some

/-- The inner loop takes the first names, at most `n`, and what is left has the others. -/
theorem gather_spec (turns n : ℕ) (enough : s.length ≤ turns) :
    names s = (gather turns n s).1 ++ names (gather turns n s).2 ∧
      (gather turns n s).1.length ≤ n ∧ (gather turns n s).2.length ≤ s.length ∧
      ((gather turns n s).2 ≠ [] → n ≠ 0 → (gather turns n s).2.length < s.length) := by
  induction turns generalizing n s with
  | zero =>
      obtain rfl := List.eq_nil_of_length_eq_zero (Nat.le_zero.mp enough)
      simp [gather]
  | succ turns ih =>
      cases n with
      | zero => simp [gather]
      | succ n =>
          cases s with
          | nil => simp [gather]
          | cons c s =>
              rw [List.length_cons] at enough
              by_cases slashed : c = slash
              · subst slashed
                obtain ⟨split, few, short, less⟩ := @ih s (n + 1) (by omega)
                simp only [gather, if_true, names_slash, List.length_cons]
                exact ⟨split, few, by omega, fun more _ => by omega⟩
              · have first := @names_cons (c :: s) (by simpa using slashed)
                have shorter : (((c :: s).dropWhile (· ≠ slash)).drop 1).length ≤ s.length := by
                  simp only [List.dropWhile_cons_of_pos, slashed, ne_eq, not_false_eq_true,
                    decide_true, List.length_drop]
                  exact (Nat.sub_le _ _).trans (List.dropWhile_suffix _).length_le
                obtain ⟨split, few, short, less⟩ := @ih _ n (shorter.trans (by omega))
                simp only [gather, if_neg slashed, List.length_cons]
                rw [first]
                refine ⟨?_, ?_, ?_, ?_⟩
                · rw [List.cons_append, ← split]
                · exact Nat.succ_le_succ few
                · omega
                · intro _ _
                  omega

end Names

/-- The Twalks of `npc_walk` have the names of the path, in order, and none has too many. -/
theorem flatten_twalks (path : List UInt8) : (pathTwalks path).flatten = names path ∧
    ∀ wnames ∈ pathTwalks path, wnames.length ≤ MAXWELEM := by
  have loop (turns : ℕ) : ∀ s : List UInt8, s.length < turns → (twalks turns s).flatten = names s ∧
      ∀ wnames ∈ twalks turns s, wnames.length ≤ MAXWELEM := by
    induction turns with
    | zero => simp
    | succ turns ih =>
        intro s enough
        obtain ⟨split, few, short, less⟩ := @gather_spec s s.length MAXWELEM le_rfl
        by_cases done : (gather s.length MAXWELEM s).2 = []
        · have none' : names [] = [] := rfl
          rw [done, none', List.append_nil] at split
          simpa [twalks, done, split] using few
        · obtain ⟨rest, bounded⟩ := ih _ ((less done (by decide)).trans_le (by omega))
          simp only [twalks, if_neg done, List.flatten_cons, rest, List.mem_cons]
          refine ⟨split.symm, fun wnames member => ?_⟩
          rcases member with rfl | member
          · exact few
          · exact bounded _ member
  obtain ⟨flat, bounded⟩ := loop _ (path.dropWhile (· = slash)) (Nat.lt_succ_self _)
  exact ⟨flat.trans (names_dropWhile path), bounded⟩

/-! ## The pool -/

theorem npcGetId_room {p : Npcpool} (maxid : p.maxid = NOFID)
    (room : ∃ id : UInt32, Bitmap.holds p.map id.toNat = false) :
    ∃ id map, npcGetId p true = (some id, { p with map }) ∧
      Bitmap.holds p.map id.toNat = false ∧
      ∀ k, Bitmap.holds map k = (decide (k = id.toNat) || Bitmap.holds p.map k) := by
  rcases npcGetId_cases true (.inr room) with ⟨-, stays, full⟩ | ⟨id, map, got, free, -, marked, -⟩
  · obtain ⟨id, free⟩ := room
    have behind : 8 * p.msize ≤ id.toNat := by
      by_contra inside
      exact Bool.false_ne_true (free.symm.trans (full _ (not_le.mp inside)))
    have bound := id.toNat_lt
    have limit : NOFID.toNat = 2 ^ 32 - 1 := rfl
    rw [Bool.and_true, wants_full full, decide_eq_false_iff_not, UInt32.lt_iff_toNat_lt, maxid,
      limit, toNat_bits (behind.trans_lt bound)] at stays
    omega
  · exact ⟨id, map, got, free, marked⟩

namespace Mount

variable {s s' : Mount} {kept : Finset NpcfidPtr} {fid : NpcfidPtr}

/-- What holds of the `Npcfid`s in use. -/
structure Sound (s : Mount) (kept : Finset NpcfidPtr) : Prop where
  maxid : s.fidpool.maxid = NOFID
  allocated : ∀ k, Bitmap.holds s.fidpool.map k ↔ ∃ fid ∈ kept, (s.fid fid).toNat = k
  apart : ∀ fid ∈ kept, ∀ other ∈ kept, s.fid fid = s.fid other → fid = other
  freed : s.live = kept
  once : s.misused = false
  server : ∀ id ∈ s.fids, ∃ fid ∈ kept, s.fid fid = id
  old : ∀ fid ∈ kept, fid < s.made

/-- What only the calls themselves change. -/
structure Same (s s' : Mount) : Prop where
  root : s'.root = s.root
  afid : s'.afid = s.afid
  mounted : s'.mounted = s.mounted
  held : s'.held = s.held

theorem Same.trans {s'' : Mount} (first : Same s s') (second : Same s' s'') : Same s s'' :=
  ⟨second.root.trans first.root, second.afid.trans first.afid,
    second.mounted.trans first.mounted, second.held.trans first.held⟩

theorem Sound.alloc (sound : s.Sound kept) (room : s.Room) : ∃ fid s',
    s.npcFidAlloc = some (fid, s') ∧ s'.Sound (insert fid kept) ∧ fid ∉ kept ∧
      s'.fid fid ∉ s'.fids ∧ (∀ other ∈ kept, s'.fid other ≠ s'.fid fid) ∧ Same s s' := by
  obtain ⟨maxid, allocated, apart, freed, once, server, old⟩ := sound
  obtain ⟨id, map, got, free, marked⟩ := npcGetId_room maxid room
  have fresh : s.made ∉ kept := fun member => lt_irrefl _ (old _ member)
  have stays (fid : NpcfidPtr) (member : fid ∈ kept) :
      Function.update s.fid s.made id fid = s.fid fid :=
    Function.update_of_ne (fun same : fid = s.made => fresh (same ▸ member)) _ _
  have unused (fid : NpcfidPtr) (member : fid ∈ kept) : s.fid fid ≠ id := fun same =>
    Bool.false_ne_true (free.symm.trans ((allocated _).mpr ⟨fid, member, congrArg _ same⟩))
  have found : s.npcFidAlloc = some (s.made, { s with
      fidpool := { s.fidpool with map }
      made := s.made + 1
      fid := Function.update s.fid s.made id
      live := insert s.made s.live }) := by
    rw [npcFidAlloc, got]
  refine ⟨_, _, found, ⟨maxid, fun k => ?_, ?_, ?_, once, fun id' member => ?_, ?_⟩, fresh, ?_,
    fun other member => ?_, ⟨rfl, rfl, rfl, rfl⟩⟩
  · have same : (∃ fid ∈ kept, (Function.update s.fid s.made id fid).toNat = k) ↔
        ∃ fid ∈ kept, (s.fid fid).toNat = k :=
      exists_congr fun fid => and_congr_right fun member => by rw [stays fid member]
    simp only [marked, Bool.or_eq_true, decide_eq_true_eq, allocated, Finset.exists_mem_insert,
      Function.update_self, same]
    exact or_congr_left eq_comm
  · intro fid member other member' same
    simp only at same
    rcases Finset.mem_insert.mp member with rfl | member <;>
      rcases Finset.mem_insert.mp member' with rfl | member'
    · rfl
    · rw [Function.update_self, stays other member'] at same
      exact absurd same.symm (unused other member')
    · rw [Function.update_self, stays fid member] at same
      exact absurd same (unused fid member)
    · rw [stays fid member, stays other member'] at same
      exact apart fid member other member' same
  · exact congrArg (insert s.made) freed
  · obtain ⟨fid, member, named⟩ := server id' member
    exact ⟨fid, Finset.mem_insert_of_mem member, (stays fid member).trans named⟩
  · intro fid member
    rcases Finset.mem_insert.mp member with rfl | member
    · exact Nat.lt_succ_self _
    · exact Nat.lt_succ_of_lt (old fid member)
  · intro member
    simp only [Function.update_self] at member
    obtain ⟨fid, member, named⟩ := server _ member
    exact unused fid member named
  · simp only [Function.update_self]
    rw [stays other member]
    exact unused other member

theorem Sound.free (sound : s.Sound kept) (member : fid ∈ kept) (gone : s.fid fid ∉ s.fids) :
    (s.npcFidFree fid).Sound (kept.erase fid) := by
  obtain ⟨maxid, allocated, apart, freed, once, server, old⟩ := sound
  have marked : Bitmap.holds s.fidpool.map (s.fid fid).toNat = true :=
    (allocated _).mpr ⟨fid, member, rfl⟩
  have inside : (s.fid fid).toNat < 8 * s.fidpool.map.length := by
    by_contra outside
    rw [Bitmap.holds_of_ge (not_lt.mp outside)] at marked
    cases marked
  refine ⟨?_, fun k => ?_, ?_, ?_, ?_, fun id known => ?_, fun other known => ?_⟩
  · simpa [npcFidFree, npcPutId_eq] using maxid
  · simp only [npcFidFree, npcPutId_eq, Bitmap.holds_clear inside, Bool.and_eq_true,
      decide_eq_true_eq, allocated, Finset.mem_erase]
    constructor
    · rintro ⟨differs, other, known, rfl⟩
      exact ⟨other, ⟨fun same => differs (same ▸ rfl), known⟩, rfl⟩
    · rintro ⟨other, ⟨differs, known⟩, rfl⟩
      exact ⟨fun same => differs (apart other known fid member (UInt32.toNat_inj.mp same)), other,
        known, rfl⟩
  · intro other known another known' same
    exact apart other (Finset.mem_of_mem_erase known) another (Finset.mem_of_mem_erase known') same
  · exact congrArg (fun live => live.erase fid) freed
  · simp [npcFidFree, once, freed, member]
  · obtain ⟨other, known', named⟩ := server id known
    refine ⟨other, Finset.mem_erase.mpr ⟨?_, known'⟩, named⟩
    rintro rfl
    exact gone (named ▸ known)
  · exact old other (Finset.mem_of_mem_erase known)

end Mount

/-- The fid that a message asks for. -/
def Tmessage.newfid : Tmessage → Option UInt32
  | .tauth afid => some afid
  | .tattach fid _ => some fid
  | .twalk _ newfid _ => some newfid
  | _ => none

/-- A server has no fids that it was not asked for. -/
theorem serve_subset {fids fids' : Finset UInt32} {tc : Tmessage} {rc : Answer}
    (served : serve fids tc rc = some fids') : ∀ id ∈ fids', id ∈ fids ∨ tc.newfid = some id := by
  intro id member
  cases tc <;> cases rc <;> grind -linarith [serve, Tmessage.newfid]

namespace Mount

variable {s s' : Mount} {kept : Finset NpcfidPtr} {fid : NpcfidPtr} {tc : Tmessage} {rc : Answer}
  {answers answers' : List Answer}

theorem Sound.rpc (sound : s.Sound kept) (named : ∀ id ∈ tc.newfid, ∃ fid ∈ kept, s.fid fid = id)
    (taken : s.npcRpc tc answers = some (rc, s', answers')) :
    s'.Sound kept ∧ answers = rc :: answers' ∧
      ∃ fids, serve s.fids tc rc = some fids ∧ s' = { s with fids } := by
  cases answers with
  | nil => cases taken
  | cons first rest =>
      obtain ⟨fids, served, same⟩ := Option.map_eq_some_iff.mp taken
      obtain ⟨rfl, rfl, rfl⟩ : first = rc ∧ { s with fids } = s' ∧ rest = answers' := by
        simpa using same
      obtain ⟨maxid, allocated, apart, freed, once, server, old⟩ := sound
      refine ⟨⟨maxid, allocated, apart, freed, once, fun id member => ?_, old⟩, rfl, fids, served,
        rfl⟩
      rcases serve_subset served id member with known | asked
      · exact server id known
      · exact named id asked

theorem same_fids (fids : Finset UInt32) : Same s { s with fids } := ⟨rfl, rfl, rfl, rfl⟩

/-- A Tclunk is answered, and the fid is freed, or it is refused, and the fid stays. -/
theorem Sound.clunk {closed : Bool} (sound : s.Sound kept) (member : fid ∈ kept)
    (taken : s.npcClunk fid answers = some (closed, s', answers')) :
    Same s s' ∧ s'.Sound (if closed then kept.erase fid else kept) ∧
      ∃ rc, answers = rc :: answers' ∧ (closed = true ↔ rc = .done) := by
  obtain ⟨⟨rc, s₁, rest⟩, sent, taken⟩ := Option.bind_eq_some_iff.mp taken
  obtain ⟨sound₁, rfl, fids, served, rfl⟩ := sound.rpc (by simp [Tmessage.newfid]) sent
  by_cases done : rc = .done
  · subst done
    obtain ⟨rfl, rfl, rfl⟩ : true = closed ∧ npcFidFree { s with fids } fid = s' ∧
        rest = answers' := by
      simpa using taken
    refine ⟨⟨rfl, rfl, rfl, rfl⟩, sound₁.free member ?_, _, rfl, by simp⟩
    simp only [serve] at served
    split_ifs at served
    obtain rfl := Option.some.inj served
    exact Finset.notMem_erase _ _
  · obtain ⟨rfl, rfl, rfl⟩ : false = closed ∧ { s with fids } = s' ∧ rest = answers' := by
      simpa [done] using taken
    exact ⟨same_fids fids, sound₁, rc, rfl, by simp [done]⟩

/-- What the loop of `npc_walk` leaves.  The fid is known to the server behind the first Twalk that
is answered in full, and only then `nfid` names it. -/
theorem Sound.walkLoop {rest : List Answer → Prop} {turns : List (List (List UInt8))}
    {created arrived : Bool} {nfid nfid' : UInt32} (sound : s.Sound kept) (member : fid ∈ kept)
    (named : created = true → nfid = s.fid fid)
    (settles : Settles rest created turns answers)
    (taken : walkLoop fid turns nfid s answers = some (arrived, nfid', s', answers')) :
    Same s s' ∧ s'.Sound kept ∧ s'.fid = s.fid ∧
      if arrived then rest answers' else nfid' = s.fid fid ∧ answers' = [.done] := by
  induction turns generalizing created nfid s answers with
  | nil =>
      obtain ⟨rfl, rfl, rfl, rfl⟩ : true = arrived ∧ nfid = nfid' ∧ s = s' ∧
          answers = answers' := by
        simpa [Mount.walkLoop] using taken
      exact ⟨⟨rfl, rfl, rfl, rfl⟩, sound, rfl, settles⟩
  | cons wnames turns ih =>
      obtain ⟨⟨rc, s₁, answers₁⟩, sent, taken⟩ := Option.bind_eq_some_iff.mp taken
      obtain ⟨sound₁, rfl, fids, served, rfl⟩ := sound.rpc (by simpa [Tmessage.newfid] using
        ⟨fid, member, rfl⟩) sent
      by_cases full : rc = .walked wnames.length
      · subst full
        have settles₁ : Settles rest true turns answers₁ := by simpa [Settles] using settles
        have taken₁ : Mount.walkLoop fid turns (s.fid fid) { s with fids } answers₁ =
            some (arrived, nfid', s', answers') := by
          simpa using taken
        obtain ⟨same, sound', fids', ends⟩ := ih sound₁ (fun _ => rfl) settles₁ taken₁
        exact ⟨(same_fids fids).trans same, sound', fids', ends⟩
      · obtain ⟨known, rfl⟩ : created = true ∧ answers₁ = [.done] := by
          simpa [Settles, full] using settles
        obtain ⟨rfl, rfl, rfl, rfl⟩ : false = arrived ∧ s.fid fid = nfid' ∧ { s with fids } = s' ∧
            [.done] = answers' := by
          cases rc with
          | walked nwqid =>
              have short : nwqid ≠ wnames.length := fun same => full (congrArg _ same)
              simpa [short] using taken
          | version _ => simpa [named known] using taken
          | done => simpa [named known] using taken
          | error gone => simpa [named known] using taken
        exact ⟨same_fids fids, sound₁, rfl, rfl, rfl⟩

/-- The fid of a call that fails is given up. -/
theorem Sound.clunked {closed : Bool} (sound : s.Sound (insert fid kept)) (fresh : fid ∉ kept)
    (taken : s.npcClunk fid [.done] = some (closed, s', answers')) :
    Same s s' ∧ s'.Sound kept ∧ answers' = [] := by
  obtain ⟨same, sound', rc, answered, closes⟩ :=
    sound.clunk (Finset.mem_insert_self fid kept) taken
  obtain ⟨rfl, rfl⟩ : .done = rc ∧ [] = answers' := by simpa using answered
  rw [if_pos (closes.mpr rfl), Finset.erase_insert fresh] at sound'
  exact ⟨same, sound', rfl⟩

/-- `npc_walk` returns a new `Npcfid`, or leaves the ones in use as they are. -/
theorem Sound.walk {rest : List Answer → Prop} {path : List UInt8} {found : Option NpcfidPtr}
    (sound : s.Sound kept) (room : s.Room) (settles : Settles rest false (pathTwalks path) answers)
    (taken : s.npcWalk path answers = some (found, s', answers')) :
    Same s s' ∧ ((∃ fid, found = some fid ∧ fid ∉ kept ∧ s'.Sound (insert fid kept) ∧
        rest answers') ∨
      found = none ∧ s'.Sound kept ∧ answers' = []) := by
  obtain ⟨root, rooted, taken⟩ := Option.bind_eq_some_iff.mp taken
  obtain ⟨fid, s₁, allocated, sound₁, fresh, -, -, same₁⟩ := sound.alloc room
  rw [allocated, Option.bind_eq_bind, Option.bind_some] at taken
  obtain ⟨⟨arrived, nfid, s₂, answers₂⟩, walked, taken⟩ := Option.bind_eq_some_iff.mp taken
  have member := Finset.mem_insert_self fid kept
  obtain ⟨same₂, sound₂, fids, ends⟩ := sound₁.walkLoop member (by simp) settles walked
  cases arrived with
  | true =>
      obtain ⟨rfl, rfl, rfl⟩ : some fid = found ∧ s₂ = s' ∧ answers₂ = answers' := by
        simpa using taken
      exact ⟨same₁.trans same₂, .inl ⟨fid, rfl, fresh, sound₂, ends⟩⟩
  | false =>
      obtain ⟨rfl, rfl⟩ : nfid = s₁.fid fid ∧ answers₂ = [.done] := by simpa using ends
      simp only [Bool.false_eq_true, if_false, fids, if_true] at taken
      obtain ⟨⟨closed, s₃, answers₃⟩, clunked, taken⟩ := Option.bind_eq_some_iff.mp taken
      obtain ⟨rfl, rfl, rfl⟩ : none = found ∧ s₃ = s' ∧ answers₃ = answers' := by
        simpa using taken
      obtain ⟨same₃, sound₃, rfl⟩ := sound₂.clunked fresh clunked
      exact ⟨(same₁.trans same₂).trans same₃, .inr ⟨rfl, sound₃, rfl⟩⟩

/-- What is asked is answered, or refused and the fid given up. -/
theorem Sound.ask {asked : Bool} (sound : s.Sound (insert fid kept)) (fresh : fid ∉ kept)
    (plain : tc.newfid = none) (ends : answers = [.done] ∨ Refused answers)
    (taken : s.npcAsk fid tc answers = some (asked, s', answers')) :
    Same s s' ∧
      if asked then answers = [.done] ∧ s'.Sound (insert fid kept) else s'.Sound kept := by
  obtain ⟨⟨rc, s₁, answers₁⟩, sent, taken⟩ := Option.bind_eq_some_iff.mp taken
  obtain ⟨sound₁, same, fids, -, rfl⟩ := sound.rpc (by simp [plain]) sent
  by_cases done : rc = .done
  · obtain ⟨rfl, rfl, rfl⟩ : true = asked ∧ { s with fids } = s' ∧ answers₁ = answers' := by
      simpa [done] using taken
    refine ⟨same_fids fids, ?_, sound₁⟩
    rcases ends with ends | ends | ends
    · exact ends
    · rw [ends, done] at same
      cases same
    · rw [ends, done] at same
      cases same
  · simp only [if_neg done] at taken
    obtain ⟨⟨closed, s₂, answers₂⟩, clunked, taken⟩ := Option.bind_eq_some_iff.mp taken
    obtain ⟨rfl, rfl, rfl⟩ : false = asked ∧ s₂ = s' ∧ answers₂ = answers' := by simpa using taken
    have last : answers₁ = [.done] := by
      rcases ends with ends | ends | ends
      · rw [ends] at same
        exact absurd (List.cons.inj same).1.symm done
      · rw [ends] at same
        exact (List.cons.inj same).2.symm
      · rw [ends] at same
        exact (List.cons.inj same).2.symm
    subst last
    obtain ⟨same₂, sound₂, -⟩ := sound₁.clunked fresh clunked
    exact ⟨(same_fids fids).trans same₂, sound₂⟩

/-- A call has returned an `Npcfid` that was not in use, or none. -/
structure Given (s s' : Mount) (kept : Finset NpcfidPtr) (found : Option NpcfidPtr) : Prop where
  same : Same s s'
  fresh : ∀ fid ∈ found, fid ∉ kept
  sound : s'.Sound (found.toFinset ∪ kept)

theorem Given.some (same : Same s s') (fresh : fid ∉ kept) (sound : s'.Sound (insert fid kept)) :
    Given s s' kept (some fid) := by
  refine ⟨same, by simpa using fresh, ?_⟩
  rwa [Option.toFinset_some, ← Finset.insert_eq]

theorem Given.none (same : Same s s') (sound : s'.Sound kept) : Given s s' kept none := by
  refine ⟨same, by simp, ?_⟩
  rwa [Option.toFinset_none, Finset.empty_union]

theorem Given.ask {asked : Bool} (same : Same s s') {s'' : Mount} (fresh : fid ∉ kept)
    (sound : s'.Sound (insert fid kept)) (plain : tc.newfid = Option.none)
    (ends : answers = [.done] ∨ Refused answers)
    (taken : s'.npcAsk fid tc answers = Option.some (asked, s'', answers')) :
    Given s s'' kept (if asked then Option.some fid else Option.none) := by
  obtain ⟨same', sound'⟩ := sound.ask fresh plain ends taken
  cases asked with
  | true => exact .some (same.trans same') fresh sound'.2
  | false => exact .none (same.trans same') sound'

section Calls

variable {path : List UInt8} {perm : UInt32} {mode : UInt8} {found : Option NpcfidPtr}

theorem Sound.walked (sound : s.Sound kept) (room : s.Room)
    (settles : Settles (· = []) false (pathTwalks path) answers)
    (taken : s.npcWalk path answers = some (found, s', answers')) : Given s s' kept found := by
  obtain ⟨same, ⟨fid, rfl, fresh, sound', -⟩ | ⟨rfl, sound', -⟩⟩ := sound.walk room settles taken
  · exact .some same fresh sound'
  · exact .none same sound'

theorem Sound.opened (sound : s.Sound kept) (room : s.Room)
    (settles : Settles (fun rest => rest = [.done] ∨ Refused rest) false (pathTwalks path) answers)
    (taken : s.npcOpen path mode answers = some (found, s', answers')) : Given s s' kept found := by
  obtain ⟨⟨fid, s₁, answers₁⟩, walked, taken⟩ := Option.bind_eq_some_iff.mp taken
  obtain ⟨same, ⟨fid, rfl, fresh, sound₁, ends⟩ | ⟨rfl, sound₁, rfl⟩⟩ :=
    sound.walk room settles walked
  · obtain ⟨⟨asked, s₂, answers₂⟩, answered, taken⟩ := Option.bind_eq_some_iff.mp taken
    obtain ⟨rfl, rfl, rfl⟩ : (if asked then some fid else none) = found ∧ s₂ = s' ∧
        answers₂ = answers' := by
      simpa using taken
    exact .ask same fresh sound₁ rfl ends answered
  · obtain ⟨rfl, rfl, rfl⟩ : none = found ∧ s₁ = s' ∧ [] = answers' := by simpa using taken
    exact .none same sound₁

theorem Sound.created (sound : s.Sound kept) (room : s.Room)
    (settles : ∀ parts ∈ strrchr path, Settles (fun rest => rest = [.done] ∨ Refused rest) false
      (pathTwalks parts.1) answers)
    (taken : s.npcCreate path perm mode answers = some (found, s', answers')) :
    Given s s' kept found := by
  obtain ⟨⟨pname, fname⟩, parts, taken⟩ := Option.bind_eq_some_iff.mp taken
  obtain ⟨⟨fid, s₁, answers₁⟩, walked, taken⟩ := Option.bind_eq_some_iff.mp taken
  obtain ⟨same, ⟨fid, rfl, fresh, sound₁, ends⟩ | ⟨rfl, sound₁, rfl⟩⟩ :=
    sound.walk room (settles _ parts) walked
  · change (s₁.npcAsk fid _ answers₁).bind _ = some _ at taken
    obtain ⟨⟨asked, s₂, answers₂⟩, answered, taken⟩ := Option.bind_eq_some_iff.mp taken
    obtain ⟨rfl, rfl, rfl⟩ : (if asked then some fid else none) = found ∧ s₂ = s' ∧
        answers₂ = answers' := by
      simpa using taken
    exact .ask same fresh sound₁ rfl ends answered
  · cases taken

/-- What `npc_stat` and `npc_wstat` ask for is refused. -/
theorem Sound.refused {asked : Bool} (sound : s.Sound (insert fid kept)) (fresh : fid ∉ kept)
    (plain : tc.newfid = none) (ends : Refused answers)
    (taken : s.npcAsk fid tc answers = some (asked, s', answers')) :
    Same s s' ∧ s'.Sound kept := by
  obtain ⟨same, sound'⟩ := sound.ask fresh plain (.inr ends) taken
  cases asked with
  | true =>
      rw [if_pos rfl, Refused] at *
      obtain ⟨alone, -⟩ := sound'
      rw [alone] at ends
      simp at ends
  | false => exact ⟨same, sound'⟩

theorem Sound.stat {got : Bool} (sound : s.Sound kept) (room : s.Room)
    (settles : Settles Refused false (pathTwalks path) answers)
    (taken : s.npcStat path answers = some (got, s', answers')) : Same s s' ∧ s'.Sound kept := by
  obtain ⟨⟨fid, s₁, answers₁⟩, walked, taken⟩ := Option.bind_eq_some_iff.mp taken
  obtain ⟨same, ⟨fid, rfl, fresh, sound₁, ends⟩ | ⟨rfl, sound₁, rfl⟩⟩ :=
    sound.walk room settles walked
  · obtain ⟨same', sound'⟩ := sound₁.refused fresh rfl ends taken
    exact ⟨same.trans same', sound'⟩
  · obtain ⟨rfl, rfl, rfl⟩ : false = got ∧ s₁ = s' ∧ [] = answers' := by simpa using taken
    exact ⟨same, sound₁⟩

theorem Sound.wstat {ret : ℤ} (sound : s.Sound kept) (room : s.Room)
    (settles : Settles Refused false (pathTwalks path) answers)
    (taken : s.npcWstat path answers = some (ret, s', answers')) : Same s s' ∧ s'.Sound kept := by
  obtain ⟨⟨fid, s₁, answers₁⟩, walked, taken⟩ := Option.bind_eq_some_iff.mp taken
  obtain ⟨same, ⟨fid, rfl, fresh, sound₁, ends⟩ | ⟨rfl, sound₁, rfl⟩⟩ :=
    sound.walk room settles walked
  · obtain ⟨⟨asked, s₂, answers₂⟩, answered, taken⟩ := Option.bind_eq_some_iff.mp taken
    obtain ⟨-, rfl, rfl⟩ : (if asked then 0 else -1) = ret ∧ s₂ = s' ∧ answers₂ = answers' := by
      simpa using taken
    obtain ⟨same', sound'⟩ := sound₁.refused fresh rfl ends answered
    exact ⟨same.trans same', sound'⟩
  · obtain ⟨rfl, rfl, rfl⟩ : 0 = ret ∧ s₁ = s' ∧ [] = answers' := by simpa using taken
    exact ⟨same, sound₁⟩

theorem Sound.removed {ret : ℤ} (sound : s.Sound kept) (room : s.Room)
    (settles : Settles (· = [.done]) false (pathTwalks path) answers)
    (taken : s.npcRemove path answers = some (ret, s', answers')) : Same s s' ∧ s'.Sound kept := by
  obtain ⟨⟨fid, s₁, answers₁⟩, walked, taken⟩ := Option.bind_eq_some_iff.mp taken
  obtain ⟨same, ⟨fid, rfl, fresh, sound₁, rfl⟩ | ⟨rfl, sound₁, rfl⟩⟩ :=
    sound.walk room settles walked
  · obtain ⟨⟨rc, s₂, answers₂⟩, sent, taken⟩ := Option.bind_eq_some_iff.mp taken
    obtain ⟨sound₂, answered, fids, served, rfl⟩ := sound₁.rpc (by simp [Tmessage.newfid]) sent
    obtain ⟨rfl, rfl⟩ : .done = rc ∧ [] = answers₂ := by simpa using answered
    obtain ⟨-, rfl, -⟩ : 0 = ret ∧ npcFidFree { s₁ with fids } fid = s' ∧ [] = answers' := by
      simpa using taken
    have gone : s₁.fid fid ∉ fids := by
      simp only [serve] at served
      split_ifs at served
      obtain rfl := Option.some.inj served
      exact Finset.notMem_erase _ _
    have freed := sound₂.free (Finset.mem_insert_self fid kept) gone
    rw [Finset.erase_insert fresh] at freed
    exact ⟨same.trans ⟨rfl, rfl, rfl, rfl⟩, freed⟩
  · obtain ⟨rfl, rfl, rfl⟩ : -1 = ret ∧ s₁ = s' ∧ [] = answers' := by simpa using taken
    exact ⟨same, sound₁⟩

end Calls

/-! ## Mounting -/

/-- One `Npcfid` leaves numbers that are free. -/
theorem Sound.room (sound : s.Sound kept) (few : kept.card ≤ 1) : s.Room := by
  have free (id : UInt32) (unused : ∀ fid ∈ kept, s.fid fid ≠ id) :
      Bitmap.holds s.fidpool.map id.toNat = false := by
    rw [← Bool.not_eq_true, sound.allocated]
    rintro ⟨fid, member, same⟩
    exact unused fid member (UInt32.toNat_inj.mp same)
  rcases Finset.card_le_one_iff_subset_singleton.mp few with ⟨fid, only⟩
  by_cases zero : s.fid fid = 0
  · refine ⟨1, free 1 fun other member => ?_⟩
    rw [Finset.mem_singleton.mp (only member), zero]
    decide
  · refine ⟨0, free 0 fun other member => ?_⟩
    rwa [Finset.mem_singleton.mp (only member)]

theorem sound_start : start.Sound ∅ where
  maxid := rfl
  allocated k := by
    have empty : Bitmap.holds start.fidpool.map k = false := Bitmap.holds_zeros 32
    simp [empty]
  apart := by simp
  freed := rfl
  once := rfl
  server := by simp [start]
  old := by simp

theorem Sound.authenticate {auth : Option Bool} {passed : Bool} (sound : s.Sound ∅)
    (none' : s.afid = none) (taken : s.authenticate auth answers = some (passed, s', answers')) :
    s'.Sound s'.afid.toFinset ∧ s'.root = s.root ∧ s'.held = s.held := by
  cases auth with
  | none =>
      obtain ⟨-, rfl, -⟩ : true = passed ∧ s = s' ∧ answers = answers' := by
        simpa [Mount.authenticate] using taken
      rw [none', Option.toFinset_none]
      exact ⟨sound, rfl, rfl⟩
  | some passes =>
      obtain ⟨afid, s₁, allocated, sound₁, fresh, unknown, -, same⟩ :=
        sound.alloc (sound.room (by simp))
      rw [Mount.authenticate, allocated, Option.bind_eq_bind, Option.bind_some] at taken
      obtain ⟨⟨rc, s₂, answers₂⟩, sent, taken⟩ := Option.bind_eq_some_iff.mp taken
      have member := Finset.mem_insert_self afid (∅ : Finset NpcfidPtr)
      obtain ⟨sound₂, -, fids, served, rfl⟩ := sound₁.rpc (by simp [Tmessage.newfid]) sent
      by_cases done : rc = .done
      · obtain ⟨-, rfl, -⟩ : passes = passed ∧ { s₁ with fids, afid := some afid } = s' ∧
            answers₂ = answers' := by
          simpa [done] using taken
        obtain ⟨maxid, allocated, apart, freed, once, server, old⟩ := sound₂
        exact ⟨⟨maxid, allocated, apart, freed, once, server, old⟩, same.root, same.held⟩
      · obtain ⟨-, rfl, -⟩ : true = passed ∧ npcFidFree { s₁ with fids } afid = s' ∧
            answers₂ = answers' := by
          simpa [done] using taken
        have stays : s₁.fids = fids := by
          cases rc with
          | done => exact absurd rfl done
          | error gone => simpa [serve] using served
          | version known => simp [serve] at served
          | walked nwqid => simp [serve] at served
        have freed := sound₂.free member (stays ▸ unknown)
        rw [Finset.erase_insert fresh] at freed
        have afid' : s₁.afid.toFinset = ∅ := by rw [same.afid, none', Option.toFinset_none]
        refine ⟨?_, same.root, same.held⟩
        rw [← afid'] at freed
        exact freed

/-- The `Npcfid`s in use are the ones of the caller, the root and the one of the authentication. -/
structure Steady (s : Mount) : Prop where
  sound : s.Sound s.kept
  root : ∀ fid ∈ s.root, fid ∉ s.held
  afid : ∀ fid ∈ s.afid, fid ∉ s.held
  fresh : s.mounted = none → s = start

theorem steady_start : start.Steady where
  sound := sound_start
  root := by simp [start]
  afid := by simp [start]
  fresh _ := rfl

/-- `npc_mount` leaves the root and the fid of the authentication, whether it fails or not. -/
theorem Sound.mount {auth : Option Bool} {mounted : Bool}
    (taken : start.npcMount auth answers = some (mounted, s', answers')) :
    s'.Sound s'.kept ∧ s'.held = ∅ := by
  obtain ⟨⟨rc, s₁, answers₁⟩, sent, taken⟩ := Option.bind_eq_some_iff.mp taken
  obtain ⟨sound₁, -, fids, -, rfl⟩ := sound_start.rpc (by simp [Tmessage.newfid]) sent
  by_cases known : rc = .version true
  · simp only [known, ne_eq, not_true_eq_false, if_false] at taken
    obtain ⟨⟨passed, s₂, answers₂⟩, authenticated, taken⟩ := Option.bind_eq_some_iff.mp taken
    obtain ⟨sound₂, root₂, held₂⟩ := sound₁.authenticate rfl authenticated
    cases passed with
    | false =>
        obtain ⟨-, rfl, -⟩ : false = mounted ∧ s₂ = s' ∧ answers₂ = answers' := by
          simpa using taken
        have root : s₂.root = none := root₂
        have held : s₂.held = ∅ := held₂
        refine ⟨?_, held⟩
        rwa [kept, root, held, Option.toFinset_none, Finset.empty_union, Finset.empty_union]
    | true =>
        have few : s₂.afid.toFinset.card ≤ 1 := by cases s₂.afid <;> simp
        obtain ⟨root, s₃, allocated, sound₃, fresh, -, -, same⟩ := sound₂.alloc (sound₂.room few)
        change (s₂.npcFidAlloc).bind _ = _ at taken
        rw [allocated, Option.bind_some] at taken
        obtain ⟨⟨rc', s₄, answers₄⟩, attached, taken⟩ := Option.bind_eq_some_iff.mp taken
        obtain ⟨sound₄, -, fids', -, rfl⟩ := sound₃.rpc (by simp [Tmessage.newfid]) attached
        obtain ⟨-, rfl, -⟩ : decide (rc' = .done) = mounted ∧
            { s₃ with fids := fids', root := some root } = s' ∧ answers₄ = answers' := by
          simpa using taken
        have held : s₃.held = ∅ := same.held.trans held₂
        have uses : kept { s₃ with fids := fids', root := some root } =
            insert root s₂.afid.toFinset := by
          change s₃.held ∪ (some root).toFinset ∪ s₃.afid.toFinset = _
          rw [held, same.afid, Option.toFinset_some, Finset.empty_union, ← Finset.insert_eq]
        refine ⟨?_, held⟩
        rw [uses]
        obtain ⟨maxid, allocated, apart, freed, once, server, old⟩ := sound₄
        exact ⟨maxid, allocated, apart, freed, once, server, old⟩
  · obtain ⟨-, rfl, -⟩ : false = mounted ∧ { start with fids } = s' ∧ answers₁ = answers' := by
      simpa [known] using taken
    exact ⟨sound₁, rfl⟩

/-! ## Every run -/

theorem Given.steady {found : Option NpcfidPtr} (given : Given s s' s.kept found)
    (steady : s.Steady) (ready : s.mounted = Option.some true) : (s'.give found).Steady := by
  obtain ⟨⟨root, afid, mounted, held⟩, fresh, maxid, allocated, apart, freed, once, server, old⟩ :=
    given
  have uses : (s'.give found).kept = found.toFinset ∪ s.kept := by
    simp only [give, kept, root, afid, held, Finset.union_assoc]
  have out (fid : NpcfidPtr) (member : fid ∈ s.kept) (apart : fid ∉ s.held) :
      fid ∉ (s'.give found).held := by
    intro member'
    rcases Finset.mem_union.mp member' with returned | held'
    · exact fresh fid (Option.mem_toFinset.mp returned) member
    · exact apart (held ▸ held')
  refine ⟨?_, fun fid member => ?_, fun fid member => ?_, fun none' => ?_⟩
  · rw [uses]
    exact ⟨maxid, allocated, apart, freed, once, server, old⟩
  · have member' : fid ∈ s.root := root ▸ member
    refine out fid ?_ (steady.root fid member')
    simp [kept, Option.mem_def.mp member']
  · have member' : fid ∈ s.afid := afid ▸ member
    refine out fid ?_ (steady.afid fid member')
    simp [kept, Option.mem_def.mp member']
  · have mounted' : s'.mounted = Option.none := none'
    rw [mounted, ready] at mounted'
    cases mounted'

theorem Same.steady (same : Same s s') (sound : s'.Sound s.kept) (steady : s.Steady)
    (ready : s.mounted = some true) : s'.Steady := by
  obtain ⟨root, afid, mounted, held⟩ := same
  have uses : s'.kept = s.kept := by simp only [kept, root, afid, held]
  refine ⟨uses ▸ sound, ?_, ?_, fun none' => ?_⟩
  · rw [root, held]
    exact steady.root
  · rw [afid, held]
    exact steady.afid
  · rw [mounted, ready] at none'
    cases none'

theorem Steady.close {closed : Bool} (steady : s.Steady) (ready : s.Ready (.close fid))
    (taken : s.npcClose fid answers = some (closed, s', answers')) :
    (if closed then { s' with held := s'.held.erase fid } else s').Steady := by
  have member : fid ∈ s.kept := by simp [kept, ready.2]
  obtain ⟨same, sound, -⟩ := steady.sound.clunk member taken
  cases closed with
  | false => exact same.steady sound steady ready.1
  | true =>
      have noRoot : fid ∉ s.root.toFinset := fun known =>
        steady.root fid (Option.mem_toFinset.mp known) ready.2
      have noAfid : fid ∉ s.afid.toFinset := fun known =>
        steady.afid fid (Option.mem_toFinset.mp known) ready.2
      have uses : kept { s' with held := s'.held.erase fid } = s.kept.erase fid := by
        change s'.held.erase fid ∪ s'.root.toFinset ∪ s'.afid.toFinset = _
        rw [same.held, same.root, same.afid, kept, Finset.erase_union_distrib,
          Finset.erase_union_distrib, Finset.erase_eq_of_notMem noRoot,
          Finset.erase_eq_of_notMem noAfid]
      obtain ⟨maxid, allocated, apart, freed, once, server, old⟩ := sound
      refine ⟨?_, fun other member => ?_, fun other member => ?_, fun none' => ?_⟩
      · rw [if_pos rfl, uses]
        exact ⟨maxid, allocated, apart, freed, once, server, old⟩
      · have member' : other ∈ s.root := same.root ▸ member
        intro held
        exact steady.root other member' (same.held ▸ Finset.mem_of_mem_erase held)
      · have member' : other ∈ s.afid := same.afid ▸ member
        intro held
        exact steady.afid other member' (same.held ▸ Finset.mem_of_mem_erase held)
      · have mounted : s'.mounted = none := none'
        rw [same.mounted, ready.1] at mounted
        cases mounted

theorem Steady.mount {auth : Option Bool} {mounted : Bool} (steady : s.Steady)
    (ready : s.Ready (.mount auth))
    (taken : s.npcMount auth answers = some (mounted, s', answers')) :
    ({ s' with mounted := some mounted } : Mount).Steady := by
  obtain rfl := steady.fresh ready
  obtain ⟨⟨maxid, allocated, apart, freed, once, server, old⟩, held⟩ := Sound.mount taken
  refine ⟨⟨maxid, allocated, apart, freed, once, server, old⟩, ?_, ?_, ?_⟩
  · simp [held]
  · simp [held]
  · simp

theorem Steady.step {label : Call × List Answer} (steady : s.Steady) (clean : Clean s label)
    (taken : s.step label = some s') : s'.Steady := by
  obtain ⟨call, answers⟩ := label
  simp only [Mount.step] at taken
  split_ifs at taken with ready
  obtain ⟨⟨s₁, answers₁⟩, called, taken⟩ := Option.bind_eq_some_iff.mp taken
  obtain ⟨-, rfl⟩ : answers₁ = [] ∧ s₁ = s' := by simpa using taken
  cases call with
  | mount auth =>
      obtain ⟨⟨mounted, s₂, answers₂⟩, served, called⟩ := Option.bind_eq_some_iff.mp called
      obtain ⟨rfl, rfl⟩ : { s₂ with mounted := some mounted } = s₁ ∧ answers₂ = answers₁ := by
        simpa using called
      exact steady.mount ready served
  | walk path =>
      obtain ⟨⟨found, s₂, answers₂⟩, served, called⟩ := Option.bind_eq_some_iff.mp called
      obtain ⟨rfl, rfl⟩ : s₂.give found = s₁ ∧ answers₂ = answers₁ := by simpa using called
      exact (steady.sound.walked (clean.1 rfl) clean.2 served).steady steady ready
  | openPath path mode =>
      obtain ⟨⟨found, s₂, answers₂⟩, served, called⟩ := Option.bind_eq_some_iff.mp called
      obtain ⟨rfl, rfl⟩ : s₂.give found = s₁ ∧ answers₂ = answers₁ := by simpa using called
      exact (steady.sound.opened (clean.1 rfl) clean.2 served).steady steady ready
  | create path perm mode =>
      obtain ⟨⟨found, s₂, answers₂⟩, served, called⟩ := Option.bind_eq_some_iff.mp called
      obtain ⟨rfl, rfl⟩ : s₂.give found = s₁ ∧ answers₂ = answers₁ := by simpa using called
      exact (steady.sound.created (clean.1 rfl) clean.2 served).steady steady ready
  | stat path =>
      obtain ⟨⟨got, s₂, answers₂⟩, served, called⟩ := Option.bind_eq_some_iff.mp called
      obtain ⟨rfl, rfl⟩ : s₂ = s₁ ∧ answers₂ = answers₁ := by simpa using called
      obtain ⟨same, sound⟩ := steady.sound.stat (clean.1 rfl) clean.2 served
      exact same.steady sound steady ready
  | wstat path =>
      obtain ⟨⟨ret, s₂, answers₂⟩, served, called⟩ := Option.bind_eq_some_iff.mp called
      obtain ⟨rfl, rfl⟩ : s₂ = s₁ ∧ answers₂ = answers₁ := by simpa using called
      obtain ⟨same, sound⟩ := steady.sound.wstat (clean.1 rfl) clean.2 served
      exact same.steady sound steady ready
  | remove path =>
      obtain ⟨⟨ret, s₂, answers₂⟩, served, called⟩ := Option.bind_eq_some_iff.mp called
      obtain ⟨rfl, rfl⟩ : s₂ = s₁ ∧ answers₂ = answers₁ := by simpa using called
      obtain ⟨same, sound⟩ := steady.sound.removed (clean.1 rfl) clean.2 served
      exact same.steady sound steady ready
  | close fid =>
      obtain ⟨⟨closed, s₂, answers₂⟩, served, called⟩ := Option.bind_eq_some_iff.mp called
      obtain ⟨rfl, rfl⟩ : (if closed then { s₂ with held := s₂.held.erase fid } else s₂) = s₁ ∧
          answers₂ = answers₁ := by
        simpa using called
      exact steady.close ready served

theorem Sound.conserved (sound : s.Sound s.kept) : s.Conserved where
  allocated := sound.allocated
  apart := sound.apart
  freed := sound.freed
  once := sound.once
  server id member := by
    obtain ⟨fid, known, rfl⟩ := sound.server id member
    exact (sound.allocated _).mpr ⟨fid, known, rfl⟩

/-- The fids are conserved in each run whose calls are clean. -/
theorem fids_of_run (run : Transition.Reaches step Clean start s) : s.Conserved :=
  (run.invariant Steady steady_start fun steady clean taken =>
    steady.step clean taken).sound.conserved

/-! ## A record that is read -/

/-- `npc_stat` finds the file, and gets its record. -/
def reading : List (Call × List Answer) :=
  [(.mount none, [.version true, .done]), (.stat (cstr "a"), [.walked 1, .done])]

/-- A path of two names is opened, another file does not let itself be opened, and the first one is
closed. -/
def opening : List (Call × List Answer) :=
  [(.mount none, [.version true, .done]), (.openPath (cstr "/a//b") 0, [.walked 2, .done]),
    (.openPath (cstr "c") 1, [.walked 1, .error false, .done]), (.close 1, [.done])]

instance : ∀ call answers, Decidable (Call.Settles call answers)
  | .mount _, _ | .close _, _ => inferInstanceAs (Decidable True)
  | .walk _, answers => inferInstanceAs (Decidable (Settles (· = []) false _ answers))
  | .openPath _ _, answers =>
    inferInstanceAs (Decidable (Settles (fun rest => rest = [.done] ∨ Refused rest) false _
      answers))
  | .create path _ _, answers => inferInstanceAs (Decidable (∀ parts ∈ strrchr path.bytes, Settles
    (fun rest => rest = [.done] ∨ Refused rest) false (pathTwalks parts.1) answers))
  | .stat path, answers | .wstat path, answers =>
    inferInstanceAs (Decidable (Settles Refused false (pathTwalks path.bytes) answers))
  | .remove _, answers => inferInstanceAs (Decidable (Settles (· = [.done]) false _ answers))

/-- The fid of the record is not freed. -/
theorem not_fids_of_run : ¬ ∀ s : Mount,
    Transition.Reaches step (fun _ _ => True) start s → s.Conserved := by
  intro all
  have played : (Transition.play step (fun _ _ => True) start reading).map
      (fun s => (s.live, s.kept)) = some ({0, 1}, {0}) := by
    decide +kernel
  obtain ⟨s, run, left⟩ := Option.map_eq_some_iff.mp played
  obtain ⟨live, kept⟩ : s.live = {0, 1} ∧ s.kept = {0} := by simpa using left
  have freed := (all s (Transition.reaches_of_play run)).freed
  rw [live, kept] at freed
  exact absurd freed (by decide)

theorem fids_opening : ∃ s : Mount, s.made = 3 ∧ s.held = ∅ ∧ s.fids = {0} ∧ s.Conserved := by
  have played : (Transition.play step (fun s label => Bitmap.holds s.fidpool.map 255 = false ∧
      label.1.Settles label.2) start opening).map (fun s => (s.made, s.held, s.fids)) =
      some (3, ∅, {0}) := by
    decide +kernel
  obtain ⟨s, run, left⟩ := Option.map_eq_some_iff.mp played
  obtain ⟨made, held, fids⟩ : s.made = 3 ∧ s.held = ∅ ∧ s.fids = {0} := by simpa using left
  refine ⟨s, made, held, fids, fids_of_run ((Transition.reaches_of_play run).mono ?_)⟩
  exact fun s label allowed => ⟨fun _ => ⟨255, allowed.1⟩, allowed.2⟩

end Mount

end Npfs.ClientFids
