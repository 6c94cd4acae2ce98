import Npfs.Handlers
import Npfs.Transition

/-!
# The default user pool

`libnpfs/uxusers.c` looks users and groups up in the databases of the host, and keeps what it has
found in two hash tables.  A lookup that finds nothing sets the error of its thread.
-/

namespace Npfs

namespace Unix

/-! ## The databases -/

/-- A `struct passwd`. -/
structure Passwd where
  pwName : CStr
  pwUid : UInt32
  pwGid : UInt32

/-- A `struct group`. -/
structure Group where
  grName : CStr
  grGid : UInt32
  grMem : List CStr

/-- The databases of the host. -/
structure UserDatabase where
  passwd : List Passwd
  group : List Group
  /-- What a lookup returns that finds no entry: 0, or `ENOENT` and the like. -/
  notFound : UInt32
  strerror : UInt32 → CStr
  /-- What the array `gids` holds where nothing has been stored, and behind its end. -/
  junk : ℕ → UInt32

/-! ## The caches -/

/-- An `Npgroup`. -/
structure Npgroup where
  gname : CStr
  gid : UInt32

/-- An `Npuser`.  An array of groups that is `NULL` is `none`. -/
structure Npuser where
  uname : CStr
  uid : UInt32
  dfltgroup : Option Npgroup
  groups : Option (List Npgroup)
  ngroups : ℕ

/-- `usercache.hsize` and `groupcache.hsize`. -/
def hsize : ℕ := 64

/-- The hash tables of `usercache` and `groupcache`, and the error of the thread. -/
structure Lookup where
  users : ℕ → List Npuser
  groups : ℕ → List Npgroup
  error : Option Nperror

namespace Lookup

/-- Nothing is cached yet. -/
def start : Lookup := ⟨fun _ => [], fun _ => [], none⟩

variable (db : UserDatabase) (l : Lookup)

/-- `np_uerror`. -/
def npUerror (ecode : UInt32) : Lookup := { l with error := some (.of (db.strerror ecode) ecode) }

/-- A user gets in front of its chain. -/
def addUser (u : Npuser) : Lookup :=
  let n := u.uid.toNat % hsize
  { l with users := Function.update l.users n (u :: l.users n) }

/-- A group gets in front of its chain. -/
def addGroup (g : Npgroup) : Lookup :=
  let n := g.gid.toNat % hsize
  { l with groups := Function.update l.groups n (g :: l.groups n) }

/-- `strncpy` of a name into 256 bytes. -/
def copied (name : CStr) : CStr := npStrdup (name.bytes.take 256)

/-- The end of `np_unix_gname2group` and `np_unix_gid2group`. -/
def enterGroup : Option Group → Option Npgroup × Lookup
  | none => (none, l.npUerror db db.notFound)
  | some grp => (some ⟨copied grp.grName, grp.grGid⟩, l.addGroup ⟨copied grp.grName, grp.grGid⟩)

/-- `np_unix_gid2group`. -/
def npUnixGid2group (gid : UInt32) : Option Npgroup × Lookup :=
  match (l.groups (gid.toNat % hsize)).find? (·.gid = gid) with
  | some g => (some g, l)
  | none => l.enterGroup db (db.group.find? (·.grGid = gid))

/-- `np_unix_gname2group`. -/
def npUnixGname2group (gname : CStr) : Option Npgroup × Lookup :=
  match ((List.range hsize).flatMap l.groups).find? (·.gname = gname) with
  | some g => (some g, l)
  | none => l.enterGroup db (db.group.find? (·.grName = gname))

/-- What `np_init_user_groups` stores in `gids` from 1 on: the group once for each of its members,
if its first member is the user. -/
def memberGids (uname : CStr) : List UInt32 :=
  db.group.flatMap fun g =>
    if g.grMem.head? = some uname then List.replicate g.grMem.length g.grGid else []

/-- `gids[i]`. -/
def gids (u : Npuser) (i : ℕ) : UInt32 :=
  if i = 0 then (u.dfltgroup.map (·.gid)).getD (db.junk 0)
  else if i < 256 then (memberGids db u.uname).getD (i - 1) 0
  else db.junk i

/-- The groups of `gids`, or nothing if one is not found. -/
def findGroups (l : Lookup) : List UInt32 → Option (List Npgroup) × Lookup
  | [] => (some [], l)
  | gid :: rest =>
    match l.npUnixGid2group db gid with
    | (none, l) => (none, l)
    | (some g, l) => ((findGroups l rest).1.map (g :: ·), (findGroups l rest).2)

/-- `np_init_user_groups`, of a user without groups. -/
def npInitUserGroups (u : Npuser) : Npuser × Lookup :=
  let n := (memberGids db u.uname).length
  let (grps, l) := l.findGroups db ((List.range (n + 1)).map (gids db u))
  (if grps.isSome then { u with groups := grps, ngroups := n } else u, l)

/-- The end of `np_unix_uname2user` and `np_unix_uid2user`. -/
def enterUser : Option Passwd → Option Npuser × Lookup
  | none => (none, l.npUerror db db.notFound)
  | some pw =>
    let (dfltgroup, l) := l.npUnixGid2group db pw.pwGid
    let (u, l) := l.npInitUserGroups db ⟨copied pw.pwName, pw.pwUid, dfltgroup, none, 0⟩
    (some u, l.addUser u)

/-- `np_unix_uid2user`. -/
def npUnixUid2user (uid : UInt32) : Option Npuser × Lookup :=
  match (l.users (uid.toNat % hsize)).find? (·.uid = uid) with
  | some u => (some u, l)
  | none => l.enterUser db (db.passwd.find? (·.pwUid = uid))

/-- `np_unix_uname2user`. -/
def npUnixUname2user (uname : CStr) : Option Npuser × Lookup :=
  match ((List.range hsize).flatMap l.users).find? (·.uname = uname) with
  | some u => (some u, l)
  | none => l.enterUser db (db.passwd.find? (·.pwName = uname))

/-- What the server asks the pool for, in any order. -/
inductive Ask where
  | uid2user (uid : UInt32)
  | uname2user (uname : CStr)
  | gid2group (gid : UInt32)
  | gname2group (gname : CStr)
  /-- The error of the thread is another one. -/
  | werror (error : Option Nperror)

/-- The caches behind a call. -/
def ask : Ask → Option Lookup
  | .uid2user uid => some (l.npUnixUid2user db uid).2
  | .uname2user uname => some (l.npUnixUname2user db uname).2
  | .gid2group gid => some (l.npUnixGid2group db gid).2
  | .gname2group gname => some (l.npUnixGname2group db gname).2
  | .werror error => some { l with error }

/-- The caches that a server comes to. -/
abbrev Reached (l : Lookup) : Prop :=
  Transition.Reaches (fun l a => ask db l a) (fun _ _ => True) start l

/-! ## What the caches hold -/

/-- Only what is in the databases is cached, under its own id. -/
structure Sound : Prop where
  users : ∀ n, ∀ u ∈ l.users n, ∃ pw ∈ db.passwd, pw.pwUid = u.uid
  groups : ∀ n, ∀ g ∈ l.groups n, ∃ grp ∈ db.group, grp.grGid = g.gid

variable {db l} {l' : Lookup} {uid gid : UInt32} {u : Npuser} {g : Npgroup}

/-- The id of no user. -/
def UnknownUser (db : UserDatabase) (uid : UInt32) : Prop := ∀ pw ∈ db.passwd, pw.pwUid ≠ uid

/-- The id of no group. -/
def UnknownGroup (db : UserDatabase) (gid : UInt32) : Prop := ∀ grp ∈ db.group, grp.grGid ≠ gid

theorem sound_start : start.Sound db where
  users n u member := by cases member
  groups n g member := by cases member

theorem Sound.werror (sound : l.Sound db) (error : Option Nperror) :
    Lookup.Sound db { l with error } := ⟨sound.users, sound.groups⟩

theorem Sound.addUser (sound : l.Sound db) (known : ∃ pw ∈ db.passwd, pw.pwUid = u.uid) :
    (l.addUser u).Sound db where
  users n v member := by
    simp only [Lookup.addUser, Function.update_apply] at member
    split_ifs at member with same
    · rcases List.mem_cons.mp member with rfl | old
      · exact known
      · exact sound.users _ v old
    · exact sound.users n v member
  groups := sound.groups

theorem Sound.addGroup (sound : l.Sound db) (known : ∃ grp ∈ db.group, grp.grGid = g.gid) :
    (l.addGroup g).Sound db where
  users := sound.users
  groups n v member := by
    simp only [Lookup.addGroup, Function.update_apply] at member
    split_ifs at member with same
    · rcases List.mem_cons.mp member with rfl | old
      · exact known
      · exact sound.groups _ v old
    · exact sound.groups n v member

/-- A step of the pool: the caches stay sound, and an error stays an error. -/
structure Proper (db : UserDatabase) (l l' : Lookup) : Prop where
  sound : l.Sound db → l'.Sound db
  loud : l.error.isSome = true → l'.error.isSome = true

theorem Proper.refl : Proper db l l := ⟨id, id⟩

theorem Proper.trans {l'' : Lookup} (first : Proper db l l') (second : Proper db l' l'') :
    Proper db l l'' := ⟨second.sound ∘ first.sound, second.loud ∘ first.loud⟩

theorem proper_enterGroup {found : Option Group} (known : ∀ grp ∈ found, grp ∈ db.group) :
    Proper db l (l.enterGroup db found).2 := by
  cases found with
  | none => exact ⟨fun sound => sound.werror _, fun _ => rfl⟩
  | some grp => exact ⟨fun sound => sound.addGroup ⟨grp, known grp rfl, rfl⟩, id⟩

theorem proper_gid2group : Proper db l (l.npUnixGid2group db gid).2 := by
  unfold npUnixGid2group
  split
  · exact .refl
  · exact proper_enterGroup fun grp found => List.mem_of_find?_eq_some found

theorem proper_gname2group {gname : CStr} : Proper db l (l.npUnixGname2group db gname).2 := by
  unfold npUnixGname2group
  split
  · exact .refl
  · exact proper_enterGroup fun grp found => List.mem_of_find?_eq_some found

theorem proper_findGroups {gids : List UInt32} : Proper db l (findGroups db l gids).2 := by
  induction gids generalizing l with
  | nil => exact .refl
  | cons gid rest ih =>
      have first := @proper_gid2group db l gid
      unfold findGroups
      generalize l.npUnixGid2group db gid = found at first ⊢
      rcases found with ⟨none | g, l'⟩
      · exact first
      · exact first.trans ih

theorem proper_initUserGroups : Proper db l (l.npInitUserGroups db u).2 := proper_findGroups

theorem uid_initUserGroups : (l.npInitUserGroups db u).1.uid = u.uid := by
  unfold npInitUserGroups
  dsimp only
  split_ifs <;> rfl

theorem proper_enterUser {found : Option Passwd} (known : ∀ pw ∈ found, pw ∈ db.passwd) :
    Proper db l (l.enterUser db found).2 := by
  cases found with
  | none => exact ⟨fun sound => sound.werror _, fun _ => rfl⟩
  | some pw =>
      have first := @proper_gid2group db l pw.pwGid
      simp only [enterUser]
      generalize l.npUnixGid2group db pw.pwGid = found at first ⊢
      obtain ⟨dfltgroup, l'⟩ := found
      have second := @proper_initUserGroups db l' ⟨copied pw.pwName, pw.pwUid, dfltgroup, none, 0⟩
      have uid := @uid_initUserGroups db l' ⟨copied pw.pwName, pw.pwUid, dfltgroup, none, 0⟩
      exact (first.trans second).trans
        ⟨fun sound => sound.addUser ⟨pw, known pw rfl, uid.symm⟩, id⟩

theorem proper_uid2user : Proper db l (l.npUnixUid2user db uid).2 := by
  unfold npUnixUid2user
  split
  · exact .refl
  · exact proper_enterUser fun grp found => List.mem_of_find?_eq_some found

theorem proper_uname2user {uname : CStr} : Proper db l (l.npUnixUname2user db uname).2 := by
  unfold npUnixUname2user
  split
  · exact .refl
  · exact proper_enterUser fun grp found => List.mem_of_find?_eq_some found

/-- Whatever the server asks for, the caches hold what is in the databases. -/
theorem sound_of_reached (reached : Reached db l) : l.Sound db := by
  refine reached.invariant (Sound db) sound_start ?_
  rintro l l' a sound - taken
  cases a with
  | uid2user uid => exact Option.some.inj taken ▸ proper_uid2user.sound sound
  | uname2user uname => exact Option.some.inj taken ▸ proper_uname2user.sound sound
  | gid2group gid => exact Option.some.inj taken ▸ proper_gid2group.sound sound
  | gname2group gname => exact Option.some.inj taken ▸ proper_gname2group.sound sound
  | werror error => exact Option.some.inj taken ▸ sound.werror error

/-- A user that the database does not have is not found, and the thread gets an error. -/
theorem uid2user_unknown (sound : l.Sound db) (unknown : UnknownUser db uid) :
    l.npUnixUid2user db uid = (none, l.npUerror db db.notFound) := by
  have cached : (l.users (uid.toNat % hsize)).find? (·.uid = uid) = none := by
    refine List.find?_eq_none.mpr fun u member same => ?_
    obtain ⟨pw, entry, is⟩ := sound.users _ u member
    exact unknown pw entry (is.trans (by simpa using same))
  have absent : db.passwd.find? (·.pwUid = uid) = none :=
    List.find?_eq_none.mpr fun pw entry same => unknown pw entry (by simpa using same)
  rw [npUnixUid2user, cached, absent]
  rfl

/-- The same for a group. -/
theorem gid2group_unknown (sound : l.Sound db) (unknown : UnknownGroup db gid) :
    l.npUnixGid2group db gid = (none, l.npUerror db db.notFound) := by
  have cached : (l.groups (gid.toNat % hsize)).find? (·.gid = gid) = none := by
    refine List.find?_eq_none.mpr fun g member same => ?_
    obtain ⟨grp, entry, is⟩ := sound.groups _ g member
    exact unknown grp entry (is.trans (by simpa using same))
  have absent : db.group.find? (·.grGid = gid) = none :=
    List.find?_eq_none.mpr fun grp entry same => unknown grp entry (by simpa using same)
  rw [npUnixGid2group, cached, absent]
  rfl

end Lookup

end Unix

end Npfs
