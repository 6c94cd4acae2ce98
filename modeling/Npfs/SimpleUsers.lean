import Npfs.Fid
import Npfs.KeyedTable
import Npfs.Transition

/-!
# The simple user pool

`libnpfs/simpleusers.c` has no database: a user that is looked up and not found is made.  A name
makes a user without an id, and an id makes one whose name is its decimal form.
-/

namespace Npfs

namespace Simple

open KeyedTable (Distinct)

/-! ## The pool -/

/-- An `Npgroup`.  The address of an entry is the number of those made before it. -/
structure Npgroup where
  addr : ℕ
  gname : CStr
  gid : UInt32
  deriving DecidableEq

/-- An `Npuser`.  Nothing reads its groups, of which there are none, or its reference count. -/
structure Npuser where
  addr : ℕ
  uname : CStr
  uid : UInt32
  dfltgroup : Npgroup
  deriving DecidableEq

/-- `usercache` and `groupcache`. -/
structure Pool where
  users : List Npuser
  groups : List Npgroup

/-- `snprintf` of an id with `%u`. -/
def decimal (uid : UInt32) : CStr := cstr (toString uid.toNat)

namespace Pool

/-- Nothing has been looked up. -/
def empty : Pool := ⟨[], []⟩

variable (p : Pool)

/-- `np_simpl_gname2group`. -/
def npSimplGname2group (gname : CStr) : Npgroup × Pool :=
  match KeyedTable.lookup Npgroup.gname gname p.groups with
  | some g => (g, p)
  | none =>
    let g : Npgroup := ⟨p.groups.length, gname, -1⟩
    (g, { p with groups := g :: p.groups })

/-- What `np_simpl_uname2user` and `np_simpl_uid2user` share: the search, and the user that is made
if it finds nothing. -/
def find (hit : Npuser → Bool) (uname : CStr) (uid : UInt32) : Npuser × Pool :=
  match p.users.find? hit with
  | some u => (u, p)
  | none =>
    let made := p.npSimplGname2group uname
    let u : Npuser := ⟨p.users.length, uname, uid, made.1⟩
    (u, { made.2 with users := u :: p.users })

/-- `np_simpl_uname2user`. -/
def npSimplUname2user (uname : CStr) : Npuser × Pool := p.find (·.uname = uname) uname (-1)

/-- `np_simpl_uid2user`: an entry that the name side made carries no id, and is passed over. -/
def npSimplUid2user (uid : UInt32) : Npuser × Pool :=
  p.find (fun u => u.uid ≠ -1 ∧ u.uid = uid) (decimal uid) uid

end Pool

/-- A lookup of a user. -/
inductive Lookup where
  | uname (uname : CStr)
  | uid (uid : UInt32)

/-- The name under which the answer of a lookup is found. -/
def Lookup.name : Lookup → CStr
  | .uname given => given
  | .uid number => decimal number

namespace Pool

/-- The answer of a lookup, and the pool behind it. -/
def answer (p : Pool) : Lookup → Npuser × Pool
  | .uname uname => p.npSimplUname2user uname
  | .uid uid => p.npSimplUid2user uid

end Pool

/-- The pool, and the lookups so far with their answers. -/
structure History where
  pool : Pool
  answers : List (Lookup × Npuser)

namespace History

/-- No lookups yet. -/
def start : History := ⟨.empty, []⟩

/-- The next lookup. -/
def ask (h : History) (lookup : Lookup) : Option History :=
  some ⟨(h.pool.answer lookup).2, (lookup, (h.pool.answer lookup).1) :: h.answers⟩

/-! ## Identities -/

/-- Every user is one and the same for good. -/
structure Stable (h : History) : Prop where
  uname : ∀ uname u v, (.uname uname, u) ∈ h.answers → (.uname uname, v) ∈ h.answers → u = v
  uid : ∀ uid u v, (.uid uid, u) ∈ h.answers → (.uid uid, v) ∈ h.answers → u = v
  /-- The name of a user that was looked up by its id gives that user. -/
  back : ∀ uid u, (.uid uid, u) ∈ h.answers → (h.pool.npSimplUname2user u.uname).1 = u
  distinct : Distinct Npuser.uname h.pool.users

/-- The lookup is by a name; or by an id that a user carries, or whose decimal form is the name of
no user. -/
def Apart (h : History) : Lookup → Prop
  | .uname _ => True
  | .uid uid => (uid ≠ -1 ∧ ∃ u ∈ h.pool.users, u.uid = uid) ∨
      ∀ u ∈ h.pool.users, u.uname ≠ decimal uid

instance (h : History) (lookup : Lookup) : Decidable (h.Apart lookup) :=
  match lookup with
  | .uname _ => .isTrue trivial
  | .uid _ => inferInstanceAs (Decidable (_ ∨ _))

end History

namespace Pool

variable {p : Pool} {hit : Npuser → Bool} {uname : CStr} {uid : UInt32}

/-- A lookup gives an entry that is there, or makes one in front. -/
theorem find_cases (p : Pool) (hit : Npuser → Bool) (uname : CStr) (uid : UInt32) :
    (∃ u ∈ p.users, hit u = true ∧ p.find hit uname uid = (u, p)) ∨
      (∀ u ∈ p.users, hit u = false) ∧
        ∃ u : Npuser, u.uname = uname ∧ u.uid = uid ∧ (p.find hit uname uid).1 = u ∧
          (p.find hit uname uid).2.users = u :: p.users := by
  cases found : p.users.find? hit with
  | some u =>
      exact .inl ⟨u, List.mem_of_find?_eq_some found, List.find?_some found, by rw [find, found]⟩
  | none =>
      refine .inr ⟨fun u member => by simpa using List.find?_eq_none.mp found u member,
        ⟨p.users.length, uname, uid, (p.npSimplGname2group uname).1⟩, rfl, rfl, ?_, ?_⟩
      · rw [find, found]
      · rw [find, found]

/-- No entry is lost, and the answer is an entry. -/
theorem subset_find (p : Pool) (hit : Npuser → Bool) (uname : CStr) (uid : UInt32) :
    p.users ⊆ (p.find hit uname uid).2.users ∧
      (p.find hit uname uid).1 ∈ (p.find hit uname uid).2.users := by
  rcases p.find_cases hit uname uid with ⟨u, member, -, is⟩ | ⟨-, u, -, -, first, users⟩
  · rw [is]
    exact ⟨List.Subset.refl _, member⟩
  · rw [first, users]
    exact ⟨List.subset_cons_self _ _, List.mem_cons_self⟩

/-- The names stay apart if something is found, or the name is a new one; and only then. -/
theorem distinct_find_iff (distinct : Distinct Npuser.uname p.users) :
    Distinct Npuser.uname (p.find hit uname uid).2.users ↔
      (∃ u ∈ p.users, hit u = true) ∨ ∀ u ∈ p.users, u.uname ≠ uname := by
  rcases p.find_cases hit uname uid with ⟨u, member, found, is⟩ | ⟨missed, u, named, -, -, users⟩
  · rw [is]
    exact ⟨fun _ => .inl ⟨u, member, found⟩, fun _ => distinct⟩
  · have none : ¬ ∃ u ∈ p.users, hit u = true := by
      rintro ⟨v, member, found⟩
      simp [missed v member] at found
    rw [users, KeyedTable.distinct_cons, named]
    exact ⟨fun both => .inr both.1, fun apart => ⟨apart.resolve_left none, distinct⟩⟩

/-- A name finds the user that has it. -/
theorem uname2user_mem (distinct : Distinct Npuser.uname p.users) {u : Npuser}
    (member : u ∈ p.users) : (p.npSimplUname2user u.uname).1 = u := by
  have found : p.users.find? (fun v => decide (v.uname = u.uname)) = some u :=
    distinct.lookup_mem member
  rw [npSimplUname2user, find, found]

/-- A name gives a user of that name. -/
theorem uname_uname2user (p : Pool) (uname : CStr) :
    (p.npSimplUname2user uname).1.uname = uname := by
  rcases p.find_cases (·.uname = uname) uname (-1) with ⟨u, -, found, is⟩ | ⟨-, u, named, -, is, -⟩
  · rw [npSimplUname2user, is]
    simpa using found
  · rw [npSimplUname2user, is, named]

/-- The users with ids have the names of their ids. -/
def Numbered (p : Pool) : Prop := ∀ u ∈ p.users, u.uid ≠ -1 → u.uname = decimal u.uid

/-- An id gives a user with its decimal form as its name. -/
theorem uname_uid2user (numbered : p.Numbered) (uid : UInt32) :
    (p.npSimplUid2user uid).1.uname = decimal uid := by
  rcases p.find_cases (fun u => u.uid ≠ -1 ∧ u.uid = uid) (decimal uid) uid with
    ⟨u, member, found, is⟩ | ⟨-, u, named, -, is, -⟩
  · obtain ⟨carries, rfl⟩ : u.uid ≠ -1 ∧ u.uid = uid := by simpa using found
    rw [npSimplUid2user, is]
    exact numbered u member carries
  · rw [npSimplUid2user, is, named]

/-- Users are made with the name of their id, or without one. -/
theorem Numbered.find (numbered : p.Numbered) (made : uid ≠ -1 → uname = decimal uid) :
    (p.find hit uname uid).2.Numbered := by
  rcases p.find_cases hit uname uid with ⟨u, -, -, is⟩ | ⟨-, u, named, number, -, users⟩
  · rwa [is]
  · intro v member carries
    rcases List.mem_cons.mp (users ▸ member) with rfl | old
    · rw [named, number]
      exact made (number ▸ carries)
    · exact numbered v old carries

end Pool

namespace History

variable {h h' : History} {lookup : Lookup}

/-- The names are apart, ids have their own, and each answer is the entry with the name of its
lookup. -/
structure Sound (h : History) : Prop where
  distinct : Distinct Npuser.uname h.pool.users
  numbered : h.pool.Numbered
  answers : ∀ answer ∈ h.answers,
    answer.2 ∈ h.pool.users ∧ answer.2.uname = answer.1.name

theorem sound_start : start.Sound where
  distinct := KeyedTable.distinct_nil
  numbered u member := by cases member
  answers answer member := by cases member

theorem Sound.ask (sound : h.Sound) (apart : h.Apart lookup) (taken : h.ask lookup = some h') :
    h'.Sound := by
  obtain rfl := Option.some.inj taken
  have kept : h.pool.users ⊆ (h.pool.answer lookup).2.users ∧
      (h.pool.answer lookup).1 ∈ (h.pool.answer lookup).2.users := by
    cases lookup with
    | uname uname => exact h.pool.subset_find _ _ _
    | uid uid => exact h.pool.subset_find _ _ _
  refine ⟨?_, ?_, ?_⟩
  · cases lookup with
    | uname uname =>
        refine (Pool.distinct_find_iff sound.distinct).mpr ?_
        by_cases known : ∃ u ∈ h.pool.users, u.uname = uname
        · exact .inl (by simpa using known)
        · exact .inr (by simpa using known)
    | uid uid =>
        refine (Pool.distinct_find_iff sound.distinct).mpr (apart.imp_left ?_)
        rintro ⟨carries, u, member, rfl⟩
        exact ⟨u, member, by simpa using carries⟩
  · cases lookup with
    | uname uname => exact sound.numbered.find fun carries => absurd rfl carries
    | uid uid => exact sound.numbered.find fun _ => rfl
  · intro answer member
    rcases List.mem_cons.mp member with rfl | old
    · refine ⟨kept.2, ?_⟩
      cases lookup with
      | uname uname => exact h.pool.uname_uname2user uname
      | uid uid => exact Pool.uname_uid2user sound.numbered uid
    · exact ⟨kept.1 (sound.answers answer old).1, (sound.answers answer old).2⟩

theorem Sound.same (sound : h.Sound) {u v : Npuser} (left : (lookup, u) ∈ h.answers)
    (right : (lookup, v) ∈ h.answers) : u = v :=
  sound.distinct.eq (sound.answers _ left).1 (sound.answers _ right).1
    ((sound.answers _ left).2.trans (sound.answers _ right).2.symm)

theorem Sound.stable (sound : h.Sound) : h.Stable where
  uname _ _ _ left right := sound.same left right
  uid _ _ _ left right := sound.same left right
  back _ _ answered := Pool.uname2user_mem sound.distinct (sound.answers _ answered).1
  distinct := sound.distinct

/-- A lookup that keeps the names apart meets the condition. -/
theorem Sound.apart_of_distinct (sound : h.Sound) (taken : h.ask lookup = some h')
    (distinct : Distinct Npuser.uname h'.pool.users) : h.Apart lookup := by
  obtain rfl := Option.some.inj taken
  cases lookup with
  | uname uname => trivial
  | uid uid =>
      refine ((Pool.distinct_find_iff sound.distinct).mp distinct).imp_left ?_
      rintro ⟨u, member, found⟩
      obtain ⟨carries, rfl⟩ : u.uid ≠ -1 ∧ u.uid = uid := by simpa using found
      exact ⟨carries, u, member, rfl⟩

/-- In every run whose lookups by an id make no second user of a name, the identities are stable;
and the first lookup that does so ends that. -/
theorem stable_of_run (run : Transition.Reaches ask Apart start h) :
    h.Stable ∧ ∀ lookup h', h.ask lookup = some h' → (h'.Stable ↔ h.Apart lookup) := by
  have sound : h.Sound :=
    run.invariant Sound sound_start fun sound apart taken => sound.ask apart taken
  refine ⟨sound.stable, fun lookup h' taken => ⟨fun stable => ?_, fun apart => ?_⟩⟩
  · exact sound.apart_of_distinct taken stable.distinct
  · exact (sound.ask apart taken).stable

/-- A user is looked up by its name and by its id, and then by the decimal form of the id. -/
theorem stable_of_run_alice : ∃ h : History, h.pool.users.length = 2 ∧ h.answers.length = 3 ∧
    h.Stable := by
  have played : (Transition.play ask Apart start
      [.uname (cstr "alice"), .uid 1000, .uname (cstr "1000")]).map
        (fun h => (h.pool.users.length, h.answers.length)) = some (2, 3) := by
    decide +kernel
  obtain ⟨h, is, lengths⟩ := Option.map_eq_some_iff.mp played
  obtain ⟨users, answers⟩ : h.pool.users.length = 2 ∧ h.answers.length = 3 := by
    simpa using lengths
  exact ⟨h, users, answers, (stable_of_run (Transition.reaches_of_play is)).1⟩

/-- The name "1000" is looked up, and then the id 1000: two users have that name. -/
theorem not_stable_of_run : ¬ ∀ h, Transition.Reaches ask (fun _ _ => True) start h → h.Stable := by
  intro all
  have played : (Transition.play ask (fun _ _ => True) start
      [.uname (cstr "1000"), .uid 1000]).map (fun h => h.pool.users.map (·.uname)) =
        some [cstr "1000", cstr "1000"] := by
    decide +kernel
  obtain ⟨h, is, names⟩ := Option.map_eq_some_iff.mp played
  have distinct := (all h (Transition.reaches_of_play is)).distinct
  simp [Distinct, names] at distinct

end History

end Simple

end Npfs
