import Npfs.FailedRequest
import Npfs.HostReads
import Npfs.UfsCalls

/-!
# The fids of the pool are complete

A fid is in the pool before it has a user and before the file server has set its `aux`. Between two
requests to a server of `libufs` without authentication it has both: a handler that could not finish
a fid has destroyed it.
-/

namespace Npfs

open Program Serve

namespace Ufs

/-! ## What the functions of `libufs` leave alone -/

/-- The fid has kept its number, its references and its user, and its `aux` if it had one. -/
structure Kept (f f' : Npfid Fid) : Prop where
  fid : f'.fid = f.fid
  refcount : f'.refcount = f.refcount
  user : f'.user = f.user
  aux : f.aux.isSome → f'.aux.isSome

/-- The same fids are in the pool, and all fids have kept what a function of `libufs` may not
change. -/
structure Gentle (s s' : State) : Prop where
  srv : s'.srv = s.srv
  pool : s'.pool = s.pool
  reqFid : s'.reqFid = s.reqFid
  fids : ∀ p f, s.fids.get p = some f → ∃ f', s'.fids.get p = some f' ∧ Kept f f'

theorem Kept.refl (f : Npfid Fid) : Kept f f := ⟨rfl, rfl, rfl, id⟩

theorem Gentle.refl (s : State) : Gentle s s := ⟨rfl, rfl, rfl, fun _ f found => ⟨f, found, .refl f⟩⟩

theorem Gentle.trans {s s' s'' : State} (first : Gentle s s') (second : Gentle s' s'') :
    Gentle s s'' where
  srv := second.srv.trans first.srv
  pool := second.pool.trans first.pool
  reqFid := second.reqFid.trans first.reqFid
  fids p f found := by
    obtain ⟨f', found', kept⟩ := first.fids p f found
    obtain ⟨f'', found'', kept'⟩ := second.fids p f' found'
    exact ⟨f'', found'', kept'.fid.trans kept.fid, kept'.refcount.trans kept.refcount,
      kept'.user.trans kept.user, fun aux => kept'.aux (kept.aux aux)⟩

theorem Gentle.of_fids {s s' : State} (srv : s'.srv = s.srv) (pool : s'.pool = s.pool)
    (reqFid : s'.reqFid = s.reqFid) (fids : s'.fids = s.fids) : Gentle s s' :=
  ⟨srv, pool, reqFid, fun _ f found => ⟨f, fids ▸ found, .refl f⟩⟩

theorem Gentle.modify {s : State} {p : FidPtr} {change : Npfid Fid → Npfid Fid}
    (kept : ∀ f, Kept f (change f)) : Gentle s (s.modify p change) := by
  refine ⟨rfl, rfl, rfl, fun q f found => ?_⟩
  rw [Session.modify, Cells.get_modify]
  split_ifs with same
  · subst same
    exact ⟨change f, by rw [found]; rfl, kept f⟩
  · exact ⟨f, found, .refl f⟩

theorem Gentle.load {s : State} {p : FidPtr} {β : Type} {field : Npfid Fid → β} {junk : β} :
    Gentle s (s.load p field junk).2 := by
  unfold Session.load
  split <;> exact .of_fids rfl rfl rfl rfl

/-- The functions that do not give a fid a reference. -/
def Lends : Callback → Prop
  | .attach .. | .xattrwalk .. => False
  | _ => True

/-- Nothing is known of the `Fid`s and of the answers of the host. -/
abbrev Loose {α : Type} (u : Ufssrv) (c : Callback) (code : Code α) : Prop :=
  Follows u (fun _ _ => True) (fun _ _ => True) c code

theorem gentle_execOp {u : Ufssrv} {s : State} {c : Callback} (lends : Lends c) {op : Op}
    (does : Does u (fun _ _ => True) (fun _ _ => True) c op) : Gentle s (execOp u op s).2 := by
  have stores (p : FidPtr) (aux : Fid) :
      Gentle s (s.modify p fun f => { f with aux := some aux }) :=
    .modify fun f => ⟨rfl, rfl, rfl, fun _ => rfl⟩
  cases does with
  | plain plain =>
      cases op with
      | sys call => exact .of_fids rfl rfl rfl rfl
      | aux p => exact .load
      | setAux p aux => exact stores p aux
      | ufs => exact .refl s
      | np op =>
          cases op with
          | fidFind | werror | rerror | conn | malloc | crash => exact .of_fids rfl rfl rfl rfl
          | omode | user => exact .load
          | setOmode | setType => exact .modify fun f => ⟨rfl, rfl, rfl, id⟩
          | _ => exact plain.elim
  | attaches callback => exact (callback ▸ lends : Lends (.attach ..)).elim
  | describes callback => exact (callback ▸ lends : Lends (.xattrwalk ..)).elim
  | sys | commits | clears | unlinks => exact .of_fids rfl rfl rfl rfl
  | stays | moves | attached | cloned | fetches | fetched | xattrcreated | xattrwritten =>
      exact stores _ _

/-- Code that keeps to the table of such a function is gentle. -/
theorem Gentle.code {u : Ufssrv} {s : State} {c : Callback} {α : Type} {code : Code α}
    (lends : Lends c) (follows : Loose u c code) : Gentle s (code.run (execOp u) s).2 := by
  have kept : ∀ op s', Gentle s s' → Does u (fun _ _ => True) (fun _ _ => True) c op →
      Gentle s (execOp u op s').2 := fun op s' gentle does => gentle.trans (gentle_execOp lends does)
  refine (Always.run follows (fun op s' _ _ => ?_) kept (.refl s)).2.1
  cases op with
  | ufs => rfl
  | aux p => exact fun _ _ => trivial
  | _ => trivial

theorem gentle_call {u : Ufssrv} {s : State} {c : Callback} (lends : Lends c) :
    Gentle s (exec u (.call c) s).2 :=
  .code lends (follows_ufsStart ⟨fun _ _ => trivial⟩ c)

/-! ## Complete fids -/

/-- A fid with the number `n` that is in use, and that the file server and the user are known of. -/
structure Complete (n : UInt32) (f : Npfid Fid) : Prop where
  fid : f.fid = n
  refcount : 1 ≤ f.refcount
  user : f.user.isSome
  aux : f.aux.isSome

/-- There is no authentication, and all fids of the pool but perhaps some are complete. -/
structure SoundBut (but : Set FidPtr) (s : State) : Prop where
  auth : s.srv.auth = none
  fids : ∀ n p, s.pool n = some p →
    ∃ f, s.fids.get p = some f ∧ f.fid = n ∧ (p ∉ but → Complete n f)

/-- All fids of the pool are complete. -/
abbrev Sound : State → Prop := SoundBut ∅

theorem Complete.kept {n : UInt32} {f f' : Npfid Fid} (complete : Complete n f) (kept : Kept f f') :
    Complete n f' where
  fid := kept.fid.trans complete.fid
  refcount := kept.refcount ▸ complete.refcount
  user := kept.user ▸ complete.user
  aux := kept.aux complete.aux

section Sound

variable {u : Ufssrv} {s s' : State} {but : Set FidPtr} {p q : FidPtr} {f : Npfid Fid}

theorem SoundBut.mono {but' : Set FidPtr} (sound : SoundBut but s) (more : but ⊆ but') :
    SoundBut but' s where
  auth := sound.auth
  fids n p entry := by
    obtain ⟨f, found, number, complete⟩ := sound.fids n p entry
    exact ⟨f, found, number, fun other => complete fun member => other (more member)⟩

/-- The fid that was not complete is complete now. -/
theorem SoundBut.finish (sound : SoundBut {q} s) (found : s.fids.get q = some f)
    (complete : Complete f.fid f) : Sound s where
  auth := sound.auth
  fids n p entry := by
    obtain ⟨g, live, number, others⟩ := sound.fids n p entry
    refine ⟨g, live, number, fun _ => ?_⟩
    rcases eq_or_ne p q with rfl | other
    · obtain rfl : f = g := Option.some.inj (found.symm.trans live)
      exact number ▸ complete
    · exact others other

theorem SoundBut.gentle (sound : SoundBut but s) (gentle : Gentle s s') : SoundBut but s' where
  auth := by rw [gentle.srv, sound.auth]
  fids n p entry := by
    rw [gentle.pool] at entry
    obtain ⟨f, found, number, complete⟩ := sound.fids n p entry
    obtain ⟨f', found', kept⟩ := gentle.fids p f found
    exact ⟨f', found', kept.fid.trans number, fun other => (complete other).kept kept⟩

theorem SoundBut.modify (sound : SoundBut but s) {change : Npfid Fid → Npfid Fid}
    (number : ∀ f, (change f).fid = f.fid)
    (keeps : p ∉ but → ∀ n f, Complete n f → Complete n (change f)) :
    SoundBut but (s.modify p change) where
  auth := sound.auth
  fids n q entry := by
    obtain ⟨f, found, same, complete⟩ := sound.fids n q entry
    rw [Session.modify, Cells.get_modify]
    split_ifs with own
    · subst own
      rw [found]
      exact ⟨change f, rfl, (number f).trans same, fun other => keeps other n f (complete other)⟩
    · exact ⟨f, found, same, complete⟩

theorem SoundBut.congr (sound : SoundBut but s) (srv : s'.srv = s.srv) (pool : s'.pool = s.pool)
    (fids : s'.fids = s.fids) : SoundBut but s' where
  auth := srv ▸ sound.auth
  fids := by
    rw [pool, fids]
    exact sound.fids

theorem SoundBut.incref (sound : SoundBut but s) : SoundBut but (s.modify p (.addRef 1)) := by
  refine sound.modify (fun _ => rfl) fun _ n f complete => ⟨complete.fid, ?_, complete.user, complete.aux⟩
  have counted := complete.refcount
  simp only [Npfid.addRef]
  omega

/-! ## Gaining a reference -/

/-- The fid has been given its `aux` and a reference, and nothing else has happened. -/
def Gained (q : FidPtr) (s s' : State) : Prop :=
  ∃ s₁, Gentle s s₁ ∧ (auxOf s₁ q).isSome ∧ Gentle (s₁.modify q (.addRef 1)) s'

theorem gentle_of_loose {α : Type} {code : Code α} (follows : ∀ c, Loose u c code) :
    Ensures (execOp u) (fun _ s' => Gentle s s') code s :=
  Gentle.code (c := .stat 0) trivial (follows _)

theorem auxOf_setAux (live : (s.fids.get q).isSome) (aux : Fid) :
    (auxOf (s.modify q fun f => { f with aux := some aux }) q).isSome := by
  obtain ⟨f, found⟩ := Option.isSome_iff_exists.mp live
  simp [auxOf, Session.modify, found]

theorem Gentle.live (gentle : Gentle s s') (live : (s.fids.get q).isSome) :
    (s'.fids.get q).isSome := by
  obtain ⟨f, found⟩ := Option.isSome_iff_exists.mp live
  obtain ⟨f', found', -⟩ := gentle.fids q f found
  rw [found']
  rfl

theorem Gentle.auxOf (gentle : Gentle s s') (served : (auxOf s q).isSome) :
    (Ufs.auxOf s' q).isSome := by
  obtain ⟨aux, served⟩ := Option.isSome_iff_exists.mp served
  obtain ⟨f, found, aux⟩ := Option.bind_eq_some_iff.mp served
  obtain ⟨f', found', kept⟩ := gentle.fids q f found
  have kept := kept.aux (by rw [aux]; rfl)
  rw [Ufs.auxOf, found']
  exact kept

theorem gentle_setAux (s : State) (aux : Fid) :
    Gentle s (s.modify q fun f => { f with aux := some aux }) :=
  .modify fun _ => ⟨rfl, rfl, rfl, fun _ => rfl⟩

/-- `npfs_attach` either fails with an error or finishes the fid. -/
theorem attach_gains {afid : Option FidPtr} {aname : List UInt8} (live : (s.fids.get q).isSome) :
    Ensures (execOp u) (fun _ s' => (Gentle s s' ∧ s'.error.isSome) ∨ Gained q s s')
      (npfsAttach q afid aname) s := by
  refine (gentle_of_loose fun c => follows_npfsSetUser).bind fun _ s₁ first => ?_
  split
  · exact .inl ⟨first.trans (.of_fids rfl rfl rfl rfl), rfl⟩
  have stats (aux : Fid) (c : Callback) : Loose u c (fidstat q aux) :=
    (always_fidstat_stays (.inl ⟨q, aux, trivial, rfl⟩) fun f' same => .stays trivial same).mono
      fun _ _ => trivial
  refine ensures_ufs.mpr (ensures_setAux.mpr ?_)
  refine (gentle_of_loose (stats _)).bind fun found s₃ third => ?_
  have second := (first.trans (gentle_setAux s₁ _)).trans third
  have stored := third.auxOf (auxOf_setAux (first.live live) _)
  obtain ⟨err, f⟩ := found
  cases err with
  | error errno => exact .inl ⟨second.trans (.of_fids rfl rfl rfl rfl), rfl⟩
  | ok done =>
      let s₄ : State := s₃.modify q fun g => { g with type := (ustat2qid f.stat).type.toUInt16 }
      have typed : Gentle s₃ s₄ := .modify fun g => ⟨rfl, rfl, rfl, id⟩
      have made : Gentle s₄ { s₄ with world := s₄.world.next.2 } := .of_fids rfl rfl rfl rfl
      refine .inr ⟨_, second.trans (typed.trans made), ?_, .refl _⟩
      exact made.auxOf (typed.auxOf stored)

/-- `npfs_xattrwalk` either leaves the new fid to be destroyed or finishes it. -/
theorem xattrwalk_gains {fid : FidPtr} {name : List UInt8} (live : (s.fids.get q).isSome) :
    Ensures (execOp u) (fun _ s' => Gentle s s' ∨ Gained q s s') (npfsXattrwalk fid q name) s := by
  refine ensures_withAux (fun _ => .inl (.of_fids rfl rfl rfl rfl)) fun f _ => ?_
  rw [npfsCheckRegular]
  split
  · exact .inl (.of_fids rfl rfl rfl rfl)
  refine (gentle_of_loose fun c => follows_npfsSetUser).bind fun _ s₁ first => ?_
  refine ensures_ufs.mpr (ensures_setAux.mpr (ensures_np.mpr ?_))
  have values (nf : Fid) (c : Callback) : Loose u c (xattrValue nf name u.turns) :=
    follows_xattrValue (.inl ⟨q, nf, trivial, rfl⟩)
  refine (gentle_of_loose (values _)).bind fun found s₃ third => ?_
  have opened (s' : State) : Gentle s' (Npfs.exec env (.setOmode q Oread.toUInt16) s').2 :=
    .modify fun g => ⟨rfl, rfl, rfl, id⟩
  have fourth := (first.trans (gentle_setAux s₁ _)).trans ((opened _).trans third)
  cases found with
  | none => exact .inl fourth
  | some found =>
      refine .inr ⟨_, fourth.trans (gentle_setAux s₃ _), ?_, .of_fids rfl rfl rfl rfl⟩
      exact auxOf_setAux (fourth.live live) _

/-! ## Giving up a reference -/

/-- The same fids, the same pool and the same request. -/
structure Aside (s s' : State) : Prop where
  srv : s'.srv = s.srv
  conn : s'.conn = s.conn
  fids : s'.fids = s.fids
  pool : s'.pool = s.pool
  error : s'.error = s.error
  reqFid : s'.reqFid = s.reqFid

theorem Aside.trans {s s' s'' : State} (first : Aside s s') (second : Aside s' s'') : Aside s s'' :=
  ⟨second.srv.trans first.srv, second.conn.trans first.conn, second.fids.trans first.fids,
    second.pool.trans first.pool, second.error.trans first.error, second.reqFid.trans first.reqFid⟩

theorem aside_load {β : Type} {field : Npfid Fid → β} {junk : β} :
    Aside s (s.load p field junk).2 := by
  unfold Session.load
  split <;> exact ⟨rfl, rfl, rfl, rfl, rfl, rfl⟩

/-- `npfs_fiddestroy` only makes calls to the host. -/
theorem aside_fiddestroy : Aside s (exec u (.call (.fiddestroy p)) s).2 := by
  have closes (handle : Option UInt64) (call : UInt64 → DataCall) (s : State) :
      Aside s ((ifOpen handle call).run (execOp u) s).2 := by
    cases handle <;> exact ⟨rfl, rfl, rfl, rfl, rfl, rfl⟩
  have run : exec u (.call (.fiddestroy p)) s = (npfsFiddestroy p).run (execOp u) s := rfl
  have step : execOp u (.aux p) s = s.load p (·.aux) none := rfl
  have loaded : Aside s (s.load p (·.aux) none).2 := aside_load
  rw [run, npfsFiddestroy, run_step, step]
  cases (s.load p (·.aux) none).1 with
  | none => exact loaded
  | some f =>
      dsimp only
      rw [run_bind]
      exact (loaded.trans (closes f.fd .close _)).trans (closes f.dir .closedir _)

/-- The pool without the fid that a pointer points to. -/
def unlinked (s : State) (p : FidPtr) : UInt32 → Option FidPtr :=
  match s.fids.get p with
  | some f => if s.pool f.fid = some p then Function.update s.pool f.fid none else s.pool
  | none => s.pool

/-- Without authentication a destroyed fid is only closed, taken out of the pool and freed. -/
theorem aside_npFidDestroy (auth : s.srv.auth = none) :
    Aside { s with pool := unlinked s p, fids := s.fids.free p }
      ((npFidDestroy p).run (exec u) s).2 := by
  have unlinks : Aside { s with pool := unlinked s p } (exec u (.fidUnlink p) s).2 := by
    simp only [exec, Npfs.exec, unlinked]
    cases s.fids.get p with
    | none => exact ⟨rfl, rfl, rfl, rfl, rfl, rfl⟩
    | some f =>
        dsimp only
        split_ifs <;> exact ⟨rfl, rfl, rfl, rfl, rfl, rfl⟩
  have reads {rest : Option UserPtr → Serve Unit}
      (frees : ∀ owner s', Aside { s with pool := unlinked s p } s' →
        Aside { s with pool := unlinked s p, fids := s.fids.free p }
          ((rest owner).run (exec u) s').2) (s' : State)
      (before : Aside { s with pool := unlinked s p } s') :
      Aside { s with pool := unlinked s p, fids := s.fids.free p }
        ((user p >>= rest).run (exec u) s').2 := by
    have read : Aside s' (s'.load p (·.user) none).2 := aside_load
    have run : (user p).run (exec u) s' = s'.load p (·.user) none := rfl
    rw [run_bind, run]
    exact frees _ _ (before.trans read)
  have read (s' : State) : Aside s' (s'.load p (·.type) (0 : UInt16)).2 := aside_load
  have typed := unlinks.trans (read _)
  have unowned : (srv.run (exec u) ((fidUnlink p).run (exec u) s).2).1.auth = none := by
    have kept : (srv.run (exec u) ((fidUnlink p).run (exec u) s).2).1 = s.srv := unlinks.srv
    rw [kept, auth]
  simp only [npFidDestroy, run_bind, unowned]
  split_ifs with opened closed
  · exact absurd opened.2 (by simp)
  · rw [run_bind]
    refine reads (fun owner s' after => ?_) _ (typed.trans aside_fiddestroy)
    have freed : s'.fids.free p = s.fids.free p := by rw [after.fids]
    cases owner <;> exact ⟨after.srv, after.conn, freed, after.pool, after.error, after.reqFid⟩
  · refine reads (fun owner s' after => ?_) _ typed
    have freed : s'.fids.free p = s.fids.free p := by rw [after.fids]
    cases owner <;> exact ⟨after.srv, after.conn, freed, after.pool, after.error, after.reqFid⟩

theorem unlinked_le {n : UInt32} (entry : unlinked s p n = some q) : s.pool n = some q := by
  unfold unlinked at entry
  cases found : s.fids.get p with
  | none => rwa [found] at entry
  | some f =>
      rw [found] at entry
      dsimp only at entry
      split_ifs at entry
      · rw [Function.update_apply] at entry
        split_ifs at entry
        exact entry
      · exact entry

/-- The fid that is destroyed leaves the pool. -/
theorem unlinked_ne (sound : SoundBut but s) {n : UInt32} : unlinked s p n ≠ some p := by
  intro entry
  obtain ⟨f, found, number, -⟩ := sound.fids n p (unlinked_le entry)
  rw [unlinked, found] at entry
  dsimp only at entry
  split_ifs at entry with own
  · rw [number, Function.update_self] at entry
    cases entry
  · rw [number] at own
    exact own entry

/-- A destroyed fid need not be complete. -/
theorem SoundBut.destroy (sound : SoundBut (insert p but) s) :
    SoundBut but ((npFidDestroy p).run (exec u) s).2 := by
  have after : Aside _ ((npFidDestroy p).run (exec u) s).2 := aside_npFidDestroy sound.auth
  refine ⟨by rw [after.srv, ← sound.auth], fun n q entry => ?_⟩
  rw [after.pool] at entry
  have other : q ≠ p := by
    rintro rfl
    exact unlinked_ne sound entry
  obtain ⟨f, found, number, complete⟩ := sound.fids n q (unlinked_le entry)
  refine ⟨f, ?_, number, fun outside => complete ?_⟩
  · rw [after.fids]
    exact (Cells.get_free_ne other).trans found
  · rintro (rfl | member)
    · exact other rfl
    · exact outside member

/-- The state in which `np_fid_decref` has counted down. -/
theorem run_npFidDecref_eq : ((npFidDecref (some p)).run (exec u) s).2 =
    if (s.load p (·.refcount - 1) 1).1 = 0 then
      ((npFidDestroy p).run (exec u) (s.modify p (.addRef (-1)))).2
    else s.modify p (.addRef (-1)) := by
  have counted : (fidDecref p).run (exec u) s =
    ((s.load p (·.refcount - 1) 1).1, s.modify p (.addRef (-1))) := rfl
  rw [npFidDecref, run_bind, counted]
  dsimp only
  split_ifs <;> rfl

/-- The last reference of a fid that is not complete is given up. -/
theorem SoundBut.decref_last (sound : SoundBut (insert p but) s) (found : s.fids.get p = some f)
    (last : f.refcount = 1) : SoundBut but ((npFidDecref (some p)).run (exec u) s).2 := by
  have zero : (s.load p (·.refcount - 1) 1).1 = 0 := by simp [Session.load, found, last]
  have counted : SoundBut (insert p but) (s.modify p (.addRef (-1))) :=
    sound.modify (fun _ => rfl) fun other => absurd (Set.mem_insert p but) other
  rw [run_npFidDecref_eq, if_pos zero]
  exact counted.destroy

/-- A reference is given up. -/
theorem SoundBut.decref (sound : SoundBut but s) (p : Option FidPtr) :
    SoundBut but ((npFidDecref p).run (exec u) s).2 := by
  cases p with
  | none => exact sound
  | some p =>
      have counted : SoundBut (insert p but) (s.modify p (.addRef (-1))) :=
        (sound.mono (Set.subset_insert p but)).modify (fun _ => rfl) fun other =>
          absurd (Set.mem_insert p but) other
      rw [run_npFidDecref_eq]
      split_ifs with zero
      · exact counted.destroy
      refine ⟨sound.auth, fun n q entry => ?_⟩
      obtain ⟨g, live, number, complete⟩ := sound.fids n q entry
      rw [Session.modify, Cells.get_modify]
      split_ifs with own
      · subst own
        rw [live]
        refine ⟨g.addRef (-1), rfl, number, fun outside => ?_⟩
        obtain ⟨fid, count, user, aux⟩ := complete outside
        simp only [Session.load, live] at zero
        refine ⟨fid, ?_, user, aux⟩
        simp only [Npfid.addRef]
        omega
      · exact ⟨g, live, number, complete⟩

/-- Giving up a reference to one fid leaves the others as they are. -/
theorem npFidDecref_other (auth : s.srv.auth = none) (other : q ≠ p) :
    ((npFidDecref (some p)).run (exec u) s).2.fids.get q = s.fids.get q ∧
      ((npFidDecref (some p)).run (exec u) s).2.error = s.error ∧
      ((npFidDecref (some p)).run (exec u) s).2.reqFid = s.reqFid := by
  have counted : (s.modify p (.addRef (-1))).fids.get q = s.fids.get q :=
    Cells.get_modify_ne other
  rw [run_npFidDecref_eq]
  split_ifs
  · have auth : (s.modify p (.addRef (-1))).srv.auth = none := auth
    have after : Aside _ ((npFidDestroy p).run (exec u) (s.modify p (.addRef (-1)))).2 :=
      aside_npFidDestroy auth
    refine ⟨?_, after.error, after.reqFid⟩
    rw [after.fids]
    exact (Cells.get_free_ne other).trans counted
  · exact ⟨counted, rfl, rfl⟩

end Sound

end Ufs

/-! ## Requests -/

section Requests

open Ufs

/-- The operations that keep the fids of the pool complete wherever they are performed. -/
@[simp] def Op.Mild : Op → Prop
  | .fidCreate _ | .fidDecref _ | .fidUnlink _ | .fidFree _ => False
  | .setUser _ owner => owner.isSome
  | .call callback => Lends callback
  | _ => True

/-- A piece of a handler performs only such operations. -/
abbrev Mild {α : Type} (program : Serve α) : Prop :=
  program.Always (fun _ _ => True) Op.Mild fun _ => True

variable {u : Ufssrv} {s : State} {but : Set FidPtr} {p q : FidPtr} {α β : Type}

theorem sound_exec (sound : SoundBut but s) {op : Op} (mild : op.Mild) :
    SoundBut but (Ufs.exec u op s).2 := by
  cases op with
  | fidCreate | fidDecref | fidUnlink | fidFree => exact mild.elim
  | fidFind | werror | rerror | reqFid | setReqFid | srv | conn | flush | malloc | crash =>
      exact sound.congr rfl rfl rfl
  | omode | type | diroffset | user => exact sound.gentle .load
  | fidIncref => exact sound.incref
  | setOmode | setType | setDiroffset =>
      exact sound.modify (fun _ => rfl) fun _ n f complete =>
        ⟨complete.fid, complete.refcount, complete.user, complete.aux⟩
  | setUser fid user =>
      exact sound.modify (fun _ => rfl) fun _ n f complete =>
        ⟨complete.fid, complete.refcount, mild, complete.aux⟩
  | userIncref user => cases user <;> exact sound.congr rfl rfl rfl
  | userDecref => exact sound.congr rfl rfl rfl
  | connReset => exact ⟨sound.auth, fun n p entry => by cases entry⟩
  | call callback => exact sound.gentle (gentle_call mild)

/-- A piece of a handler that keeps the fids of the pool complete. -/
def Sustains (u : Ufssrv) (program : Serve α) : Prop :=
  ∀ but s, SoundBut but s → SoundBut but (program.run (Ufs.exec u) s).2

theorem Mild.sustains {program : Serve α} (mild : Mild program) : Sustains u program := by
  intro but s sound
  have kept : ∀ op s, SoundBut but s → Op.Mild op → SoundBut but (Ufs.exec u op s).2 :=
    fun _ _ sound allowed => sound_exec sound allowed
  exact (Always.run mild (fun _ _ _ _ => trivial) kept sound).2.1

theorem sustains_npFidDecref (p : Option FidPtr) : Sustains u (npFidDecref p) :=
  fun _ _ sound => sound.decref p

theorem Sustains.bind {first : Serve α} {rest : α → Serve β} (sustains : Sustains u first)
    (onward : ∀ value, Sustains u (rest value)) : Sustains u (first >>= rest) := by
  intro but s sound
  rw [run_bind]
  exact onward _ _ _ (sustains _ _ sound)

theorem sustains_withFid {fid : UInt32} {rest : FidPtr → Serve (Option Npfcall)}
    (onward : ∀ fid, Sustains u (rest fid)) : Sustains u (withFid fid rest) := by
  have found : Mild (npFidFind fid) := by simp
  refine found.sustains.bind fun found => ?_
  cases found with
  | none => exact Mild.sustains (by simp)
  | some fid =>
      have counted : Mild (npFidIncref (some fid)) := by simp
      have noted : Mild (setReqFid (some fid)) := by simp
      exact counted.sustains.bind fun _ => noted.sustains.bind fun _ => onward fid

theorem sustains_inDirectory {fid : FidPtr} {rest : Serve (Option Npfcall)}
    (onward : Sustains u rest) : Sustains u (inDirectory fid rest) := by
  have mode : Mild (omode fid) := by simp
  have kind : Mild (Serve.type fid) := by simp
  refine mode.sustains.bind fun omode => ?_
  split_ifs
  · exact Mild.sustains (by simp)
  refine kind.sustains.bind fun type => ?_
  split_ifs
  · exact Mild.sustains (by simp)
  · exact onward

/-- A reference that is taken and given up again around a call. -/
theorem sustains_around {call : Serve (Option Npfcall)} {fid : FidPtr} (mild : Mild call) :
    Sustains u (do
      npFidIncref (some fid)
      let rc ← call
      npFidDecref (some fid)
      return rc) := by
  have counted : Mild (npFidIncref (some fid)) := by simp
  exact counted.sustains.bind fun _ => mild.sustains.bind fun rc =>
    (sustains_npFidDecref _).bind fun _ => Mild.sustains (by simp)

theorem sustains_npRename (tc : Npfcall) : Sustains u (npRename tc) := by
  have found : Mild (npFidFind tc.dfid) := by simp
  refine sustains_withFid fun fid => found.sustains.bind fun found => ?_
  cases found with
  | none => exact Mild.sustains (by simp)
  | some dfid => exact sustains_around (by simp [call, Lends])

theorem sustains_npLink (tc : Npfcall) : Sustains u (npLink tc) := by
  have found (fid : UInt32) : Mild (npFidFind fid) := by simp
  refine (found tc.fid).sustains.bind fun found' => ?_
  cases found' with
  | none => exact Mild.sustains (by simp)
  | some fid =>
      have counted : Mild (npFidIncref (some fid)) := by simp
      refine counted.sustains.bind fun _ => (found tc.dfid).sustains.bind fun found' => ?_
      cases found' with
      | none => exact Mild.sustains (by simp)
      | some dfid =>
          have counted : Mild (npFidIncref (some dfid)) := by simp
          have noted : Mild (setReqFid (some fid)) := by simp
          have links : Mild (inDirectory dfid (call (.link dfid fid (tc.text tc.name)))) := by
            simp [call, Lends, inDirectory]
          exact counted.sustains.bind fun _ => noted.sustains.bind fun _ =>
            links.sustains.bind fun rc => (sustains_npFidDecref _).bind fun _ =>
              Mild.sustains (by simp)

theorem sustains_npRenameat (tc : Npfcall) : Sustains u (npRenameat tc) := by
  have found : Mild (npFidFind tc.newfid) := by simp
  refine sustains_withFid fun ofid => sustains_inDirectory (found.sustains.bind fun found => ?_)
  cases found with
  | none => exact Mild.sustains (by simp)
  | some nfid => exact sustains_around (by simp [call, Lends, inDirectory])

theorem sustains_npClunk (tc : Npfcall) : Sustains u (npClunk tc) := by
  have clunked (fid : FidPtr) (rc : Option Npfcall) : Sustains u (npClunked fid rc) := by
    rw [npClunked]
    split
    · exact (sustains_npFidDecref _).bind fun _ => Mild.sustains (by simp)
    · exact Mild.sustains (by simp)
  have mode (fid : FidPtr) : Mild (omode fid) := by simp
  have kind (fid : FidPtr) : Mild (Serve.type fid) := by simp
  have calls (callback : Callback) (lends : Lends callback) : Mild (call callback) := by
    simp [call, lends]
  refine sustains_withFid fun fid => (kind fid).sustains.bind fun type => ?_
  split
  · exact Mild.sustains (by simp [call, Lends])
  refine (mode fid).sustains.bind fun omode => ?_
  split
  · refine (calls (.remove fid) trivial).sustains.bind fun removed => ?_
    cases removed with
    | none => exact Mild.sustains (by simp)
    | some removed =>
        dsimp only
        split
        · exact Mild.sustains (by simp)
        · have created : Mild (Serve.create npCreateRclunk) := by simp
          exact created.sustains.bind fun rc => clunked fid rc
  · exact (calls (.clunk fid) trivial).sustains.bind fun rc => clunked fid rc

theorem sustains_npRemove (tc : Npfcall) : Sustains u (npRemove tc) := by
  have calls (fid : FidPtr) : Mild (call (.remove fid)) := by simp [call, Lends]
  refine sustains_withFid fun fid => (calls fid).sustains.bind fun rc => ?_
  split
  · exact (sustains_npFidDecref _).bind fun _ => Mild.sustains (by simp)
  · exact Mild.sustains (by simp)

/-! ## Fids that are made -/

/-- The state with a new fid in the pool. -/
def State.created (s : State) (n : UInt32) : State :=
  { s with
    fids := s.fids.push (.new n)
    pool := Function.update s.pool n (some s.fids.next) }

/-- One fid is not complete, and this is what it has. -/
structure Forming (q : FidPtr) (has : Npfid Fid → Prop) (s : State) : Prop where
  sound : SoundBut {q} s
  cell : ∃ f, s.fids.get q = some f ∧ has f

/-- A fid with this many references, and perhaps with a user and an `aux`. -/
structure Holds (refcount : Int) (owned served : Prop) (f : Npfid Fid) : Prop where
  refcount : f.refcount = refcount
  user : owned → f.user.isSome
  aux : served → f.aux.isSome

section Forming

variable {n : UInt32} {has : Npfid Fid → Prop} {refcount : Int} {owned served : Prop} {s' : State}

theorem forming_created (sound : Sound s) :
    Forming s.fids.next (Holds 0 False False) (State.created s n) := by
  refine ⟨⟨sound.auth, fun m p entry => ?_⟩, .new n, by simp [State.created], rfl, False.elim,
    False.elim⟩
  simp only [State.created, Function.update_apply] at entry ⊢
  split_ifs at entry with same
  · obtain rfl := Option.some.inj entry
    refine ⟨.new n, by simp, same.symm, fun other => absurd rfl other⟩
  · obtain ⟨f, found, number, complete⟩ := sound.fids m p entry
    refine ⟨f, ?_, number, fun _ => complete (Set.notMem_empty p)⟩
    rw [Cells.get_push, if_neg (Cells.lt_of_get found).ne, found]

theorem Forming.gentle (forming : Forming q (Holds refcount owned served) s) (gentle : Gentle s s') :
    Forming q (Holds refcount owned served) s' := by
  obtain ⟨sound, f, found, counted, user, aux⟩ := forming
  obtain ⟨f', found', kept⟩ := gentle.fids q f found
  refine ⟨sound.gentle gentle, f', found', kept.refcount.trans counted, fun owned => ?_,
    fun served => kept.aux (aux served)⟩
  rw [kept.user]
  exact user owned

theorem Forming.modify {has' : Npfid Fid → Prop} (forming : Forming q has s)
    {change : Npfid Fid → Npfid Fid} (number : ∀ f, (change f).fid = f.fid)
    (gives : ∀ f, has f → has' (change f)) : Forming q has' (s.modify q change) := by
  obtain ⟨sound, f, found, held⟩ := forming
  refine ⟨sound.modify number fun other => absurd rfl other, change f, ?_, gives f held⟩
  simp [Session.modify, found]

theorem Forming.congr (forming : Forming q has s) (srv : s'.srv = s.srv) (pool : s'.pool = s.pool)
    (fids : s'.fids = s.fids) : Forming q has s' :=
  ⟨forming.sound.congr srv pool fids, by rw [fids]; exact forming.cell⟩

theorem Forming.incref (forming : Forming q (Holds refcount owned served) s) :
    Forming q (Holds (refcount + 1) owned served) (s.modify q (.addRef 1)) :=
  forming.modify (fun _ => rfl) fun f held =>
    ⟨by simp [Npfid.addRef, held.refcount], held.user, held.aux⟩

theorem Forming.finish (forming : Forming q (Holds refcount True True) s) (counted : 1 ≤ refcount) :
    Sound s := by
  obtain ⟨sound, f, found, count, user, aux⟩ := forming
  exact sound.finish found ⟨rfl, count ▸ counted, user trivial, aux trivial⟩

/-- A fid that could not be finished is destroyed. -/
theorem Forming.decref (forming : Forming q (Holds 1 owned served) s) :
    Sound ((npFidDecref (some q)).run (Ufs.exec u) s).2 := by
  obtain ⟨sound, f, found, last, -⟩ := forming
  have sound : SoundBut (insert q ∅) s := by simpa using sound
  exact sound.decref_last found last

theorem Forming.decref_other (forming : Forming q has s) (other : q ≠ p) :
    Forming q has ((npFidDecref (some p)).run (Ufs.exec u) s).2 := by
  refine ⟨forming.sound.decref (some p), ?_⟩
  rw [(npFidDecref_other forming.sound.auth other).1]
  exact forming.cell

theorem Forming.gained (forming : Forming q (Holds refcount True served) s) (gained : Gained q s s') :
    Forming q (Holds (refcount + 1) True True) s' := by
  obtain ⟨s₁, gentle, aux, more⟩ := gained
  obtain ⟨sound, f, found, counted, user, -⟩ := forming.gentle gentle
  have served : f.aux.isSome := by simpa [auxOf, found] using aux
  have forming : Forming q (Holds refcount True True) s₁ :=
    ⟨sound, f, found, counted, user, fun _ => served⟩
  exact forming.incref.gentle more

end Forming

/-- The request fails, and then gives up the only reference to a fid that could not be finished. -/
structure Doomed (q : FidPtr) (s : State) : Prop where
  error : s.error.isSome
  reqFid : s.reqFid = some q
  forming : ∃ owned served, Forming q (Holds 1 owned served) s

theorem Doomed.decref_other (doomed : Doomed q s) (other : q ≠ p) :
    Doomed q ((npFidDecref (some p)).run (Ufs.exec u) s).2 := by
  obtain ⟨error, reqFid, owned, served, forming⟩ := doomed
  obtain ⟨-, error', reqFid'⟩ := npFidDecref_other (u := u) forming.sound.auth other
  exact ⟨by rw [error', error], by rw [reqFid', reqFid], owned, served, forming.decref_other other⟩

theorem Forming.incref_other {has : Npfid Fid → Prop} (forming : Forming q has s) (other : q ≠ p) :
    Forming q has (s.modify p (.addRef 1)) := by
  obtain ⟨f, found, held⟩ := forming.cell
  exact ⟨forming.sound.incref, f, (Cells.get_modify_ne other).trans found, held⟩

variable {tc : Npfcall}

/-- A run of a handler. -/
abbrev Yields {α : Type} (u : Ufssrv) (post : α → State → Prop) (program : Serve α) (s : State) :
    Prop := Ensures (Ufs.exec u) post program s

theorem Sustains.yields {program : Serve α} (sustains : Sustains u program) (sound : Sound s) :
    Yields u (fun _ s' => Sound s') program s := sustains _ _ sound

theorem yields_call {post : β → State → Prop} {callback : Callback}
    {rest : callback.Reply → Serve β} : Yields u post (call callback >>= rest) s ↔
      Ensures (execOp u) (fun reply s' => Yields u post (rest reply) s') (ufsStart callback) s :=
  Iff.rfl

theorem yields_create {n : UInt32} {post : β → State → Prop} {rest : Option FidPtr → Serve β}
    (absent : s.pool n = none)
    (onward : Yields u post (rest (some s.fids.next)) (State.created s n)) :
    Yields u post (npFidCreate n >>= rest) s := by
  have makes : Ufs.exec u (.fidCreate n) s = (some s.fids.next, State.created s n) := by
    change Npfs.exec env (.fidCreate n) s = _
    simp only [Npfs.exec, absent]
    rfl
  change Yields u post (rest (Ufs.exec u (.fidCreate n) s).1) (Ufs.exec u (.fidCreate n) s).2
  rwa [makes]

theorem yields_find {n : UInt32} {post : β → State → Prop} {rest : Option FidPtr → Serve β} :
    Yields u post (npFidFind n >>= rest) s ↔ Yields u post (rest (s.pool n)) s := Iff.rfl

theorem yields_incref {post : β → State → Prop} {rest : Unit → Serve β} :
    Yields u post (npFidIncref (some p) >>= rest) s ↔
      Yields u post (rest ()) (s.modify p (.addRef 1)) := Iff.rfl

theorem yields_setUser {owner : Option UserPtr} {post : β → State → Prop} {rest : Unit → Serve β} :
    Yields u post (setUser p owner >>= rest) s ↔
      Yields u post (rest ()) (s.modify p fun f => { f with user := owner }) := Iff.rfl

theorem yields_setType {type : UInt16} {post : β → State → Prop} {rest : Unit → Serve β} :
    Yields u post (setType p type >>= rest) s ↔
      Yields u post (rest ()) (s.modify p fun f => { f with type }) := Iff.rfl

theorem yields_npWerrorNone {post : β → State → Prop} {rest : Unit → Serve β} :
    Yields u post (npWerrorNone >>= rest) s ↔ Yields u post (rest ()) { s with error := none } :=
  Iff.rfl

theorem yields_npRerror {post : β → State → Prop} {rest : Option Nperror → Serve β} :
    Yields u post (npRerror >>= rest) s ↔ Yields u post (rest s.error) s := Iff.rfl

theorem yields_reqFid {post : β → State → Prop} {rest : Option FidPtr → Serve β} :
    Yields u post (reqFid >>= rest) s ↔ Yields u post (rest s.reqFid) s := Iff.rfl

theorem yields_conn {post : β → State → Prop} {rest : Npconn → Serve β} :
    Yields u post (conn >>= rest) s ↔ Yields u post (rest s.conn) s := Iff.rfl

theorem yields_srv {post : β → State → Prop} {rest : Npsrv → Serve β} :
    Yields u post (srv >>= rest) s ↔ Yields u post (rest s.srv) s := Iff.rfl

theorem yields_setReqFid {fid : Option FidPtr} {post : β → State → Prop} {rest : Unit → Serve β} :
    Yields u post (setReqFid fid >>= rest) s ↔ Yields u post (rest ()) { s with reqFid := fid } :=
  Iff.rfl

theorem yields_npWerror {ename : CStr} {ecode : Errno} {post : β → State → Prop}
    {rest : Unit → Serve β} : Yields u post (npWerror ename ecode >>= rest) s ↔
      Yields u post (rest ()) { s with error := some (.of ename ecode) } := Iff.rfl

theorem yields_type {post : β → State → Prop} {rest : UInt16 → Serve β} :
    Yields u post (Serve.type p >>= rest) s ↔
      Yields u post (rest (s.load p (·.type) 0).1) (s.load p (·.type) 0).2 := Iff.rfl

theorem yields_omode {post : β → State → Prop} {rest : UInt16 → Serve β} :
    Yields u post (omode p >>= rest) s ↔
      Yields u post (rest (s.load p (·.omode) 0).1) (s.load p (·.omode) 0).2 := Iff.rfl

theorem yields_npUserIncref {owner : UserPtr} {post : β → State → Prop} {rest : Unit → Serve β} :
    Yields u post (npUserIncref (some owner) >>= rest) s ↔ Yields u post (rest ())
      { s with users := Function.update s.users owner (s.users owner + 1) } := Iff.rfl

theorem yields_user {post : β → State → Prop} {rest : Option UserPtr → Serve β} :
    Yields u post (user p >>= rest) s ↔
      Yields u post (rest (s.load p (·.user) none).1) (s.load p (·.user) none).2 := Iff.rfl

/-- Finding the user changes nothing, and is an error when there is none. -/
theorem npReqUser_gentle : Yields u
    (fun found s' => Gentle s s' ∧ (found = none → s'.error.isSome)) (npReqUser tc) s := by
  have missing {s' : State} (gentle : Gentle s s') :
      Gentle s { s' with error := some (.of Eunknownuser EIO) } :=
    gentle.trans (.of_fids rfl rfl rfl rfl)
  rw [npReqUser]
  split
  · have named : Gentle s ((ufsStart (.uname2user (npStrdup (tc.text tc.uname)))).run
        (execOp u) s).2 := gentle_call trivial
    refine yields_call.mpr ?_
    rw [Ensures]
    generalize (ufsStart _).run (execOp u) s = result at named ⊢
    obtain ⟨found, s'⟩ := result
    cases found with
    | none => exact ⟨missing named, fun _ => rfl⟩
    | some owner => exact ⟨named, fun missing => by cases missing⟩
  · have numbered : Gentle s ((ufsStart (.uid2user tc.nUname)).run (execOp u) s).2 :=
      gentle_call trivial
    refine yields_call.mpr ?_
    rw [Ensures]
    generalize (ufsStart _).run (execOp u) s = result at numbered ⊢
    obtain ⟨found, s'⟩ := result
    cases found with
    | none => exact ⟨missing numbered, fun _ => rfl⟩
    | some owner => exact ⟨numbered, fun missing => by cases missing⟩

/-- Without authentication an `afid` is not finished. -/
theorem npStartAuth_refuses (forming : Forming q (Holds 1 False False) s) : Yields u
    (fun rc s' => rc = none ∧ Forming q (Holds 1 False False) s') (npStartAuth tc q) s := by
  refine npReqUser_gentle.bind fun found s₁ after => ?_
  have forming := forming.gentle after.1
  cases found with
  | none => exact ⟨rfl, forming⟩
  | some owner =>
      refine yields_setUser.mpr (yields_setType.mpr (yields_srv.mpr ?_))
      have kept (s : State) (forming : Forming q (Holds 1 False False) s)
          (change : Npfid Fid → Npfid Fid) (number : ∀ f, (change f).fid = f.fid)
          (count : ∀ f, (change f).refcount = f.refcount) :
          Forming q (Holds 1 False False) (s.modify q change) :=
        forming.modify number fun f held => ⟨(count f).trans held.refcount, False.elim,
          False.elim⟩
      have forming := kept _ (kept _ forming (fun f => { f with user := some owner }) (fun _ => rfl)
        fun _ => rfl) (fun f => { f with type := Qtauth }) (fun _ => rfl) fun _ => rfl
      have absent : s₁.srv.auth = none := forming.sound.auth
      change Yields u _ (if s₁.srv.auth.any (·.startauth) then _ else _) _
      rw [if_neg (by simp [absent])]
      exact ⟨rfl, forming.congr rfl rfl rfl⟩

theorem npAuth_sound (sound : Sound s) : Yields u (fun _ s' => Sound s') (npAuth tc) s := by
  refine yields_find.mpr ?_
  cases entry : s.pool tc.afid with
  | some afid =>
      have fails : Mild (npWerror Einuse EIO) := by simp
      refine Sustains.yields (fails.sustains.bind fun _ => ?_) sound
      exact (sustains_npFidDecref _).bind fun _ => Mild.sustains (by simp)
  | none =>
      refine yields_create entry (yields_incref.mpr ?_)
      have forming := (forming_created sound (n := tc.afid)).incref
      refine (npStartAuth_refuses forming).bind fun rc s₁ after => ?_
      obtain ⟨rfl, forming⟩ := after
      have destroyed : Yields u (fun _ s' => Sound s') (npFidDecref (some s.fids.next)) s₁ :=
        forming.decref
      exact destroyed.bind fun _ _ sound => sound

/-! ## Attaching -/

/-- A handler leaves the fids complete, or all but the one that the failure of the request
destroys. -/
abbrev Finishes (s : State) : Prop := Sound s ∨ ∃ q, Doomed q s

/-- The fid of a `Tattach` is finished, or the request fails. -/
theorem npAttachUser_finishes {afid : Option FidPtr} (noted : s.reqFid = some q)
    (forming : Forming q (Holds 1 False False) s) :
    Yields u (fun _ s' => Sound s' ∨ Doomed q s') (npAttachUser tc q afid) s := by
  refine npReqUser_gentle.bind fun found s₁ after => ?_
  have forming := forming.gentle after.1
  have noted : s₁.reqFid = some q := after.1.reqFid.trans noted
  cases found with
  | none => exact .inr ⟨after.2 rfl, noted, _, _, forming⟩
  | some owner =>
      refine yields_setUser.mpr (yields_srv.mpr ?_)
      have absent : s₁.srv.auth = none := forming.sound.auth
      change Yields u _ (if s₁.srv.auth.any (·.checkauth) then _ else _) _
      rw [if_neg (by simp [absent])]
      have owned : Forming q (Holds 1 True False)
          (s₁.modify q fun f => { f with user := some owner }) :=
        forming.modify (fun _ => rfl) fun f held => ⟨held.refcount, fun _ => rfl, False.elim⟩
      have noted : (s₁.modify q fun f => { f with user := some owner }).reqFid = some q := noted
      generalize s₁.modify q (fun f => { f with user := some owner }) = s₂ at owned noted
      have live : (s₂.fids.get q).isSome := by
        obtain ⟨f, found, -⟩ := owned.cell
        rw [found]
        rfl
      have calls : Yields u (fun _ s' => (Gentle s₂ s' ∧ s'.error.isSome) ∨ Gained q s₂ s')
          (call (.attach q afid (tc.text tc.uname) (tc.text tc.aname))) s₂ := attach_gains live
      refine calls.mono fun rc s₃ after => ?_
      rcases after with ⟨gentle, error⟩ | gained
      · exact .inr ⟨error, gentle.reqFid.trans noted, _, _, owned.gentle gentle⟩
      · exact .inl ((owned.gained gained).finish (by omega))

theorem npAttach_finishes (sound : Sound s) : Yields u (fun _ s' => Finishes s') (npAttach tc) s := by
  refine yields_find.mpr ?_
  cases entry : s.pool tc.fid with
  | some fid => exact .inl (sound.congr rfl rfl rfl)
  | none =>
      refine yields_create entry (yields_incref.mpr (yields_setReqFid.mpr (yields_find.mpr ?_)))
      have forming := (forming_created sound (n := tc.fid)).incref
      have plain : (((State.created s tc.fid).modify s.fids.next (.addRef 1)).load s.fids.next
          (·.type) 0).1 = 0 := by
        simp [State.created, Session.modify, Session.load, Npfid.new, Npfid.addRef]
      generalize (State.created s tc.fid).modify s.fids.next (.addRef 1) = s₁ at forming plain
      generalize s.fids.next = q at forming plain
      have noted : Forming q (Holds 1 False False) { s₁ with reqFid := some q } :=
        forming.congr rfl rfl rfl
      cases s₁.pool tc.afid with
      | none =>
          dsimp only
          split
          · exact .inr ⟨q, rfl, rfl, _, _, noted.congr rfl rfl rfl⟩
          · exact (npAttachUser_finishes rfl noted).mono fun rc s₂ => Or.imp_right fun doomed =>
              ⟨q, doomed⟩
      | some afid =>
          refine yields_type.mpr ?_
          have same : (Session.load { s₁ with reqFid := some q } afid (·.type) (0 : UInt16)).1 =
              (s₁.load afid (·.type) 0).1 := by
            unfold Session.load
            dsimp only
            cases s₁.fids.get afid <;> rfl
          have read : Gentle { s₁ with reqFid := some q }
              (Session.load { s₁ with reqFid := some q } afid (·.type) (0 : UInt16)).2 := .load
          have forming := noted.gentle read
          have noted := read.reqFid
          rw [same]
          generalize (Session.load { s₁ with reqFid := some q } afid (·.type) (0 : UInt16)).2 = s₂
            at forming noted
          split
          · have failed : Forming q (Holds 1 False False)
                { s₂ with error := some (.of Ebadusefid EIO) } := forming.congr rfl rfl rfl
            have refused : Yields u (fun _ s' => Finishes s') (npFidDecref (some afid))
                { s₂ with error := some (.of Ebadusefid EIO) } := by
              rcases eq_or_ne q afid with rfl | other
              · exact .inl failed.decref
              · have doomed : Doomed q { s₂ with error := some (.of Ebadusefid EIO) } :=
                  ⟨rfl, noted, _, _, failed⟩
                exact .inr ⟨q, doomed.decref_other other⟩
            exact yields_npWerror.mpr (refused.bind fun _ _ settles => settles)
          · rename_i auth
            have other : q ≠ afid := by
              rintro rfl
              rw [plain] at auth
              exact auth (by decide)
            have noted : (s₂.modify afid (.addRef 1)).reqFid = some q := noted
            refine yields_incref.mpr ?_
            refine (npAttachUser_finishes noted (forming.incref_other other)).bind fun rc s₃ after => ?_
            have given : Yields u (fun _ s' => Finishes s') (npFidDecref (some afid)) s₃ :=
              after.imp (fun sound => sound.decref _) fun doomed => ⟨q, doomed.decref_other other⟩
            exact given.bind fun _ _ settles => settles

/-! ## Walking and describing attributes -/

theorem sustains_npWalkNames (newfid : FidPtr) (wnames : List (List UInt8)) :
    Sustains u (npWalkNames newfid wnames) := by
  apply Mild.sustains
  induction wnames with
  | nil => trivial
  | cons wname wnames ih => simp [npWalkNames, call, Option.forall, Lends, ih]

/-- A fid that lacks only a reference is complete when `np_walk` has taken one. -/
theorem npWalkFrom_sound (sound : Sound (s.modify q (.addRef 1))) :
    Yields u (fun _ s' => Sound s') (npWalkFrom tc q) s := by
  refine yields_incref.mpr (Sustains.yields ?_ sound)
  refine (sustains_npWalkNames _ _).bind fun wqids => ?_
  have clear : Mild npWerrorNone := by simp
  have counts : Mild (npFidIncref (some q)) := by simp
  have creates : Mild (Serve.create (npCreateRwalk wqids)) := by simp
  have replies : Sustains u (do
      let rc ← Serve.create (npCreateRwalk wqids)
      npFidDecref (some q)
      return rc) :=
    creates.sustains.bind fun rc => (sustains_npFidDecref _).bind fun _ => Mild.sustains (by simp)
  split
  · exact (sustains_npFidDecref _).bind fun _ => Mild.sustains (by simp)
  refine clear.sustains.bind fun _ => ?_
  dsimp only
  split
  · exact counts.sustains.bind fun _ => replies
  · exact replies

/-- The new fid of a `Twalk` gets the path of the other one. -/
theorem clone_gives {aux : Fid} (known : auxOf s p = some aux) :
    Ensures (execOp u) (fun cloned s' => cloned = true ∧
      s' = s.modify q fun f => { f with aux := some { npfsFidalloc aux.path with mapped := aux.mapped } })
      (npfsClone p q) s :=
  ensures_withAux (fun missing => by rw [known] at missing; cases missing) fun f found => by
    obtain rfl : aux = f := Option.some.inj (known.symm.trans found)
    exact ⟨rfl, rfl⟩

theorem load_live {f : Npfid Fid} (found : s.fids.get p = some f) (field : Npfid Fid → α)
    (junk : α) : s.load p field junk = (field f, s) := by
  rw [Session.load, found]

/-- The new fid of a `Twalk` to another fid. -/
theorem npWalk_clones {n : UInt32} {entry : UInt32} (sound : Sound s) (found : s.pool n = some p) :
    Yields u (fun _ s' => Sound s') (do
      let cloned : Bool ← call (.clone p s.fids.next)
      if cloned then
        let user ← user p
        npUserIncref user
        setUser s.fids.next user
        let type ← Serve.type p
        setType s.fids.next type
        npWalkFrom tc s.fids.next
      else
        npFidDecref (some s.fids.next)
        return none : Serve (Option Npfcall)) (State.created s entry) := by
  obtain ⟨f, live, -, complete⟩ := sound.fids n p found
  obtain ⟨-, -, owned, served⟩ := complete (Set.notMem_empty p)
  obtain ⟨owner, owned⟩ := Option.isSome_iff_exists.mp owned
  obtain ⟨aux, served⟩ := Option.isSome_iff_exists.mp served
  have other : p ≠ s.fids.next := (Cells.lt_of_get live).ne
  have live : (State.created s entry).fids.get p = some f := by
    simp only [State.created, Cells.get_push, if_neg other, live]
  have known : auxOf (State.created s entry) p = some aux := by
    simp [auxOf, live, served]
  have forming := forming_created sound (n := entry)
  generalize State.created s entry = s₁ at live known forming
  generalize s.fids.next = q at other forming
  refine yields_call.mpr ((clone_gives known).mono fun cloned s₂ after => ?_)
  obtain ⟨rfl, rfl⟩ := after
  have served : Forming q (Holds 0 False True) (s₁.modify q fun g =>
      { g with aux := some { npfsFidalloc aux.path with mapped := aux.mapped } }) :=
    forming.modify (fun _ => rfl) fun g held => ⟨held.refcount, False.elim, fun _ => rfl⟩
  have live : Cells.get (s₁.modify q fun g => { g with
      aux := some { npfsFidalloc aux.path with mapped := aux.mapped } }).fids p = some f :=
    (Cells.get_modify_ne other).trans live
  generalize (s₁.modify q fun g => { g with
      aux := some { npfsFidalloc aux.path with mapped := aux.mapped } }) = s₂ at served live
  refine yields_user.mpr ?_
  rw [load_live live]
  dsimp only
  rw [owned]
  refine yields_npUserIncref.mpr (yields_setUser.mpr (yields_type.mpr ?_))
  have counted : Forming q (Holds 0 False True)
      { s₂ with users := Function.update s₂.users owner (s₂.users owner + 1) } :=
    served.congr rfl rfl rfl
  have given : Forming q (Holds 0 True True) (Session.modify
      { s₂ with users := Function.update s₂.users owner (s₂.users owner + 1) } q
      fun g => { g with user := some owner }) :=
    counted.modify (fun _ => rfl) fun g held => ⟨held.refcount, fun _ => rfl, held.aux⟩
  generalize (Session.modify { s₂ with users := Function.update s₂.users owner (s₂.users owner + 1) } q
      fun g => { g with user := some owner }) = s₃ at given
  have read : Gentle s₃ (s₃.load p (·.type) 0).2 := .load
  have typed := given.gentle read
  generalize (s₃.load p (·.type) 0).2 = s₄ at typed
  generalize (s₃.load p (·.type) 0).1 = type
  refine yields_setType.mpr (npWalkFrom_sound ?_)
  have typed : Forming q (Holds 0 True True) (s₄.modify q fun g => { g with type }) :=
    typed.modify (fun _ => rfl) fun g held => ⟨held.refcount, held.user, held.aux⟩
  exact typed.incref.finish (by omega)

theorem npWalk_sound (sound : Sound s) : Yields u (fun _ s' => Sound s') (npWalk tc) s := by
  have fails {s : State} (sound : Sound s) (ename : CStr) (ecode : Errno) :
      Yields u (fun _ s' => Sound s') (fail ename ecode : Serve (Option Npfcall)) s :=
    sound.congr rfl rfl rfl
  refine yields_find.mpr ?_
  cases entry : s.pool tc.fid with
  | none => exact fails sound _ _
  | some p =>
      refine yields_incref.mpr (yields_setReqFid.mpr (yields_omode.mpr ?_))
      have counted : Sound { s.modify p (.addRef 1) with reqFid := some p } :=
        sound.incref.congr rfl rfl rfl
      have entry : Session.pool { s.modify p (.addRef 1) with reqFid := some p } tc.fid = some p :=
        entry
      generalize ({ s.modify p (.addRef 1) with reqFid := some p } : State) = s₁ at counted entry
      have read : Gentle s₁ (s₁.load p (·.omode) 0).2 := .load
      have after := counted.gentle read
      rw [← read.pool] at entry
      generalize (s₁.load p (·.omode) 0).2 = s₂ at after entry
      split
      · exact fails after _ _
      split
      · exact fails after _ _
      split
      · refine yields_find.mpr ?_
        cases absent : s₂.pool tc.newfid with
        | some newfid =>
            have refuses : Mild (npWerror Einuse EIO) := by simp
            refine Sustains.yields (refuses.sustains.bind fun _ => ?_) after
            exact (sustains_npFidDecref _).bind fun _ => Mild.sustains (by simp)
        | none => exact yields_create absent (npWalk_clones after entry)
      · exact npWalkFrom_sound after.incref

theorem npXattrwalk_sound (sound : Sound s) :
    Yields u (fun _ s' => Sound s') (npXattrwalk tc) s := by
  refine yields_find.mpr ?_
  cases entry : s.pool tc.fid with
  | none => exact sound.congr rfl rfl rfl
  | some p =>
      refine yields_incref.mpr (yields_setReqFid.mpr (yields_find.mpr ?_))
      have counted : Sound { s.modify p (.addRef 1) with reqFid := some p } :=
        sound.incref.congr rfl rfl rfl
      have entry : Session.pool { s.modify p (.addRef 1) with reqFid := some p } tc.fid = some p :=
        entry
      generalize ({ s.modify p (.addRef 1) with reqFid := some p } : State) = s₁ at counted entry
      cases absent : s₁.pool tc.newfid with
      | some newfid => exact counted.congr rfl rfl rfl
      | none =>
          refine yields_create absent (yields_user.mpr ?_)
          obtain ⟨f, live, -, complete⟩ := counted.fids tc.fid p entry
          obtain ⟨owner, owned⟩ := Option.isSome_iff_exists.mp (complete (Set.notMem_empty p)).user
          have other : p ≠ s₁.fids.next := (Cells.lt_of_get live).ne
          have live : (State.created s₁ tc.newfid).fids.get p = some f := by
            simp only [State.created, Cells.get_push, if_neg other, live]
          have forming := forming_created counted (n := tc.newfid)
          rw [load_live live]
          dsimp only
          rw [owned]
          generalize State.created s₁ tc.newfid = s₂ at forming
          generalize s₁.fids.next = q at forming
          refine yields_npUserIncref.mpr (yields_setUser.mpr (yields_incref.mpr ?_))
          have noted : Forming q (Holds 0 False False)
              { s₂ with users := Function.update s₂.users owner (s₂.users owner + 1) } :=
            forming.congr rfl rfl rfl
          have given : Forming q (Holds 0 True False) (Session.modify
              { s₂ with users := Function.update s₂.users owner (s₂.users owner + 1) } q
              fun g => { g with user := some owner }) :=
            noted.modify (fun _ => rfl) fun g held => ⟨held.refcount, fun _ => rfl, False.elim⟩
          have ready := given.incref
          generalize (Session.modify (Session.modify
              { s₂ with users := Function.update s₂.users owner (s₂.users owner + 1) } q
              fun g => { g with user := some owner }) q (.addRef 1)) = s₃ at ready
          have live : (s₃.fids.get q).isSome := by
            obtain ⟨f, found, -⟩ := ready.cell
            rw [found]
            rfl
          have calls : Yields u (fun _ s' => Gentle s₃ s' ∨ Gained q s₃ s')
              (call (.xattrwalk p q (tc.text tc.name))) s₃ := xattrwalk_gains live
          refine calls.bind fun rc s₄ after => ?_
          have typed {k : Int} {served : Prop} {s : State} (forming : Forming q (Holds k True served) s) :
              Forming q (Holds k True served) (s.modify q fun g => { g with type := Ftxattr }) :=
            forming.modify (fun _ => rfl) fun g held => ⟨held.refcount, held.user, held.aux⟩
          have ends {s : State} (state : Forming q (Holds 1 True False) s ∨
              Forming q (Holds 2 True True) s) :
              Yields u (fun _ s' => Sound s') (npFidDecref (some q)) s := by
            rcases state with forming | forming
            · exact forming.decref
            · exact (forming.finish (by omega)).decref _
          have state : Forming q (Holds 1 True False) s₄ ∨ Forming q (Holds 2 True True) s₄ :=
            after.imp ready.gentle ready.gained
          split
          · exact yields_setType.mpr ((ends (state.imp typed typed)).bind fun _ _ sound => sound)
          · exact (ends state).bind fun _ _ sound => sound

/-! ## Serving -/

theorem mild_npVersion (tc : Npfcall) : Mild (npVersion tc) := by
  unfold npVersion
  split_ifs
  · simp
  refine ⟨trivial, fun srv _ => ⟨trivial, fun conn _ => ?_⟩⟩
  change Mild (if _ < IOHDRSZ then _ else _)
  generalize (if (if tc.msize > srv.msize then srv.msize else tc.msize) > conn.msize then
    conn.msize else if tc.msize > srv.msize then srv.msize else tc.msize) = msize
  by_cases small : msize < IOHDRSZ
  · simp [small]
  · cases chosenVersion srv (tc.text tc.version) <;> simp [small]

theorem mild_npRead (tc : Npfcall) : Mild (npRead tc) := by
  have auth (fid : FidPtr) : Mild (npReadAuth tc fid) := by
    simp [npReadAuth]
    intro srv _ heap
    cases npAllocRread tc.count heap <;> simp [call, Lends]
  simp [npRead, auth, call, Option.forall, Lends, withFid]

/-- The handlers that make no fid. -/
theorem sustains_handler {n : Nat} {f : Npfcall → Serve (Option Npfcall)} (tc : Npfcall)
    (entry : npFcalls n = some f)
    (other : n ∉ [MsgType.tauth, .tattach, .twalk, .txattrwalk].map (·.code.toNat)) :
    Sustains u (f tc) := by
  unfold npFcalls at entry
  split at entry <;> (first | (cases entry; done) | obtain rfl := Option.some.inj entry)
  case h_10 | h_21 | h_22 | h_24 => simp [MsgType.code] at other
  case h_6 => exact sustains_npRename tc
  case h_16 => exact sustains_npLink tc
  case h_18 => exact sustains_npRenameat tc
  case h_29 => exact sustains_npClunk tc
  case h_30 => exact sustains_npRemove tc
  all_goals apply Mild.sustains
  case h_20 => exact mild_npVersion tc
  case h_27 => exact mild_npRead tc
  all_goals
    simp [npStatfs, npLopen, npReadlink, npGetattr, npXattrcreate, npReaddir,
      npFsync, npFlock, npGetlock, npUnlinkat, npFlush, npOpen, npCreateFile, npLcreate, npSymlink,
      npMknod, npMkdir, npSetattr,
      npWrite, npStat, npWstat, withFid, inDirectory, Option.forall, Lends, call]

theorem npHandle_finishes (sound : Sound s) : Yields u (fun _ s' => Finishes s') (npHandle tc) s := by
  have entries {n : Nat} {f : Npfcall → Serve (Option Npfcall)} (entry : npFcalls n = some f) :
      Yields u (fun _ s' => Finishes s') (f tc) s := by
    by_cases makes : n ∈ [MsgType.tauth, .tattach, .twalk, .txattrwalk].map (·.code.toNat)
    case neg => exact .inl (sustains_handler tc entry makes _ _ sound)
    case pos =>
      have special : n = 102 ∨ n = 104 ∨ n = 110 ∨ n = 30 := by simpa [MsgType.code] using makes
      rcases special with rfl | rfl | rfl | rfl <;> obtain rfl := Option.some.inj entry
      · exact .inl (npAuth_sound sound)
      · exact npAttach_finishes sound
      · exact .inl (npWalk_sound sound)
      · exact .inl (npXattrwalk_sound sound)
  unfold npHandle
  split
  · rename_i f entry
    rw [npHandler] at entry
    split_ifs at entry
    exact entries entry
  · exact .inl (sound.congr rfl rfl rfl)

/-- A request that fails is answered with an error. -/
theorem errorReply_fails {npErrnoToLinux : UInt32 → UInt32} {rc : Option Npfcall}
    (doomed : Doomed q s) : Yields u (fun rc s' => (∃ fc, rc = some fc ∧ fc.Failed) ∧ Doomed q s')
    (errorReply npErrnoToLinux rc) s := by
  obtain ⟨error, noted, owned, served, forming⟩ := doomed
  obtain ⟨error, same⟩ := Option.isSome_iff_exists.mp error
  obtain ⟨rerror, created, type⟩ := rerror_type error s.conn.dotu s.world.next.1.heap
  obtain ⟨rlerror, created', type'⟩ := rlerror_type npErrnoToLinux error.ecode s.world.next.1.heap
  have kept : Doomed q { s with world := s.world.next.2 } :=
    ⟨by rw [same]; rfl, noted, owned, served, forming.congr rfl rfl rfl⟩
  refine yields_npRerror.mpr ?_
  rw [same]
  refine yields_conn.mpr ?_
  split
  · exact ⟨⟨rlerror, created', .inr type'⟩, kept⟩
  · exact ⟨⟨rerror, created, .inl type⟩, kept⟩

theorem mild_errorReply {npErrnoToLinux : UInt32 → UInt32} {rc : Option Npfcall} :
    Mild (errorReply npErrnoToLinux rc) := by
  simp [errorReply, Option.forall]

theorem sustains_sendReply (rc : Option Npfcall) : Sustains u (sendReply tc rc) := by
  cases rc with
  | none => exact Mild.sustains trivial
  | some rc =>
      have noted : Mild reqFid := by simp
      have cleared : Mild (setReqFid none) := by simp
      have ends (fid : Option FidPtr) : Sustains u (do
          npFidDecref fid
          setReqFid none
          return npSetTag rc tc.tag : Serve Npfcall) :=
        (sustains_npFidDecref fid).bind fun _ => cleared.sustains.bind fun _ =>
          Mild.sustains trivial
      have responds : Sustains u (npRespond tc rc) := by
        refine noted.sustains.bind fun fid => ?_
        split
        · cases fid with
          | none =>
              have crashes : Mild crash := by simp
              exact crashes.sustains.bind fun _ => ends none
          | some fid =>
              have kind : Mild (Serve.type fid) := by simp
              have moves (diroffset : UInt32) : Mild (setDiroffset fid diroffset) := by simp
              refine kind.sustains.bind fun type => ?_
              dsimp only
              split
              · exact (moves _).sustains.bind fun _ => ends _
              · exact ends _
        · exact ends fid
      exact responds.bind fun reply => Mild.sustains trivial

/-- A failed request destroys the fid that it could not finish. -/
theorem sendReply_destroys {rc : Npfcall} (failed : rc.Failed) (doomed : Doomed q s) :
    Yields u (fun _ s' => Sound s') (sendReply tc (some rc)) s := by
  obtain ⟨-, noted, owned, served, forming⟩ := doomed
  have given : Yields u (fun _ s' => Sound s') (npFidDecref s.reqFid) s := by
    rw [noted]
    exact forming.decref
  have responds : Yields u (fun _ s' => Sound s') (npRespond tc rc) s := by
    refine yields_reqFid.mpr ?_
    dsimp only
    rw [if_neg failed.ne_rread]
    exact given.bind fun _ s₁ sound => sound.congr rfl rfl rfl
  exact responds.bind fun reply s₁ sound => sound

/-- Serving a request leaves all fids of the pool complete. -/
theorem serve_sound (npErrnoToLinux : UInt32 → UInt32) (tc : Npfcall) (sound : Sound s) :
    Yields u (fun _ s' => Sound s') (serve npErrnoToLinux tc none) s := by
  rw [serve_eq]
  have cleared : Sound { s with error := none } := sound.congr rfl rfl rfl
  refine yields_npWerrorNone.mpr ((npHandle_finishes cleared).bind fun rc s₁ settles => ?_)
  rcases settles with sound | ⟨q, doomed⟩
  · exact (mild_errorReply.sustains.yields sound).bind fun rc s₂ sound =>
      (sustains_sendReply _).yields sound
  · refine (errorReply_fails doomed).bind fun rc s₂ after => ?_
    obtain ⟨⟨fc, rfl, failed⟩, doomed⟩ := after
    exact sendReply_destroys failed doomed

end Requests

namespace Ufs

/-- Between two requests every fid of the pool is complete: it has a user, and an `aux` with a
path. -/
theorem State.Reached.sound {u : Ufssrv} {npErrnoToLinux : UInt32 → UInt32} {msize : UInt32}
    {host : Host} {s : State} (reached : State.Reached u npErrnoToLinux msize host s) : Sound s := by
  refine Transition.Reaches.invariant Sound ⟨rfl, fun n p entry => by cases entry⟩ ?_ reached
  intro s next tc sound _ taken
  obtain rfl := Option.some.inj taken
  have received : Sound s.receive := sound.congr rfl rfl rfl
  exact serve_sound npErrnoToLinux tc received

end Ufs

end Npfs
