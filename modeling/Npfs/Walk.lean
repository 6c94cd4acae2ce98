import Npfs.Confined

/-!
# Walking

What `np_walk` does to the fid and to the new fid.  The file server walks one name at a time, and
moves the fid that it is given: the new fid, or the fid itself when both have one number.
-/

namespace Npfs

open Serve Program

variable {Aux World : Type}

/-! ## The reply -/

theorem npCreate_first {β γ : Type} {view : Npfcall → β} {type : MsgType} {size : UInt32}
    {op : PutOp} {bytes : List UInt8} {val : γ} {pval : Npfcall → γ → Npfcall}
    {fields : List PutOp} {heap : Malloc} {fc : Npfcall}
    (put : ∀ packing, op.exec packing = some (bufPut bytes val pval packing))
    (room : bytes.length ≤ size.toNat) (small : size.toNat + 7 < 2 ^ 31)
    (keeps : ∀ op ∈ fields, op.Keeps view) (packet : ∀ fc pkt, view { fc with pkt } = view fc)
    (created : npCreate type size (op :: fields) heap = some fc) :
    view fc = view (pval (npCreateCommon heap size type).2 val) := by
  obtain ⟨packing, run, passed⟩ := Option.bind_eq_some_iff.mp created
  obtain ⟨first, stored, run⟩ := Option.bind_eq_some_iff.mp run
  obtain rfl := Option.some.inj ((put _).symm.trans stored)
  rw [npPostCheck_keeps packet passed, @execAll_keeps _ _ _ _ fields keeps run]
  have holds := npCreateCommon_holds heap type small
  generalize npCreateCommon heap size type = common at holds ⊢
  obtain ⟨buf, fc⟩ := common
  have fits : buf.p + bytes.length ≤ buf.ep :=
    holds.room (by simpa only [header_length] using by omega)
  exact congrArg (fun packing => view packing.2) (bufPut_eq fits)

/-- The `Rwalk` that `np_walk` sends. -/
theorem rwalk_created {wqids : List Npqid} (few : wqids.length ≤ MAXWELEM) (heap : Malloc) :
    ∃ fc, npCreateRwalk wqids heap = some fc ∧ fc.type = MsgType.rwalk.code ∧
      fc.nwqid.toNat = wqids.length := by
  obtain ⟨fc, created, type⟩ := rwalk_type few heap
  refine ⟨fc, created, type, ?_⟩
  simp only [MAXWELEM] at few
  have size : (UInt32.ofNat (2 + wqids.length * 13)).toNat = 2 + wqids.length * 13 :=
    toNat_ofNat32 (by omega)
  simp only [npCreateRwalk, MAXWELEM, if_neg (Nat.not_lt.mpr few)] at created
  have counted := @npCreate_first _ _ Npfcall.nwqid _ _ _ _ _ _ _ _ _ (fun _ => rfl)
    (by rw [size, LittleEndian.bytes16_length]; omega) (by omega)
    (@keeps_putWqids _ Npfcall.nwqid (fun _ _ => rfl) wqids 0) (fun _ _ => rfl) created
  rw [counted]
  exact Nat.mod_eq_of_lt (by omega)

/-! ## What is seen of a run -/

/-- What is seen of the operations of a run, one after another. -/
def seen {α β : Type} (observe : Op × Session Aux World → Option β) (env : Env Aux World)
    (program : Serve α) (s : Session Aux World) : List β :=
  (program.events (exec env) s).filterMap observe

/-- The qid of a name that the file server has walked. -/
def walkedQid (env : Env Aux World) : Op × Session Aux World → Option Npqid
  | (.call (.walk fid wname), s) => (env.answer (.walk fid wname) s.fids.get s.world).reply
  | _ => none

/-- The place where the file server leaves a fid that it clones or walks. -/
def leftAux (env : Env Aux World) (fid : FidPtr) : Op × Session Aux World → Option (Option Aux)
  | (.call (.clone source newfid), s) =>
    if newfid = fid then some (env.answer (.clone source newfid) s.fids.get s.world).aux else none
  | (.call (.walk newfid wname), s) =>
    if newfid = fid then some (env.answer (.walk newfid wname) s.fids.get s.world).aux else none
  | _ => none

theorem walkedQid_quiet {env : Env Aux World} (op : Op) (s : Session Aux World)
    (other : ∀ callback, op ≠ .call callback) :
    walkedQid env (op, s) = none := by
  cases op with
  | call callback => exact absurd rfl (other callback)
  | _ => rfl

theorem leftAux_quiet {env : Env Aux World} (fid : FidPtr) (op : Op) (s : Session Aux World)
    (other : ∀ callback, op ≠ .call callback) : leftAux env fid (op, s) = none := by
  cases op with
  | call callback => exact absurd rfl (other callback)
  | _ => rfl

section Seen

variable {α β γ : Type} {observe : Op × Session Aux World → Option γ} {env : Env Aux World}
  {s : Session Aux World}

theorem seen_bind (program : Serve α) (rest : α → Serve β) :
    seen observe env (program >>= rest) s = seen observe env program s ++
      seen observe env (rest (program.run (exec env) s).1) (program.run (exec env) s).2 := by
  rw [seen, events_bind, List.filterMap_append]
  rfl

@[simp] theorem seen_done (result : α) :
    seen observe env (.done result : Serve α) s = [] := rfl

/-- Of operations that show nothing, nothing is seen. -/
theorem seen_nil {program : Serve α} {ok : Op → Prop} {post : α → Prop}
    (always : program.Always (fun _ _ => True) ok post)
    (hidden : ∀ op s, ok op → observe (op, s) = none) : seen observe env program s = [] := by
  have allowed : ∀ event ∈ program.events (exec env) s, ok event.1 :=
    (always.run (fun _ (_ : Session Aux World) (_ : True) _ => trivial)
      (fun _ _ _ _ => trivial) trivial).2.2
  refine List.filterMap_eq_nil_iff.mpr fun event member => ?_
  exact hidden event.1 event.2 (allowed event member)

end Seen

/-! ## The names -/

/-- How the file server walks the names from the fid that it is given: the qids, and the state in
which it stops. It stops at a name that it does not walk, and in front of the next name at what is
no directory. -/
def Env.walkNames (env : Env Aux World) (fid : FidPtr) :
    List (List UInt8) → Session Aux World → List Npqid × Session Aux World
  | [], s => ([], s)
  | wname :: wnames, s =>
    let outcome := env.answer (.walk fid wname) s.fids.get s.world
    let moved := s.afterCall (some fid) outcome
    match outcome.reply with
    | none => ([], moved)
    | some wqid =>
      let entered := moved.modify fid fun f => { f with type := wqid.type.toUInt16 }
      if wnames ≠ [] ∧ wqid.type.toUInt16 &&& Qtdir = 0 then
        ([wqid], entered)
      else
        let (wqids, stopped) := env.walkNames fid wnames entered
        (wqid :: wqids, stopped)

section Names

variable {env : Env Aux World} {s : Session Aux World} {fid : FidPtr} {f : Npfid Aux}

theorem get_afterCall {β : Type} (live : s.fids.get fid = some f) (outcome : Outcome Aux World β) :
    (s.afterCall (some fid) outcome).fids.get fid = some { f with
      aux := outcome.aux, refcount := f.refcount + if outcome.takesRef then 1 else 0 } := by
  simp [Session.afterCall, Session.modify, live]

/-- The fid behind a name that was walked. -/
def Session.entered (env : Env Aux World) (s : Session Aux World) (fid : FidPtr)
    (wname : List UInt8) (wqid : Npqid) : Session Aux World :=
  (s.afterCall (some fid) (env.answer (.walk fid wname) s.fids.get s.world)).modify fid fun f =>
    { f with type := wqid.type.toUInt16 }

theorem get_entered (live : s.fids.get fid = some f) (wname : List UInt8) (wqid : Npqid) :
    (s.entered env fid wname wqid).fids.get fid = some { f with
      aux := (env.answer (.walk fid wname) s.fids.get s.world).aux
      refcount := f.refcount +
        if (env.answer (.walk fid wname) s.fids.get s.world).takesRef then 1 else 0
      type := wqid.type.toUInt16 } := by
  simp only [Session.entered, Session.modify, Cells.get_modify_self, get_afterCall live]
  rfl

theorem npWalkNames_cons (fid : FidPtr) (wname : List UInt8) (wnames : List (List UInt8)) :
    npWalkNames fid (wname :: wnames) = .step (.call (.walk fid wname)) fun wqid => match wqid with
      | none => .done []
      | some wqid => .step (.setType fid wqid.type.toUInt16) fun _ =>
        .step (.type fid) fun type =>
          if wnames ≠ [] ∧ type &&& Qtdir = 0 then .done [wqid]
          else npWalkNames fid wnames >>= fun wqids => .done (wqid :: wqids) := by
  refine congrArg (Program.step _) (funext fun wqid => ?_)
  cases wqid <;> rfl

theorem run_npWalkNames (live : s.fids.get fid = some f) (wnames : List (List UInt8)) :
    (npWalkNames fid wnames).run (exec env) s = env.walkNames fid wnames s := by
  induction wnames generalizing s f with
  | nil => rfl
  | cons wname wnames ih =>
      rw [npWalkNames_cons, Env.walkNames, run_step]
      simp only [exec, Callback.target]
      cases (env.answer (.walk fid wname) s.fids.get s.world).reply with
      | none => rfl
      | some wqid =>
          have entered := @get_entered _ _ env _ _ _ live wname wqid
          simp only [Session.entered] at entered
          simp only [run_step, exec, Session.load, entered, run_ite, run_bind, run_done, ih entered]

theorem seen_npWalkNames_cons {γ : Type} {observe : Op × Session Aux World → Option γ}
    (live : s.fids.get fid = some f) (wname : List UInt8) (wnames : List (List UInt8))
    (hidden : ∀ type s, observe (.setType fid type, s) = none ∧ observe (.type fid, s) = none) :
    seen observe env (npWalkNames fid (wname :: wnames)) s =
      (observe (.call (.walk fid wname), s)).toList ++
        match (env.answer (.walk fid wname) s.fids.get s.world).reply with
        | none => []
        | some wqid =>
          if wnames ≠ [] ∧ wqid.type.toUInt16 &&& Qtdir = 0 then []
          else seen observe env (npWalkNames fid wnames) (s.entered env fid wname wqid) := by
  have first (event : Op × Session Aux World) (events : List (Op × Session Aux World)) :
      (event :: events).filterMap observe = (observe event).toList ++ events.filterMap observe := by
    cases observed : observe event <;> simp [observed]
  rw [npWalkNames_cons, seen, events_step, first]
  simp only [exec, Callback.target]
  cases (env.answer (.walk fid wname) s.fids.get s.world).reply with
  | none => rfl
  | some wqid =>
      have entered := @get_entered _ _ env _ _ _ live wname wqid
      simp only [Session.entered] at entered
      simp only [events_step, first, (hidden 0 _).2, (hidden _ _).1, exec, Session.load, entered]
      split_ifs
      · rfl
      · rw [events_bind]
        simp [seen, Session.entered]

theorem seen_npWalkNames (live : s.fids.get fid = some f) (wnames : List (List UInt8)) :
    seen (walkedQid env) env (npWalkNames fid wnames) s = (env.walkNames fid wnames s).1 := by
  induction wnames generalizing s f with
  | nil => rfl
  | cons wname wnames ih =>
      rw [seen_npWalkNames_cons live wname wnames fun _ _ => ⟨rfl, rfl⟩, Env.walkNames, walkedQid]
      cases (env.answer (.walk fid wname) s.fids.get s.world).reply with
      | none => rfl
      | some wqid =>
          simp only [ih (get_entered live wname wqid)]
          split_ifs <;> rfl

/-- Walking, the file server moves the fid, and may take references to it. -/
theorem get_walkNames (live : s.fids.get fid = some f) (wnames : List (List UInt8)) :
    ∃ refcount ≥ f.refcount, (env.walkNames fid wnames s).2.fids.get fid = some { f with
      refcount
      aux := (seen (leftAux env fid) env (npWalkNames fid wnames) s).getLast?.getD f.aux
      type := ((env.walkNames fid wnames s).1.getLast?.map (·.type.toUInt16)).getD f.type } := by
  induction wnames generalizing s f with
  | nil => exact ⟨f.refcount, le_rfl, live⟩
  | cons wname wnames ih =>
      rw [seen_npWalkNames_cons live wname wnames fun _ _ => ⟨rfl, rfl⟩, Env.walkNames, leftAux]
      have moved := get_afterCall live (env.answer (.walk fid wname) s.fids.get s.world)
      have taken : f.refcount ≤ f.refcount +
          if (env.answer (.walk fid wname) s.fids.get s.world).takesRef then 1 else 0 := by
        split_ifs <;> omega
      cases (env.answer (.walk fid wname) s.fids.get s.world).reply with
      | none => exact ⟨_, taken, by simpa using moved⟩
      | some wqid =>
          have entered := @get_entered _ _ env _ _ _ live wname wqid
          obtain ⟨refcount, more, stopped⟩ := ih entered
          by_cases stop : wnames ≠ [] ∧ wqid.type.toUInt16 &&& Qtdir = 0
          · simp only [if_pos stop]
            exact ⟨_, taken, by simpa [Session.entered] using entered⟩
          · simp only [if_neg stop]
            refine ⟨refcount, taken.trans more, stopped.trans ?_⟩
            simp only [if_true, Option.toList, List.singleton_append,
              List.getLast?_cons, Option.getD_some, Session.entered]
            congr 2
            cases (env.walkNames fid wnames _).1.getLast? <;> rfl

theorem pool_walkNames (env : Env Aux World) (s : Session Aux World) (fid : FidPtr)
    (wnames : List (List UInt8)) : (env.walkNames fid wnames s).2.pool = s.pool := by
  induction wnames generalizing s with
  | nil => rfl
  | cons wname wnames ih =>
      rw [Env.walkNames]
      dsimp only
      split
      · rfl
      · split_ifs
        · rfl
        · exact ih _

theorem within_npWalkNames (fid : FidPtr) (wnames : List (List UInt8)) :
    Within fid (npWalkNames fid wnames) := by
  induction wnames with
  | nil => trivial
  | cons wname wnames ih =>
      rw [npWalkNames_cons]
      refine ⟨fun _ same => (Option.some.inj same).symm, fun wqid _ => ?_⟩
      cases wqid with
      | none => trivial
      | some wqid =>
          refine ⟨rfl, fun _ _ => ⟨trivial, fun type _ => ?_⟩⟩
          rw [always_ite]
          split_ifs
          · trivial
          · rw [always_bind]
            exact ih.mono fun _ _ => trivial

end Names

/-! ## The law -/

/-- A number denotes a fid to which there is a reference. -/
def Session.Holds (s : Session Aux World) (n : UInt32) (fid : FidPtr) (f : Npfid Aux) : Prop :=
  s.pool n = some fid ∧ s.fids.get fid = some f ∧ 0 < f.refcount

/-- The reply is an `Rwalk` for all names. -/
def Npfcall.Reaches (tc : Npfcall) (reply : Option Npfcall) : Prop :=
  ∃ rc, reply = some rc ∧ rc.type = MsgType.rwalk.code ∧ rc.nwqid = tc.nwname

/-- What a walk should do: `s` and `s'` are the states before and behind the request, `wqids` are
the qids of the names that the file server walked, and `places` where it left a fid. -/
structure Walked (s s' : Session Aux World) (tc : Npfcall) (reply : Option Npfcall)
    (wqids : List Npqid) (places : FidPtr → List (Option Aux)) : Prop where
  /-- A new fid is made exactly by a walk that reaches its end. -/
  fresh : tc.fid ≠ tc.newfid → s.pool tc.newfid = none →
    ((s'.pool tc.newfid).isSome ↔ tc.Reaches reply)
  /-- It is at the place that was reached. -/
  reached : tc.fid ≠ tc.newfid → s.pool tc.newfid = none →
    ∀ newfid, s'.pool tc.newfid = some newfid →
    ∃ fid f g, s.pool tc.fid = some fid ∧ s.fids.get fid = some f ∧ s'.fids.get newfid = some g ∧
      (places newfid).getLast? = some g.aux ∧ g.user = f.user ∧
        g.type = (wqids.getLast?.map (·.type.toUInt16)).getD f.type
  /-- The fid stays as it is, but when it is itself walked to the end. A request that is not
  answered keeps its reference. -/
  source : ∀ fid f, s.Holds tc.fid fid f → (tc.fid = tc.newfid → ¬ tc.Reaches reply) →
    s'.pool tc.fid = some fid ∧
      s'.fids.get fid = some (f.addRef (if reply = none then 1 else 0))
  /-- A new fid that is in use already stays as it is, and the request fails. -/
  used : tc.fid ≠ tc.newfid → ∀ fid f, s.Holds tc.newfid fid f →
    (∃ rc, reply = some rc ∧ rc.Failed) ∧ s'.pool tc.newfid = some fid ∧ s'.fids.get fid = some f
  /-- The reply counts the names that were walked. -/
  count : ∀ rc, reply = some rc → rc.type = MsgType.rwalk.code → rc.nwqid.toNat = wqids.length

/-- What a `Twalk` does is what a walk should do. -/
def WalkLaw (npErrnoToLinux : UInt32 → UInt32) (env : Env Aux World) (s : Session Aux World)
    (tc : Npfcall) : Prop :=
  tc.type = MsgType.twalk.code →
    let request := serve npErrnoToLinux tc none
    let start := { s with reqFid := none }
    Walked s (request.run (exec env) start).2 tc (request.run (exec env) start).1
      (seen (walkedQid env) env request start) fun fid => seen (leftAux env fid) env request start

/-! ## Where it is broken -/

/-- The names of a `Twalk`. -/
def Npfcall.names (tc : Npfcall) : List (List UInt8) :=
  (tc.wnames.toList.take tc.nwname.toNat).map tc.text

/-- The request has found its fid. -/
def Session.found (s : Session Aux World) (fid : FidPtr) : Session Aux World :=
  { s.modify fid (.addRef 1) with error := none, reqFid := some fid }

/-- A new fid has been created. -/
def Session.created (s : Session Aux World) (newfid : UInt32) : Session Aux World :=
  { s with
    fids := s.fids.push (.new newfid)
    pool := Function.update s.pool newfid (some s.fids.next) }

/-- A new fid has been cloned from another. -/
def Session.cloned (env : Env Aux World) (s : Session Aux World) (fid newfid : FidPtr)
    (f : Npfid Aux) : Session Aux World :=
  let cloned := s.afterCall (some newfid) (env.answer (.clone fid newfid) s.fids.get s.world)
  ((exec env (.userIncref f.user) cloned).2.modify newfid fun g => { g with user := f.user }).modify
    newfid fun g => { g with type := f.type }

/-- The file server walks the names of a request. -/
def Env.walk (env : Env Aux World) (tc : Npfcall) (fid : FidPtr) (s : Session Aux World) :
    List Npqid × Session Aux World :=
  env.walkNames fid tc.names (s.modify fid (.addRef 1))

/-- What goes wrong when a `Twalk` passes the tests of `np_walk`; `f` is its fid. -/
inductive WalkBreaks (env : Env Aux World) (s : Session Aux World) (tc : Npfcall) (fid : FidPtr)
    (f : Npfid Aux) : Prop where
  /-- `goto done` gives up a reference to the new fid that is in use. -/
  | used (apart : tc.fid ≠ tc.newfid) {newfid : FidPtr} {g : Npfid Aux}
    (held : s.Holds tc.newfid newfid g)
  /-- The new fid that could not be cloned has no reference that could be given up. -/
  | uncloned (apart : tc.fid ≠ tc.newfid) (absent : s.pool tc.newfid = none)
    (refused : (env.answer (.clone fid s.fids.next)
      ((s.found fid).created tc.newfid).fids.get s.world).reply = false)
    (untaken : (env.answer (.clone fid s.fids.next)
      ((s.found fid).created tc.newfid).fids.get s.world).takesRef = false)
  /-- The file server has taken references to a new fid that does not reach its end. -/
  | taken (apart : tc.fid ≠ tc.newfid) (absent : s.pool tc.newfid = none)
    (cloned : (env.answer (.clone fid s.fids.next)
      ((s.found fid).created tc.newfid).fids.get s.world).reply = true)
    {wqids : List Npqid} {stopped : Session Aux World} {g : Npfid Aux}
    (walk : env.walk tc s.fids.next
      (((s.found fid).created tc.newfid).cloned env fid s.fids.next f) = (wqids, stopped))
    (short : wqids.length ≠ tc.nwname.toNat) (live : stopped.fids.get s.fids.next = some g)
    (more : g.refcount ≠ 1)
  /-- The fid itself has been walked, but not to the end. -/
  | moved (same : tc.fid = tc.newfid) (held : 0 < f.refcount)
    {wqids : List Npqid} {stopped : Session Aux World}
    (walk : env.walk tc fid (s.found fid) = (wqids, stopped))
    (short : wqids.length ≠ tc.nwname.toNat)
    (elsewhere : stopped.fids.get fid ≠ some (f.addRef 2))

/-- A `Twalk` passes the tests of `np_walk`, and one of these things goes wrong. -/
def WalkGoesWrong (env : Env Aux World) (s : Session Aux World) (tc : Npfcall) : Prop :=
  tc.type = MsgType.twalk.code ∧ ∃ fid f, s.pool tc.fid = some fid ∧ s.fids.get fid = some f ∧
    f.omode = Onotopen ∧ tc.nwname.toNat ≤ MAXWELEM ∧ WalkBreaks env s tc fid f

/-! ## The end of a request -/

/-- The operation does not walk and does not clone. -/
def Op.Unwalked (env : Env Aux World) (op : Op) : Prop :=
  ∀ s, walkedQid env (op, s) = none ∧ ∀ fid, leftAux env fid (op, s) = none

theorem npFidDecref_unwalked (env : Env Aux World) (fid : Option FidPtr) :
    (npFidDecref fid).Always (fun _ _ => True) (Op.Unwalked env) fun _ => True := by
  refine always_npFidDecref (fun ptr _ op allowed s => ?_) trivial
  cases op with
  | call callback => rcases allowed with rfl | rfl <;> exact ⟨rfl, fun _ => rfl⟩
  | _ => exact ⟨rfl, fun _ => rfl⟩

theorem addRef_addRef (f : Npfid Aux) (m n : Int) : (f.addRef m).addRef n = f.addRef (m + n) := by
  simp [Npfid.addRef, add_assoc]

@[simp] theorem addRef_zero (f : Npfid Aux) : f.addRef 0 = f := by simp [Npfid.addRef]

theorem eq_addRef {f g : Npfid Aux} {m n : Int} (same : g.addRef m = f.addRef n) :
    g = f.addRef (n - m) := by
  have back := congrArg (Npfid.addRef (-m)) same
  rw [addRef_addRef, addRef_addRef, add_neg_cancel, addRef_zero] at back
  exact back

/-- What is left of a fid when a reference to it is given up. -/
def Npfid.drop (f : Npfid Aux) : Option (Npfid Aux) :=
  if f.refcount = 1 then none else some (f.addRef (-1))

theorem Npfid.drop_ne (f : Npfid Aux) : f.drop ≠ some f := by
  unfold Npfid.drop
  split_ifs
  · exact (Option.some_ne_none f).symm
  · intro same
    have counted : f.refcount + -1 = f.refcount := congrArg Npfid.refcount (Option.some.inj same)
    omega

theorem drop_addRef {f : Npfid Aux} (held : 0 < f.refcount) : (f.addRef 1).drop = some f := by
  have more : ¬ (f.addRef 1).refcount = 1 := by
    simp only [Npfid.addRef]
    omega
  rw [Npfid.drop, if_neg more, addRef_addRef]
  simp

theorem get_npFidDecref {env : Env Aux World} {s : Session Aux World} {fid : FidPtr} {f : Npfid Aux}
    (live : s.fids.get fid = some f) :
    ((npFidDecref (some fid)).run (exec env) s).2.fids.get fid = f.drop := by
  unfold Npfid.drop
  split_ifs with last
  · exact get_npFidDecref_last live last
  · exact get_npFidDecref_more live last

/-- A fid stays in the pool as long as there are references to it. -/
theorem pool_npFidDecref {env : Env Aux World} {s : Session Aux World} {fid : FidPtr}
    {f : Npfid Aux}
    (live : s.fids.get fid = some f) (named : s.pool f.fid = some fid) :
    ((npFidDecref (some fid)).run (exec env) s).2.pool f.fid = none ↔ f.refcount = 1 := by
  constructor
  · intro gone
    by_contra more
    rw [run_npFidDecref_more live more, Session.modify, named] at gone
    cases gone
  · exact fun last => pool_npFidDecref_last live last named

/-- What follows on a handler, which has left the state `t`, for the fid of the request. -/
structure Finished (t s' : Session Aux World) (fid : FidPtr) (tag : UInt16)
    (rc reply : Option Npfcall) : Prop where
  cells : ∀ ptr ≠ fid, s'.fids.get ptr = t.fids.get ptr
  absent : ∀ n, t.pool n = none → s'.pool n = none
  named : ∀ n ptr, ptr ≠ fid → t.pool n = some ptr → s'.pool n = some ptr
  source : ∀ n (f : Npfid Aux), 0 < f.refcount → t.reqFid = some fid → t.pool n = some fid →
    t.fids.get fid = some (f.addRef 1) →
      s'.pool n = some fid ∧ s'.fids.get fid = some (f.addRef (if reply = none then 1 else 0))
  dropped : ∀ g, t.reqFid = some fid → reply ≠ none → t.fids.get fid = some g →
    s'.fids.get fid = g.drop
  unanswered : reply = none → s' = t
  failed : t.error ≠ none → ∃ r, reply = some r ∧ r.Failed
  sent : t.error = none → reply = rc.map (npSetTag · tag)

section Finish

variable {npErrnoToLinux : UInt32 → UInt32} {env : Env Aux World} {t : Session Aux World}
  {tc : Npfcall} {rc : Option Npfcall} {fid : FidPtr}

theorem run_finish (kind : ∀ fc, rc = some fc → fc.type ≠ MsgType.rread.code) :
    t.error = none ∧ rc = none ∧ (finish npErrnoToLinux tc none rc).run (exec env) t = (none, t) ∨
      ∃ r world, (finish npErrnoToLinux tc none rc).run (exec env) t = (some r,
        { ((npFidDecref t.reqFid).run (exec env) { t with world }).2 with reqFid := none }) ∧
        (t.error ≠ none → r.Failed) ∧ (t.error = none → some r = rc.map (npSetTag · tc.tag)) := by
  by_cases clear : t.error = none
  · cases rc with
    | none =>
        refine .inl ⟨clear, rfl, ?_⟩
        rw [finish, run_bind, run_errorReply_none clear]
        rfl
    | some fc =>
        refine .inr ⟨npSetTag fc tc.tag, t.world, ?_, fun error => absurd clear error, fun _ => rfl⟩
        rw [finish, run_bind, run_errorReply_none clear]
        simp only [Option.some_or, sendReply, run_bind, run_npRespond (kind fc rfl)]
        rfl
  · obtain ⟨e, error⟩ := Option.ne_none_iff_exists'.mp clear
    obtain ⟨r, world, failed, run⟩ :=
      @finish_of_fails _ _ npErrnoToLinux env t tc none rc (.inl ⟨e, error⟩)
    exact .inr ⟨r, world, run, fun _ => failed, fun cleared => absurd cleared clear⟩

theorem finished (kind : ∀ fc, rc = some fc → fc.type ≠ MsgType.rread.code)
    (own : ∀ ptr, t.reqFid = some ptr → ptr = fid) :
    Finished t ((finish npErrnoToLinux tc none rc).run (exec env) t).2 fid tc.tag rc
      ((finish npErrnoToLinux tc none rc).run (exec env) t).1 := by
  rcases @run_finish _ _ npErrnoToLinux env t tc rc kind with
    ⟨clear, unanswered, run⟩ | ⟨r, world, run, failed, sent⟩
  · rw [run]
    refine ⟨fun _ _ => rfl, fun _ => id, fun _ _ _ => id, fun _ _ _ _ => .intro,
      fun _ _ answered => absurd rfl answered, fun _ => rfl, fun error => absurd clear error, ?_⟩
    simp [unanswered]
  · rw [run]
    have confined : Session.Confined fid { t with world }
        ((npFidDecref t.reqFid).run (exec env) { t with world }).2 := by
      cases held : t.reqFid with
      | none => exact .refl
      | some ptr =>
          obtain rfl := own ptr held
          exact (within_npFidDecref ptr).run env _
    refine ⟨confined.cells, fun _ => confined.pool_none, fun _ _ other named =>
      confined.pool_some named other, ?_, ?_, fun none => absurd none (Option.some_ne_none r),
      fun error => ⟨r, rfl, failed error⟩, sent⟩
    · intro n f held req named live
      have live' : (Session.fids { t with world }).get fid = some (f.addRef 1) := live
      have more : (f.addRef 1).refcount ≠ 1 := by
        simp only [Npfid.addRef]
        omega
      have dropped := @run_npFidDecref_more _ _ env _ _ _ live' more
      rw [← req] at dropped
      rw [dropped]
      refine ⟨named, ?_⟩
      simp [Session.modify, live, addRef_addRef]
    · intro g req _ live
      have live' : (Session.fids { t with world }).get fid = some g := live
      have dropped := @get_npFidDecref _ _ env _ _ _ live'
      rwa [← req] at dropped

theorem finished_none (own : ∀ ptr, t.reqFid = some ptr → ptr = fid) :
    Finished t ((finish npErrnoToLinux tc none none).run (exec env) t).2 fid tc.tag none
      ((finish npErrnoToLinux tc none none).run (exec env) t).1 :=
  finished (fun _ given => absurd given (Option.some_ne_none _).symm) own

theorem counts_some {fc : Npfcall} {n : Nat} (type : fc.type = MsgType.rwalk.code)
    (count : fc.nwqid.toNat = n) (r : Npfcall) (given : some fc = some r) :
    r.type = MsgType.rwalk.code ∧ r.nwqid.toNat = n := by
  obtain rfl := Option.some.inj given
  exact ⟨type, count⟩

theorem finished_rwalk {n : Nat}
    (counts : ∀ fc, rc = some fc → fc.type = MsgType.rwalk.code ∧ fc.nwqid.toNat = n)
    (own : t.reqFid = some fid) :
    Finished t ((finish npErrnoToLinux tc none rc).run (exec env) t).2 fid tc.tag rc
      ((finish npErrnoToLinux tc none rc).run (exec env) t).1 := by
  refine finished (fun fc given => ?_) fun ptr held => ?_
  · rw [(counts fc given).1]
    decide
  · exact Option.some.inj (held.symm.trans own)

theorem sendReply_unwalked (tc : Npfcall) (rc : Option Npfcall) :
    (sendReply tc rc).Always (fun _ _ => True) (Op.Unwalked env) fun _ => True := by
  cases rc with
  | none => trivial
  | some rc =>
      simp [sendReply, npRespond, Op.Unwalked, walkedQid, leftAux]
      intro fid
      have dropped := npFidDecref_unwalked env fid
      cases fid <;> split_ifs <;> simp [Op.Unwalked, walkedQid, leftAux, dropped]

theorem finish_unwalked (tc : Npfcall) (rc : Option Npfcall) :
    (finish npErrnoToLinux tc none rc).Always (fun _ _ => True) (Op.Unwalked env)
    fun _ => True := by
  simp [finish, errorReply, Option.forall, Op.Unwalked, walkedQid, leftAux, sendReply_unwalked]

end Finish

/-! ## The runs of the handler -/

/-- `np_walk` from the point where it has created the new fid. -/
def npWalkClone (tc : Npfcall) (fid newfid : FidPtr) : Serve (Option Npfcall) := do
  let cloned : Bool ← call (.clone fid newfid)
  if cloned then
    let user ← user fid
    npUserIncref user
    setUser newfid user
    let type ← type fid
    setType newfid type
    npWalkFrom tc newfid
  else
    npFidDecref (some newfid)
    return none

section Clone

variable {env : Env Aux World} {s : Session Aux World} {fid newfid : FidPtr} {f : Npfid Aux}

theorem get_created (live : s.fids.get fid = some f) (n : UInt32) :
    ((s.found fid).created n).fids.get fid = some (f.addRef 1) := by
  have old := (Cells.lt_of_get live).ne
  simp [Session.created, Session.found, Session.modify, Cells.get_push, old, live]

theorem run_clone {reply : Bool}
    (replied : (env.answer (.clone fid newfid) s.fids.get s.world).reply = reply) :
    (call (.clone fid newfid)).run (exec env) s = (reply, s.afterCall (some newfid)
      (env.answer (.clone fid newfid) s.fids.get s.world)) := Prod.ext replied rfl

theorem get_clone (live : s.fids.get fid = some f) (other : fid ≠ newfid) :
    (s.afterCall (some newfid)
      (env.answer (.clone fid newfid) s.fids.get s.world)).fids.get fid = some f := by
  have confined : s.Confined newfid
      (s.afterCall (some newfid) (env.answer (.clone fid newfid) s.fids.get s.world)) :=
    confined_afterCall _ fun _ same => (Option.some.inj same).symm
  exact (confined.cells fid other).trans live

theorem fids_userIncref (env : Env Aux World) (s : Session Aux World) (user : Option UserPtr) :
    (exec env (.userIncref user) s).2.fids = s.fids := by
  cases user <;> rfl

theorem get_afterClone (s : Session Aux World) (n : UInt32) (outcome : Outcome Aux World Bool) :
    ((s.created n).afterCall (some s.fids.next) outcome).fids.get s.fids.next =
      some { (Npfid.new n : Npfid Aux) with
        refcount := if outcome.takesRef then 1 else 0, aux := outcome.aux } := by
  have new : (s.created n).fids.get s.fids.next = some (.new n) := by simp [Session.created]
  simp [Session.afterCall, Session.modify, new, Npfid.new]

/-- The new fid that was cloned has the user and the type of the fid. -/
theorem get_cloned (env : Env Aux World) (s : Session Aux World) (n : UInt32) (f : Npfid Aux) :
    ∃ refcount ≥ 0, ((s.created n).cloned env fid s.fids.next f).fids.get s.fids.next =
      some { (Npfid.new n : Npfid Aux) with
        refcount, user := f.user, type := f.type
        aux := (env.answer (.clone fid s.fids.next) (s.created n).fids.get s.world).aux } := by
  have cloned := get_afterClone s n
    (env.answer (.clone fid s.fids.next) (s.created n).fids.get s.world)
  refine ⟨if (env.answer (.clone fid s.fids.next) (s.created n).fids.get s.world).takesRef then 1
    else 0, by split_ifs <;> decide, ?_⟩
  simp only [Session.cloned, Session.modify, Cells.get_modify_self, fids_userIncref]
  exact congrArg (Option.map _ ∘ Option.map _) cloned

theorem confined_cloned (env : Env Aux World) (s : Session Aux World) (fid newfid : FidPtr)
    (f : Npfid Aux) : s.Confined newfid (s.cloned env fid newfid f) := by
  have asked : s.Confined newfid _ := confined_afterCall
    (env.answer (.clone fid newfid) s.fids.get s.world) fun _ same => (Option.some.inj same).symm
  have counted := asked.trans (@exec_confined _ _ _ env (.userIncref f.user) trivial _)
  exact (counted.trans (confined_modify _)).trans (confined_modify _)

theorem pool_cloned (env : Env Aux World) (s : Session Aux World) (fid newfid : FidPtr)
    (f : Npfid Aux) : (s.cloned env fid newfid f).pool = s.pool := by
  have counted (s : Session Aux World) : (exec env (.userIncref f.user) s).2.pool = s.pool := by
    cases f.user <;> rfl
  exact counted _

theorem run_npWalkClone (tc : Npfcall) (live : s.fids.get fid = some (f.addRef 1))
    (other : fid ≠ newfid) :
    (npWalkClone tc fid newfid).run (exec env) s =
      if (env.answer (.clone fid newfid) s.fids.get s.world).reply then
        (npWalkFrom tc newfid).run (exec env) (s.cloned env fid newfid f)
      else
        (none, ((npFidDecref (some newfid)).run (exec env)
          (s.afterCall (some newfid) (env.answer (.clone fid newfid) s.fids.get s.world))).2) := by
  have moved := @get_clone _ _ env _ _ _ _ live other
  by_cases replied : (env.answer (.clone fid newfid) s.fids.get s.world).reply = true
  · rw [if_pos replied, npWalkClone, run_bind, run_clone replied, Session.cloned]
    generalize s.afterCall _ _ = s₁ at moved ⊢
    have counted := fids_userIncref env s₁ f.user
    simp [run_bind, Session.load, moved, Npfid.addRef, counted, Session.modify,
      Cells.get_modify_ne other]
  · rw [if_neg replied, npWalkClone, run_bind, run_clone (Bool.eq_false_iff.mpr replied)]
    simp [run_bind]

end Clone

section Runs

variable {env : Env Aux World} {s : Session Aux World} {tc : Npfcall} {fid : FidPtr} {f : Npfid Aux}

theorem run_npWalk_unknown (absent : s.pool tc.fid = none) :
    (npWalk tc).run (exec env) s = (none, { s with error := some (.of Eunknownfid EIO) }) := by
  simp [npWalk, run_bind, absent]

theorem run_npWalk_refused (named : s.pool tc.fid = some fid)
    (refused : ∀ f, s.fids.get fid = some f → f.omode ≠ Onotopen ∨ MAXWELEM < tc.nwname.toNat) :
    ∃ error fault, (npWalk tc).run (exec env) s =
      (none, { s.modify fid (.addRef 1) with reqFid := some fid, error := some error, fault }) := by
  cases found : s.fids.get fid with
  | none =>
      have closed : (0 : UInt16) ≠ Onotopen := by decide
      simp [npWalk, run_bind, named, Session.modify, Session.load, found, closed]
  | some f =>
      rcases refused f found with opened | many
      · simp [npWalk, run_bind, named, Session.modify, Session.load, found, opened, Npfid.addRef]
      · by_cases opened : f.omode = Onotopen
        · simp [npWalk, run_bind, named, Session.modify, Session.load, found, opened,
            many, Npfid.addRef]
        · simp [npWalk, run_bind, named, Session.modify, Session.load, found, opened, Npfid.addRef]

variable (named : s.pool tc.fid = some fid) (live : s.fids.get fid = some f)
  (unopened : f.omode = Onotopen) (few : tc.nwname.toNat ≤ MAXWELEM)

include named live unopened few

theorem run_npWalk_used (apart : tc.fid ≠ tc.newfid) {newfid : FidPtr}
    (used : s.pool tc.newfid = some newfid) :
    (npWalk tc).run (exec env) { s with reqFid := none, error := none } = (none,
      ((npFidDecref (some newfid)).run (exec env)
        { s.found fid with error := some (.of Einuse EIO) }).2) := by
  simp [npWalk, run_bind, named, live, unopened, not_lt.mpr few, apart, used, Session.found,
    Session.modify, Session.load, Npfid.addRef]

theorem run_npWalk_new (apart : tc.fid ≠ tc.newfid) (absent : s.pool tc.newfid = none) :
    (npWalk tc).run (exec env) { s with reqFid := none, error := none } = (
      if (env.answer (.clone fid s.fids.next)
          ((s.found fid).created tc.newfid).fids.get s.world).reply then
        (npWalkFrom tc s.fids.next).run (exec env)
          (((s.found fid).created tc.newfid).cloned env fid s.fids.next f)
      else
        (none, ((npFidDecref (some s.fids.next)).run (exec env)
          (((s.found fid).created tc.newfid).afterCall (some s.fids.next)
            (env.answer (.clone fid s.fids.next)
              ((s.found fid).created tc.newfid).fids.get s.world))).2)) := by
  have started : (npWalk tc).run (exec env) { s with reqFid := none, error := none } =
      (npWalkClone tc fid s.fids.next).run (exec env) ((s.found fid).created tc.newfid) := by
    simp [npWalk, npWalkClone, run_bind, named, live, unopened, not_lt.mpr few, apart, absent,
      Session.found, Session.modify, Session.load, Npfid.addRef, run_npFidCreate, Session.created]
  rw [started]
  exact run_npWalkClone tc (get_created live tc.newfid) (Cells.lt_of_get live).ne

theorem run_npWalk_same (same : tc.fid = tc.newfid) :
    (npWalk tc).run (exec env) { s with reqFid := none, error := none } =
      (npWalkFrom tc fid).run (exec env) (s.found fid) := by
  simp [npWalk, run_bind, named, live, unopened, not_lt.mpr few, ← same, Session.found,
    Session.modify, Session.load, Npfid.addRef]

end Runs

section From

variable {env : Env Aux World} {s stopped : Session Aux World} {tc : Npfcall} {fid : FidPtr}
  {f : Npfid Aux} {wqids : List Npqid}

theorem run_walk (live : s.fids.get fid = some f) :
    (npWalkNames fid tc.names).run (exec env) (s.modify fid (.addRef 1)) = env.walk tc fid s := by
  have counted : (s.modify fid (.addRef 1)).fids.get fid = some (f.addRef 1) := by
    simp [Session.modify, live]
  exact run_npWalkNames counted tc.names

theorem walk_length (live : s.fids.get fid = some f) (walk : env.walk tc fid s = (wqids, stopped)) :
    wqids.length ≤ tc.nwname.toNat := by
  have length := npWalkNames_length env (s.modify fid (.addRef 1)) fid tc.names
  rw [run_walk live, walk] at length
  refine length.trans ?_
  simp [Npfcall.names]

/-- Where the fid is when the file server stops. -/
theorem get_walk (live : s.fids.get fid = some f) (walk : env.walk tc fid s = (wqids, stopped)) :
    ∃ refcount ≥ f.refcount + 1, stopped.fids.get fid = some { f with
      refcount
      aux := (seen (leftAux env fid) env (npWalkNames fid tc.names)
        (s.modify fid (.addRef 1))).getLast?.getD f.aux
      type := (wqids.getLast?.map (·.type.toUInt16)).getD f.type } := by
  have counted : (s.modify fid (.addRef 1)).fids.get fid = some (f.addRef 1) := by
    simp [Session.modify, live]
  obtain ⟨refcount, more, stopped⟩ := @get_walkNames _ _ env _ _ _ counted tc.names
  rw [← Env.walk, walk] at stopped
  exact ⟨refcount, more, stopped⟩

theorem confined_walk (live : s.fids.get fid = some f)
    (walk : env.walk tc fid s = (wqids, stopped)) : s.Confined fid stopped := by
  have names := (within_npWalkNames fid tc.names).run env (s.modify fid (.addRef 1))
  rw [run_walk live, walk] at names
  exact (confined_modify _).trans names

/-- `np_walk` answers, unless it has walked none of its names. -/
theorem run_npWalkFrom (live : s.fids.get fid = some f) (few : tc.nwname.toNat ≤ MAXWELEM)
    (walk : env.walk tc fid s = (wqids, stopped)) :
    (wqids = [] ∧ tc.nwname ≠ 0) ∧ (npWalkFrom tc fid).run (exec env) s =
        (none, ((npFidDecref (some fid)).run (exec env) stopped).2) ∨
      ∃ rc world, rc.type = MsgType.rwalk.code ∧ rc.nwqid.toNat = wqids.length ∧
        (npWalkFrom tc fid).run (exec env) s = (some rc, ((npFidDecref (some fid)).run (exec env)
          { if tc.fid ≠ tc.newfid ∧ wqids.length = tc.nwname.toNat then
              stopped.modify fid (.addRef 1)
            else stopped with error := none, world }).2) := by
  have length := walk_length live walk
  have walked := @run_walk _ _ env _ tc _ _ live
  rw [walk, Npfcall.names] at walked
  simp only [npWalkFrom, run_bind, run_npFidIncref, walked, run_ite]
  by_cases nothing : wqids.length = 0 ∧ tc.nwname ≠ 0
  · left
    refine ⟨⟨List.length_eq_zero_iff.mp nothing.1, nothing.2⟩, ?_⟩
    rw [if_pos nothing]
    rfl
  · right
    obtain ⟨rc, created, type, count⟩ := rwalk_created (length.trans few)
      (env.malloc stopped.world).1
    refine ⟨rc, (env.malloc stopped.world).2, type, count, ?_⟩
    rw [if_neg nothing]
    split_ifs <;> simp [created, Session.modify]

theorem npWalkFrom_full (live : s.fids.get fid = some f) (few : tc.nwname.toNat ≤ MAXWELEM)
    (walk : env.walk tc fid s = (wqids, stopped)) (full : wqids.length = tc.nwname.toNat) :
    ∃ rc world, rc.type = MsgType.rwalk.code ∧ rc.nwqid.toNat = wqids.length ∧
      (npWalkFrom tc fid).run (exec env) s = (some rc, ((npFidDecref (some fid)).run (exec env)
        { if tc.fid ≠ tc.newfid then stopped.modify fid (.addRef 1) else stopped with
          error := none, world }).2) := by
  rcases run_npWalkFrom live few walk with ⟨⟨rfl, names⟩, -⟩ | ⟨rc, world, type, count, run⟩
  · have unnamed : tc.nwname.toNat = (0 : UInt16).toNat := full.symm
    exact absurd (UInt16.toNat_inj.mp unnamed) names
  · refine ⟨rc, world, type, count, ?_⟩
    simpa only [full, and_true] using run

theorem npWalkFrom_short (live : s.fids.get fid = some f) (few : tc.nwname.toNat ≤ MAXWELEM)
    (walk : env.walk tc fid s = (wqids, stopped)) (short : wqids.length ≠ tc.nwname.toNat) :
    ∃ rc error world,
      (∀ fc, rc = some fc → fc.type = MsgType.rwalk.code ∧ fc.nwqid.toNat = wqids.length) ∧
      (npWalkFrom tc fid).run (exec env) s =
        (rc, ((npFidDecref (some fid)).run (exec env) { stopped with error, world }).2) := by
  rcases run_npWalkFrom live few walk with ⟨-, run⟩ | ⟨rc, world, type, count, run⟩
  · exact ⟨none, stopped.error, stopped.world,
      fun _ given => absurd given (Option.some_ne_none _).symm, run⟩
  · refine ⟨some rc, none, world, ?_, ?_⟩
    · rintro _ ⟨⟩
      exact ⟨type, count⟩
    · simpa only [short, and_false, if_false] using run

end From

section Seen

variable {γ : Type} {observe : Op × Session Aux World → Option γ} {env : Env Aux World}
  {s : Session Aux World} {tc : Npfcall} {fid : FidPtr} {f : Npfid Aux}
  (hides : ∀ op s, op.Unwalked env → observe (op, s) = none)
  (quiet : ∀ op s, (∀ callback, op ≠ .call callback) → observe (op, s) = none)

include hides in
theorem seen_npWalkFrom (newfid : FidPtr) :
    seen observe env (npWalkFrom tc newfid) s =
      seen observe env (npWalkNames newfid tc.names) (s.modify newfid (.addRef 1)) := by
  have counted : (npFidIncref (some newfid)).Always (fun _ _ => True) (Op.Unwalked env)
      fun _ => True := by simp [Op.Unwalked, walkedQid, leftAux]
  have answered (wqids : List Npqid) : Program.Always (fun _ _ => True) (Op.Unwalked env)
      (fun _ => True) (do
        if wqids.length = 0 ∧ tc.nwname ≠ 0 then
          npFidDecref (some newfid)
          return none
        else
          npWerrorNone
          if tc.fid ≠ tc.newfid ∧ wqids.length = tc.nwname.toNat then
            npFidIncref (some newfid)
          let rc ← create (npCreateRwalk wqids)
          npFidDecref (some newfid)
          return rc : Serve (Option Npfcall)) := by
    have dropped := npFidDecref_unwalked env (some newfid)
    split_ifs <;> simp [Op.Unwalked, walkedQid, leftAux, dropped]
  rw [npWalkFrom, seen_bind, seen_bind, seen_nil counted hides, seen_nil (answered _) hides,
    List.nil_append, List.append_nil]
  rfl

include quiet in
theorem seen_npWalk_new (named : s.pool tc.fid = some fid) (live : s.fids.get fid = some f)
    (unopened : f.omode = Onotopen) (few : tc.nwname.toNat ≤ MAXWELEM)
    (apart : tc.fid ≠ tc.newfid) (absent : s.pool tc.newfid = none) :
    seen observe env (npWalk tc) { s with reqFid := none, error := none } =
      seen observe env (npWalkClone tc fid s.fids.next) ((s.found fid).created tc.newfid) := by
  simp [seen, npWalk, npWalkClone, npFidFind, npFidIncref, setReqFid, omode,
    npFidCreate, exec, quiet,
    named, live, unopened, not_lt.mpr few, apart, absent,
      Session.found, Session.modify, Session.load, Npfid.addRef, Session.created]

include quiet in
theorem seen_npWalk_same (named : s.pool tc.fid = some fid) (live : s.fids.get fid = some f)
    (unopened : f.omode = Onotopen) (few : tc.nwname.toNat ≤ MAXWELEM)
    (same : tc.fid = tc.newfid) :
    seen observe env (npWalk tc) { s with reqFid := none, error := none } =
      seen observe env (npWalkFrom tc fid) (s.found fid) := by
  simp [seen, npWalk, npFidFind, npFidIncref, setReqFid, omode, exec, quiet,
    named, live, unopened, not_lt.mpr few, ← same,
      Session.found, Session.modify, Session.load, Npfid.addRef]

include quiet in
/-- A new fid that was cloned. -/
theorem seen_npWalkClone {newfid : FidPtr} (live : s.fids.get fid = some (f.addRef 1))
    (other : fid ≠ newfid)
    (cloned : (env.answer (.clone fid newfid) s.fids.get s.world).reply = true) :
    seen observe env (npWalkClone tc fid newfid) s =
      (observe (.call (.clone fid newfid), s)).toList ++
        seen observe env (npWalkFrom tc newfid) (s.cloned env fid newfid f) := by
  have moved := @get_clone _ _ env _ _ _ _ live other
  have asked : seen observe env (call (.clone fid newfid)) s =
      (observe (.call (.clone fid newfid), s)).toList := by
    cases shown : observe (.call (.clone fid newfid), s) <;> simp [seen, call, shown]
  rw [npWalkClone, seen_bind, asked, run_clone cloned, Session.cloned]
  generalize s.afterCall _ _ = s₁ at moved ⊢
  have counted := fids_userIncref env s₁ f.user
  have userSilent (s : Session Aux World) : seen observe env (user fid) s = [] := by
    simp [seen, user, quiet]
  have increfSilent (s : Session Aux World) : seen observe env (npUserIncref f.user) s = [] := by
    simp [seen, npUserIncref, quiet]
  have setUserSilent (s : Session Aux World) :
      seen observe env (setUser newfid f.user) s = [] := by simp [seen, setUser, quiet]
  have typeSilent (s : Session Aux World) : seen observe env (Serve.type fid) s = [] := by
    simp [seen, Serve.type, quiet]
  have setTypeSilent (s : Session Aux World) :
      seen observe env (setType newfid f.type) s = [] := by simp [seen, setType, quiet]
  simp [seen_bind, userSilent, increfSilent, setUserSilent, typeSilent, setTypeSilent, Session.load,
    moved, Npfid.addRef, counted, Session.modify, Cells.get_modify_ne other]

end Seen

/-! ## Whether the law holds -/

section Law

variable {npErrnoToLinux : UInt32 → UInt32} {env : Env Aux World} {s s' t : Session Aux World}
  {tc : Npfcall} {rc reply : Option Npfcall} {fid : FidPtr} {f : Npfid Aux} {wqids : List Npqid}
  {places : FidPtr → List (Option Aux)}

theorem walkLaw_iff_walked (typed : tc.type = MsgType.twalk.code)
    (run : (npWalk tc).run (exec env) { s with reqFid := none, error := none } = (rc, t)) :
    WalkLaw npErrnoToLinux env s tc ↔
      Walked s ((finish npErrnoToLinux tc none rc).run (exec env) t).2 tc
        ((finish npErrnoToLinux tc none rc).run (exec env) t).1
        (seen (walkedQid env) env (npWalk tc) { s with reqFid := none, error := none })
        fun fid => seen (leftAux env fid) env (npWalk tc)
          { s with reqFid := none, error := none } := by
  have handled : npHandle tc = npWalk tc := by
    rw [npHandle, npHandler, typed]
    rfl
  have served : (serve npErrnoToLinux tc none).run (exec env) { s with reqFid := none } =
      (finish npErrnoToLinux tc none rc).run (exec env) t := by
    rw [run_serve, handled, run]
  have shown {γ : Type} (observe : Op × Session Aux World → Option γ)
      (hides : ∀ op s, op.Unwalked env → observe (op, s) = none) :
      seen observe env (serve npErrnoToLinux tc none) { s with reqFid := none } =
        seen observe env (npWalk tc) { s with reqFid := none, error := none } := by
    have cleared : npWerrorNone.Always (fun _ _ => True) (Op.Unwalked env) fun _ => True := by
      simp [Op.Unwalked, walkedQid, leftAux]
    rw [serve_eq, seen_bind, seen_nil cleared hides, seen_bind, handled]
    have rest (rc : Option Npfcall) (s : Session Aux World) :
        seen observe env (finish npErrnoToLinux tc none rc) s = [] :=
      seen_nil (finish_unwalked tc rc) hides
    exact (congrArg _ (rest _ _)).trans (List.append_nil _)
  simp only [WalkLaw, typed, true_imp_iff, served]
  rw [shown _ fun op s unwalked => (unwalked s).1]
  simp only [shown _ fun op s unwalked => (unwalked s).2 _]

/-- Without a message there is no reply, or it is an error. -/
theorem Finished.failed_of_none (ends : Finished t s' fid tc.tag none reply) {r : Npfcall}
    (replied : reply = some r) : r.Failed := by
  by_cases clear : t.error = none
  · rw [ends.sent clear] at replied
    cases replied
  · obtain ⟨r', replied', failed⟩ := ends.failed clear
    obtain rfl := Option.some.inj (replied.symm.trans replied')
    exact failed

theorem Npfcall.Failed.ne_rwalk {r : Npfcall} (failed : r.Failed) :
    r.type ≠ MsgType.rwalk.code := by
  rcases failed with type | type <;> rw [type] <;> decide

theorem Finished.not_reaches (ends : Finished t s' fid tc.tag none reply) : ¬ tc.Reaches reply :=
  fun ⟨_, replied, type, _⟩ => (ends.failed_of_none replied).ne_rwalk type

/-- A walk that does not reach its end has nothing to do but to leave everything as it was. -/
theorem walked_of_not_reaches (ends : Finished t s' fid tc.tag rc reply)
    (unreached : ¬ tc.Reaches reply)
    (source : ∀ ptr f, s.Holds tc.fid ptr f → ptr = fid ∧ t.reqFid = some fid ∧
      t.pool tc.fid = some fid ∧ t.fids.get fid = some (f.addRef 1))
    (fresh : tc.fid ≠ tc.newfid → s.pool tc.newfid = none → t.pool tc.newfid = none)
    (used : tc.fid ≠ tc.newfid → ∀ ptr g, s.Holds tc.newfid ptr g →
    (∃ r, reply = some r ∧ r.Failed) ∧
      s'.pool tc.newfid = some ptr ∧ s'.fids.get ptr = some g)
    (count : ∀ r, reply = some r → r.type = MsgType.rwalk.code → r.nwqid.toNat = wqids.length) :
    Walked s s' tc reply wqids places where
  fresh apart absent := by
    rw [ends.absent _ (fresh apart absent)]
    exact iff_of_false (by simp) unreached
  reached apart absent newfid named := by
    rw [ends.absent _ (fresh apart absent)] at named
    cases named
  source ptr f held _ := by
    obtain ⟨rfl, req, named, live⟩ := source ptr f held
    exact ends.source _ f held.2.2 req named live
  used := used
  count := count

theorem Finished.count (ends : Finished t s' fid tc.tag rc reply) {n : Nat}
    (counts : ∀ fc, rc = some fc → fc.type = MsgType.rwalk.code ∧ fc.nwqid.toNat = n)
    {r : Npfcall} (replied : reply = some r) (type : r.type = MsgType.rwalk.code) :
    r.nwqid.toNat = n := by
  by_cases clear : t.error = none
  · rw [ends.sent clear] at replied
    obtain ⟨fc, given, rfl⟩ := Option.map_eq_some_iff.mp replied
    exact (counts fc given).2
  · obtain ⟨r', replied', failed⟩ := ends.failed clear
    obtain rfl := Option.some.inj (replied.symm.trans replied')
    exact absurd type failed.ne_rwalk

theorem Finished.not_reaches_of_short (ends : Finished t s' fid tc.tag rc reply) {n : Nat}
    (counts : ∀ fc, rc = some fc → fc.type = MsgType.rwalk.code ∧ fc.nwqid.toNat = n)
    (short : n ≠ tc.nwname.toNat) : ¬ tc.Reaches reply := by
  rintro ⟨r, replied, type, all⟩
  exact short ((ends.count counts replied type).symm.trans (congrArg UInt16.toNat all))

theorem walkLaw_unknown (typed : tc.type = MsgType.twalk.code) (absent : s.pool tc.fid = none) :
    WalkLaw npErrnoToLinux env s tc := by
  rw [walkLaw_iff_walked typed (run_npWalk_unknown absent)]
  generalize ended : (finish npErrnoToLinux tc none none).run (exec env) _ = answered
  have ends : Finished { s with reqFid := none, error := some (.of Eunknownfid EIO) } answered.2
      s.fids.next tc.tag none answered.1 := by
    rw [← ended]
    exact finished_none fun _ held => absurd held (Option.some_ne_none _).symm
  refine walked_of_not_reaches ends ends.not_reaches ?_ (fun _ => id) ?_ ?_
  · intro ptr f held
    rw [Session.Holds, absent] at held
    cases held.1
  · intro _ ptr g held
    have old := (Cells.lt_of_get held.2.1).ne
    exact ⟨ends.failed (Option.some_ne_none _), ends.named _ _ old held.1,
      (ends.cells _ old).trans held.2.1⟩
  · exact fun r replied type => absurd type (ends.failed_of_none replied).ne_rwalk

theorem walkLaw_refused (typed : tc.type = MsgType.twalk.code) (named : s.pool tc.fid = some fid)
    (refused : ∀ f, s.fids.get fid = some f → f.omode ≠ Onotopen ∨ MAXWELEM < tc.nwname.toNat) :
    WalkLaw npErrnoToLinux env s tc := by
  obtain ⟨error, fault, run⟩ := @run_npWalk_refused _ _ env { s with reqFid := none, error := none }
    tc fid named refused
  rw [walkLaw_iff_walked typed run]
  generalize left : ({ (Session.modify { s with reqFid := none, error := none } fid
    (.addRef 1)) with
    reqFid := some fid, error := some error, fault } : Session Aux World) = t
  generalize ended : (finish npErrnoToLinux tc none none).run (exec env) _ = answered
  have ends : Finished t answered.2 fid tc.tag none answered.1 := by
    rw [← ended]
    apply finished_none
    rw [← left]
    exact fun _ held => (Option.some.inj held).symm
  have cell (ptr : FidPtr) : t.fids.get ptr = if ptr = fid then (s.fids.get fid).map (.addRef 1)
      else s.fids.get ptr := by
    rw [← left]
    exact Cells.get_modify
  have failed := ends.failed (by rw [← left]; exact Option.some_ne_none _)
  refine walked_of_not_reaches ends ends.not_reaches ?_ ?_ ?_ ?_
  · intro ptr f held
    obtain rfl := Option.some.inj (held.1.symm.trans named)
    refine ⟨rfl, by rw [← left], by rw [← left]; exact named, ?_⟩
    rw [cell, if_pos rfl, held.2.1]
    rfl
  · intro _ absent
    rw [← left]
    exact absent
  · intro _ ptr g held
    have held' : t.pool tc.newfid = some ptr := by
      rw [← left]
      exact held.1
    by_cases same : ptr = fid
    · subst same
      have ⟨r, replied, _⟩ := failed
      have kept := ends.source tc.newfid g held.2.2 (by rw [← left]) held'
        (by rw [cell, if_pos rfl, held.2.1]; rfl)
      rw [replied] at kept
      exact ⟨failed, by simpa using kept⟩
    · exact ⟨failed, ends.named _ _ same held',
        (ends.cells _ same).trans (by rw [cell, if_neg same, held.2.1])⟩
  · exact fun r replied type => absurd type (ends.failed_of_none replied).ne_rwalk

theorem get_found (s : Session Aux World) (fid ptr : FidPtr) :
    (s.found fid).fids.get ptr =
      if ptr = fid then (s.fids.get fid).map (.addRef 1) else s.fids.get ptr := Cells.get_modify

variable (typed : tc.type = MsgType.twalk.code) (named : s.pool tc.fid = some fid)
  (live : s.fids.get fid = some f) (unopened : f.omode = Onotopen)
  (few : tc.nwname.toNat ≤ MAXWELEM)

include typed named live unopened few

/-- The new fid is in use. -/
theorem walkLaw_used (apart : tc.fid ≠ tc.newfid) {newfid : FidPtr}
    (used : s.pool tc.newfid = some newfid) :
    WalkLaw npErrnoToLinux env s tc ↔ ¬ WalkBreaks env s tc fid f := by
  set refused : Session Aux World := { s.found fid with error := some (.of Einuse EIO) } with refuse
  have run : (npWalk tc).run (exec env) { s with reqFid := none, error := none } =
      (none, ((npFidDecref (some newfid)).run (exec env) refused).2) :=
    run_npWalk_used named live unopened few apart used
  rw [walkLaw_iff_walked typed run]
  have confined := (within_npFidDecref newfid).run env refused
  have cells : ∀ ptr, refused.fids.get ptr = if ptr = fid then (s.fids.get fid).map (.addRef 1)
      else s.fids.get ptr := get_found s fid
  generalize left : ((npFidDecref (some newfid)).run (exec env) refused).2 = t at confined
  generalize ended : (finish npErrnoToLinux tc none none).run (exec env) t = answered
  have ends : Finished t answered.2 fid tc.tag none answered.1 := by
    rw [← ended]
    refine finished_none fun ptr held => ?_
    rw [confined.reqFid] at held
    exact (Option.some.inj held).symm
  constructor
  · rintro walked (⟨_, held⟩ | ⟨_, absent⟩ | ⟨_, absent⟩ | ⟨same⟩)
    · rename_i ptr g
      obtain rfl := Option.some.inj (held.1.symm.trans used)
      obtain ⟨⟨r, replied, -⟩, -, kept⟩ := walked.used apart ptr g held
      by_cases aliased : ptr = fid
      · subst aliased
        obtain rfl := Option.some.inj (held.2.1.symm.trans live)
        have counted : refused.fids.get ptr = some (g.addRef 1) := by
          rw [cells, if_pos rfl, live]
          rfl
        have dropped := @get_npFidDecref _ _ env _ _ _ counted
        rw [left, drop_addRef held.2.2] at dropped
        rw [ends.dropped g confined.reqFid (by simp [replied]) dropped] at kept
        exact g.drop_ne kept
      · have other : refused.fids.get ptr = some g := by rw [cells, if_neg aliased, held.2.1]
        rw [ends.cells ptr aliased, ← left, get_npFidDecref other] at kept
        exact g.drop_ne kept
    · rw [used] at absent
      cases absent
    · rw [used] at absent
      cases absent
    · exact absurd same apart
  · intro unbroken
    have unheld (g : Npfid Aux) : ¬ s.Holds tc.newfid newfid g := fun held =>
      unbroken (.used apart held)
    refine walked_of_not_reaches ends ends.not_reaches ?_ ?_ ?_ ?_
    · intro ptr g held
      obtain rfl := Option.some.inj (held.1.symm.trans named)
      have other : ptr ≠ newfid := by
        rintro rfl
        exact unheld g ⟨used, held.2⟩
      refine ⟨rfl, confined.reqFid, confined.pool_some named other, ?_⟩
      rw [confined.cells ptr other, cells, if_pos rfl, held.2.1]
      rfl
    · intro _ absent
      rw [used] at absent
      cases absent
    · intro _ ptr g held
      obtain rfl := Option.some.inj (held.1.symm.trans used)
      exact absurd held (unheld g)
    · exact fun r replied type => absurd type (ends.failed_of_none replied).ne_rwalk

omit typed named live few unopened in
theorem pool_created (s : Session Aux World) (fid : FidPtr) (n : UInt32) :
    ((s.found fid).created n).pool n = some s.fids.next := by
  simp [Session.created, Session.found, Session.modify]

omit typed few unopened in
/-- A new fid that is worked on alone. -/
theorem source_of_confined (apart : tc.fid ≠ tc.newfid)
    (confined : ((s.found fid).created tc.newfid).Confined s.fids.next t) {ptr : FidPtr}
    {g : Npfid Aux} (held : s.Holds tc.fid ptr g) : ptr = fid ∧ t.reqFid = some fid ∧
      t.pool tc.fid = some fid ∧ t.fids.get fid = some (g.addRef 1) := by
  obtain rfl := Option.some.inj (held.1.symm.trans named)
  obtain rfl := Option.some.inj (held.2.1.symm.trans live)
  have old := (Cells.lt_of_get live).ne
  refine ⟨rfl, confined.reqFid, confined.pool_some ?_ old, (confined.cells _ old).trans ?_⟩
  · exact (Function.update_of_ne apart ..).trans named
  · exact get_created live tc.newfid

omit typed few unopened in
/-- A walk of a new fid that does not reach its end is as it should be when the new fid is gone. -/
theorem walked_iff_of_unreached (apart : tc.fid ≠ tc.newfid) (absent : s.pool tc.newfid = none)
    (confined : ((s.found fid).created tc.newfid).Confined s.fids.next t)
    (ends : Finished t s' fid tc.tag rc reply) (unreached : ¬ tc.Reaches reply)
    (count : ∀ r, reply = some r → r.type = MsgType.rwalk.code → r.nwqid.toNat = wqids.length) :
    Walked s s' tc reply wqids places ↔ t.pool tc.newfid = none := by
  constructor
  · intro walked
    have new := pool_created s fid tc.newfid
    rcases confined.pool tc.newfid with same | ⟨-, gone⟩
    · have stays := ends.named _ _ (Cells.lt_of_get live).ne' (same.trans new)
      exact absurd ((walked.fresh apart absent).mp (by rw [stays]; rfl)) unreached
    · exact gone
  · intro gone
    refine walked_of_not_reaches ends unreached
      (fun ptr g held => source_of_confined named live apart confined held)
        (fun _ _ => gone) ?_ count
    intro _ ptr g held
    rw [Session.Holds, absent] at held
    cases held.1

/-- The new fid is not in use, and the file server refuses to clone. -/
theorem walkLaw_uncloned (apart : tc.fid ≠ tc.newfid) (absent : s.pool tc.newfid = none)
    (refused : (env.answer (.clone fid s.fids.next)
      ((s.found fid).created tc.newfid).fids.get s.world).reply = false) :
    WalkLaw npErrnoToLinux env s tc ↔ ¬ WalkBreaks env s tc fid f := by
  have run := @run_npWalk_new _ _ env _ _ _ _ named live unopened few apart absent
  rw [if_neg (Bool.eq_false_iff.mp refused)] at run
  rw [walkLaw_iff_walked typed run]
  have next : (s.found fid).fids.next = s.fids.next := by simp [Session.found, Session.modify]
  have untaken : WalkBreaks env s tc fid f ↔ (env.answer (.clone fid s.fids.next)
      ((s.found fid).created tc.newfid).fids.get s.world).takesRef = false := by
    constructor
    · rintro (⟨_, held⟩ | ⟨_, _, _, untaken⟩ | ⟨_, _, cloned⟩ | ⟨same⟩)
      · rw [Session.Holds, absent] at held
        cases held.1
      · exact untaken
      · rw [refused] at cloned
        cases cloned
      · exact absurd same apart
    · exact .uncloned apart absent refused
  rw [untaken]
  generalize env.answer (.clone fid s.fids.next)
    ((s.found fid).created tc.newfid).fids.get s.world =
    outcome
  have new := get_afterClone (s.found fid) tc.newfid outcome
  rw [next] at new
  have asked : ((s.found fid).created tc.newfid).Confined s.fids.next _ :=
    confined_afterCall outcome fun _ same => (Option.some.inj same).symm
  have pool : (((s.found fid).created tc.newfid).afterCall (some s.fids.next) outcome).pool
      tc.newfid = some s.fids.next := pool_created s fid tc.newfid
  have confined := asked.trans ((within_npFidDecref s.fids.next).run env _)
  have gone : ((npFidDecref (some s.fids.next)).run (exec env) _).2.pool tc.newfid = none ↔
      (if outcome.takesRef then (1 : Int) else 0) = 1 := @pool_npFidDecref _ _ env _ _ _ new pool
  generalize ((npFidDecref (some s.fids.next)).run (exec env) _).2 = t at confined gone ⊢
  generalize ended : (finish npErrnoToLinux tc none none).run (exec env) t = answered
  have ends : Finished t answered.2 fid tc.tag none answered.1 := by
    rw [← ended]
    refine finished_none fun ptr held => ?_
    rw [confined.reqFid] at held
    exact (Option.some.inj held).symm
  rw [walked_iff_of_unreached named live apart absent confined ends ends.not_reaches
    fun r replied type => absurd type (ends.failed_of_none replied).ne_rwalk, gone]
  cases outcome.takesRef <;> simp

omit typed named live unopened few in
/-- Where the file server has left a new fid that it has cloned and walked. -/
theorem get_stopped {stopped : Session Aux World} (walk : env.walk tc s.fids.next
      (((s.found fid).created tc.newfid).cloned env fid s.fids.next f) = (wqids, stopped)) :
    ((s.found fid).created tc.newfid).Confined s.fids.next stopped ∧
      stopped.pool tc.newfid = some s.fids.next ∧
      ∃ refcount ≥ 1, stopped.fids.get s.fids.next = some { (Npfid.new tc.newfid : Npfid Aux) with
        refcount
        user := f.user
        type := (wqids.getLast?.map (·.type.toUInt16)).getD f.type
        aux := (seen (leftAux env s.fids.next) env (npWalkNames s.fids.next tc.names)
          ((((s.found fid).created tc.newfid).cloned env fid s.fids.next f).modify s.fids.next
            (.addRef 1))).getLast?.getD (env.answer (.clone fid s.fids.next)
              ((s.found fid).created tc.newfid).fids.get s.world).aux } := by
  have next : (s.found fid).fids.next = s.fids.next := by simp [Session.found, Session.modify]
  obtain ⟨refcount, least, new⟩ := @get_cloned _ _ fid env (s.found fid) tc.newfid f
  rw [next] at new
  obtain ⟨refcount', more, reached⟩ := get_walk new walk
  have pool := pool_walkNames env ((((s.found fid).created tc.newfid).cloned env fid s.fids.next
    f).modify s.fids.next (.addRef 1)) s.fids.next tc.names
  rw [← Env.walk, walk] at pool
  refine ⟨(confined_cloned env _ fid s.fids.next f).trans (confined_walk new walk), ?_, refcount',
    ?_, reached⟩
  · rw [pool]
    exact (congrFun (pool_cloned env _ fid s.fids.next f) _).trans (pool_created s fid tc.newfid)
  · simp only at more
    omega

omit typed in
theorem seen_npWalk_cloned {γ : Type} {observe : Op × Session Aux World → Option γ}
    (hides : ∀ op s, op.Unwalked env → observe (op, s) = none)
    (quiet : ∀ op s, (∀ callback, op ≠ .call callback) → observe (op, s) = none)
    (apart : tc.fid ≠ tc.newfid) (absent : s.pool tc.newfid = none)
    (cloned : (env.answer (.clone fid s.fids.next)
      ((s.found fid).created tc.newfid).fids.get s.world).reply = true) :
    seen observe env (npWalk tc) { s with reqFid := none, error := none } =
      (observe (.call (.clone fid s.fids.next), (s.found fid).created tc.newfid)).toList ++
        seen observe env (npWalkNames s.fids.next tc.names)
          ((((s.found fid).created tc.newfid).cloned env fid s.fids.next f).modify s.fids.next
            (.addRef 1)) := by
  rw [seen_npWalk_new quiet named live unopened few apart absent,
    seen_npWalkClone quiet (get_created live tc.newfid) (Cells.lt_of_get live).ne cloned,
    seen_npWalkFrom hides]

omit typed named live unopened few in
theorem seen_walk {g : Npfid Aux} {stopped : Session Aux World} (live : s.fids.get fid = some g)
    (walk : env.walk tc fid s = (wqids, stopped)) :
    seen (walkedQid env) env (npWalkNames fid tc.names) (s.modify fid (.addRef 1)) = wqids := by
  have counted : (s.modify fid (.addRef 1)).fids.get fid = some (g.addRef 1) := by
    simp [Session.modify, live]
  rw [seen_npWalkNames counted, ← Env.walk, walk]

/-- The new fid is not in use, and the file server clones it and walks it to its end. -/
theorem walkLaw_full (apart : tc.fid ≠ tc.newfid) (absent : s.pool tc.newfid = none)
    (cloned : (env.answer (.clone fid s.fids.next)
      ((s.found fid).created tc.newfid).fids.get s.world).reply = true)
        {stopped : Session Aux World}
    (walk : env.walk tc s.fids.next
      (((s.found fid).created tc.newfid).cloned env fid s.fids.next f) = (wqids, stopped))
    (full : wqids.length = tc.nwname.toNat) : WalkLaw npErrnoToLinux env s tc := by
  have run := @run_npWalk_new _ _ env _ _ _ _ named live unopened few apart absent
  rw [if_pos cloned] at run
  have next : (s.found fid).fids.next = s.fids.next := by simp [Session.found, Session.modify]
  obtain ⟨refcount₀, -, new⟩ := @get_cloned _ _ fid env (s.found fid) tc.newfid f
  rw [next] at new
  obtain ⟨rc, world, type, count, answered⟩ := npWalkFrom_full new few walk full
  rw [answered, if_pos apart] at run
  have shown : seen (walkedQid env) env (npWalk tc) { s with reqFid := none, error := none } =
      wqids := (seen_npWalk_cloned named live unopened few (fun _ s unwalked => (unwalked s).1)
    walkedQid_quiet apart absent cloned).trans (seen_walk new walk)
  have places := seen_npWalk_cloned named live unopened few
    (fun _ s' unwalked => (unwalked s').2 s.fids.next) (leftAux_quiet s.fids.next)
      apart absent cloned
  rw [walkLaw_iff_walked typed run, shown]
  obtain ⟨reached, pool, refcount, least, stays⟩ := get_stopped walk
  set counted : Session Aux World := { stopped.modify s.fids.next (.addRef 1) with
    error := none, world } with counting
  have settled : stopped.Confined s.fids.next counted :=
    (confined_modify _).trans (.of_fids rfl rfl rfl)
  have confined := (reached.trans settled).trans ((within_npFidDecref s.fids.next).run env counted)
  generalize place : ({ (Npfid.new tc.newfid : Npfid Aux) with
    refcount, user := f.user, type := _, aux := _ } : Npfid Aux) = g at stays
  have least' : 0 < g.refcount := by
    rw [← place]
    exact least
  have live' : counted.fids.get s.fids.next = some (g.addRef 1) := by
    simp [counting, Session.modify, stays]
  have more : (g.addRef 1).refcount ≠ 1 := by
    simp only [Npfid.addRef]
    omega
  have run' := @run_npFidDecref_more _ _ env _ _ _ live' more
  have kept : (counted.modify s.fids.next (.addRef (-1))).fids.get s.fids.next = some g := by
    simp [Session.modify, live', addRef_addRef]
  have pool' : (counted.modify s.fids.next (.addRef (-1))).pool tc.newfid = some s.fids.next := pool
  have clear : (counted.modify s.fids.next (.addRef (-1))).error = none := rfl
  rw [run'] at confined ⊢
  generalize counted.modify s.fids.next (.addRef (-1)) = t at confined kept pool' clear ⊢
  generalize ended : (finish npErrnoToLinux tc none (some rc)).run (exec env) t = final
  have ends : Finished t final.2 fid tc.tag (some rc) final.1 :=
    ended ▸ finished_rwalk (counts_some type count) confined.reqFid
  have old := (Cells.lt_of_get live).ne
  have replied : final.1 = some (npSetTag rc tc.tag) := ends.sent clear
  have reaches : tc.Reaches final.1 :=
    ⟨_, replied, type, UInt16.toNat_inj.mp (count.trans full)⟩
  have established := ends.named _ _ old.symm pool'
  refine ⟨fun _ _ => iff_of_true (by rw [established]; rfl) reaches, ?_, ?_, ?_, ?_⟩
  · intro _ _ newfid named'
    obtain rfl := Option.some.inj (established.symm.trans named')
    refine ⟨fid, f, g, named, live, (ends.cells _ old.symm).trans kept, ?_, ?_, ?_⟩
    · rw [places, ← place]
      simp only [leftAux, if_true, Option.toList_some, List.singleton_append, List.getLast?_cons]
      rfl
    · rw [← place]
    · rw [← place]
  · intro ptr g held _
    obtain ⟨rfl, req, named', live'⟩ := source_of_confined named live apart confined held
    exact ends.source _ g held.2.2 req named' live'
  · intro _ ptr g held
    rw [Session.Holds, absent] at held
    cases held.1
  · intro r replied' _
    obtain rfl := Option.some.inj (replied.symm.trans replied')
    exact count

/-- The new fid is not in use, and the file server clones it, but does not walk it to its end. -/
theorem walkLaw_short (apart : tc.fid ≠ tc.newfid) (absent : s.pool tc.newfid = none)
    (cloned : (env.answer (.clone fid s.fids.next)
      ((s.found fid).created tc.newfid).fids.get s.world).reply = true)
        {stopped : Session Aux World}
    (walk : env.walk tc s.fids.next
      (((s.found fid).created tc.newfid).cloned env fid s.fids.next f) = (wqids, stopped))
    (short : wqids.length ≠ tc.nwname.toNat) :
    WalkLaw npErrnoToLinux env s tc ↔ ¬ WalkBreaks env s tc fid f := by
  have run := @run_npWalk_new _ _ env _ _ _ _ named live unopened few apart absent
  rw [if_pos cloned] at run
  have next : (s.found fid).fids.next = s.fids.next := by simp [Session.found, Session.modify]
  obtain ⟨refcount₀, -, new⟩ := @get_cloned _ _ fid env (s.found fid) tc.newfid f
  rw [next] at new
  obtain ⟨rc, error, world, counts, answered⟩ := npWalkFrom_short new few walk short
  rw [answered] at run
  have shown : seen (walkedQid env) env (npWalk tc) { s with reqFid := none, error := none } =
      wqids := (seen_npWalk_cloned named live unopened few (fun _ s unwalked => (unwalked s).1)
    walkedQid_quiet apart absent cloned).trans (seen_walk new walk)
  rw [walkLaw_iff_walked typed run, shown]
  obtain ⟨reached, pool, refcount, -, stays⟩ := get_stopped walk
  have settled : stopped.Confined s.fids.next { stopped with error, world } := .of_fids rfl rfl rfl
  have confined := (reached.trans settled).trans ((within_npFidDecref s.fids.next).run env _)
  have gone : ((npFidDecref (some s.fids.next)).run (exec env)
      { stopped with error, world }).2.pool tc.newfid = none ↔ refcount = 1 :=
    @pool_npFidDecref _ _ env { stopped with error, world } _ _ stays pool
  generalize ((npFidDecref (some s.fids.next)).run (exec env) _).2 = t at confined gone ⊢
  generalize ended : (finish npErrnoToLinux tc none rc).run (exec env) t = final
  have ends : Finished t final.2 fid tc.tag rc final.1 :=
    ended ▸ finished_rwalk counts confined.reqFid
  rw [walked_iff_of_unreached named live apart absent confined ends
    (ends.not_reaches_of_short counts short) fun _ replied type =>
    ends.count counts replied type, gone]
  constructor
  · rintro last (⟨_, held⟩ | ⟨_, _, refused⟩ | ⟨_, _, _, walk', _, live', more⟩ | ⟨same⟩)
    · rw [Session.Holds, absent] at held
      cases held.1
    · rw [cloned] at refused
      cases refused
    · obtain ⟨rfl, rfl⟩ := Prod.mk.inj (walk.symm.trans walk')
      obtain rfl := Option.some.inj (stays.symm.trans live')
      exact more last
    · exact absurd same apart
  · intro unbroken
    by_contra more
    exact unbroken (.taken apart absent cloned walk short stays more)

omit typed named unopened few in
theorem get_found_fid : (s.found fid).fids.get fid = some (f.addRef 1) := by
  rw [get_found, if_pos rfl, live]
  rfl

/-- The fid itself is walked to its end. -/
theorem walkLaw_there (same : tc.fid = tc.newfid) {stopped : Session Aux World}
    (walk : env.walk tc fid (s.found fid) = (wqids, stopped))
    (full : wqids.length = tc.nwname.toNat) : WalkLaw npErrnoToLinux env s tc := by
  have run := @run_npWalk_same _ _ env _ _ _ _ named live unopened few same
  have here := get_found_fid live
  have shown : seen (walkedQid env) env (npWalk tc) { s with reqFid := none, error := none } =
      wqids := by
    rw [seen_npWalk_same walkedQid_quiet named live unopened few same,
      seen_npWalkFrom fun _ s unwalked => (unwalked s).1, seen_walk here walk]
  obtain ⟨refcount, more, stays⟩ := get_walk here walk
  obtain ⟨rc, world, type, count, answered⟩ := npWalkFrom_full here few walk full
  rw [answered, if_neg (not_not.mpr same)] at run
  rw [walkLaw_iff_walked typed run, shown]
  have reached := confined_walk here walk
  have settled : stopped.Confined fid { stopped with error := none, world } := .of_fids rfl rfl rfl
  have confined := (reached.trans settled).trans ((within_npFidDecref fid).run env _)
  have clear (held : 0 < f.refcount) : ((npFidDecref (some fid)).run (exec env)
      { stopped with error := none, world }).2.error = none := by
    rw [@run_npFidDecref_more _ _ env { stopped with error := none, world } _ _ stays
      (by simp only [Npfid.addRef] at more ⊢; omega)]
    rfl
  generalize ((npFidDecref (some fid)).run (exec env) _).2 = t at confined clear ⊢
  generalize ended : (finish npErrnoToLinux tc none (some rc)).run (exec env) t = final
  have ends : Finished t final.2 fid tc.tag (some rc) final.1 :=
    ended ▸ finished_rwalk (counts_some type count) confined.reqFid
  refine ⟨fun apart => absurd same apart, fun apart => absurd same apart, ?_,
    fun apart => absurd same apart, fun r => ends.count (counts_some type count)⟩
  intro ptr g held unreached
  obtain rfl := Option.some.inj (held.1.symm.trans named)
  obtain rfl := Option.some.inj (held.2.1.symm.trans live)
  have replied := ends.sent (clear held.2.2)
  exact absurd ⟨_, replied, type, UInt16.toNat_inj.mp (count.trans full)⟩ (unreached same)

/-- The fid itself is walked, but not to its end. -/
theorem walkLaw_astray (same : tc.fid = tc.newfid) {stopped : Session Aux World}
    (walk : env.walk tc fid (s.found fid) = (wqids, stopped))
    (short : wqids.length ≠ tc.nwname.toNat) :
    WalkLaw npErrnoToLinux env s tc ↔ ¬ WalkBreaks env s tc fid f := by
  have run := @run_npWalk_same _ _ env _ _ _ _ named live unopened few same
  have here := get_found_fid live
  have shown : seen (walkedQid env) env (npWalk tc) { s with reqFid := none, error := none } =
      wqids := by
    rw [seen_npWalk_same walkedQid_quiet named live unopened few same,
      seen_npWalkFrom fun _ s unwalked => (unwalked s).1, seen_walk here walk]
  obtain ⟨refcount, more, stays⟩ := get_walk here walk
  obtain ⟨rc, error, world, counts, answered⟩ := npWalkFrom_short here few walk short
  rw [answered] at run
  rw [walkLaw_iff_walked typed run, shown]
  have reached := confined_walk here walk
  have pool : stopped.pool = s.pool := by
    have walked := pool_walkNames env ((s.found fid).modify fid (.addRef 1)) fid tc.names
    rwa [← Env.walk, walk] at walked
  generalize place : ({ f.addRef 1 with refcount, aux := _, type := _ } : Npfid Aux) = g at stays
  have more' : f.refcount + 2 ≤ g.refcount := by
    rw [← place]
    simp only [Npfid.addRef] at more ⊢
    omega
  have settled : stopped.Confined fid { stopped with error, world } := .of_fids rfl rfl rfl
  have confined := (reached.trans settled).trans ((within_npFidDecref fid).run env _)
  have left (held : 0 < f.refcount) : (npFidDecref (some fid)).run (exec env)
      { stopped with error, world } = ((), Session.modify { stopped with error, world } fid
        (.addRef (-1))) :=
    @run_npFidDecref_more _ _ env { stopped with error, world } _ _ stays (by omega)
  have live' (held : 0 < f.refcount) : ((npFidDecref (some fid)).run (exec env)
      { stopped with error, world }).2.fids.get fid = some (g.addRef (-1)) := by
    rw [left held]
    simp [Session.modify, stays]
  have named' (held : 0 < f.refcount) : ((npFidDecref (some fid)).run (exec env)
      { stopped with error, world }).2.pool tc.fid = some fid := by
    rw [left held]
    exact (congrFun pool _).trans named
  clear left
  generalize ((npFidDecref (some fid)).run (exec env) _).2 = t at confined live' named' ⊢
  generalize ended : (finish npErrnoToLinux tc none rc).run (exec env) t = final
  have ends : Finished t final.2 fid tc.tag rc final.1 :=
    ended ▸ finished_rwalk counts confined.reqFid
  have unreached := ends.not_reaches_of_short counts short
  constructor
  · rintro walked (⟨apart⟩ | ⟨apart⟩ | ⟨apart⟩ | ⟨_, held, walk', _, elsewhere⟩)
    · exact apart same
    · exact apart same
    · exact apart same
    · obtain ⟨rfl, rfl⟩ := Prod.mk.inj (walk.symm.trans walk')
      apply elsewhere
      obtain ⟨-, kept⟩ := walked.source fid f ⟨named, live, held⟩ fun _ => unreached
      rw [stays]
      by_cases replied : final.1 = none
      · rw [ends.unanswered replied, live' held, if_pos replied] at kept
        exact congrArg some (eq_addRef (Option.some.inj kept))
      · have last : (g.addRef (-1)).refcount ≠ 1 := by
          simp only [Npfid.addRef]
          omega
        rw [ends.dropped _ confined.reqFid replied (live' held), if_neg replied, Npfid.drop,
          if_neg last] at kept
        exact congrArg some ((eq_addRef (eq_addRef (Option.some.inj kept))).trans (by simp))
  · intro unbroken
    refine walked_of_not_reaches ends unreached ?_ (fun apart => absurd same apart)
      (fun apart => absurd same apart) fun _ => ends.count counts
    intro ptr h held
    obtain rfl := Option.some.inj (held.1.symm.trans named)
    obtain rfl := Option.some.inj (held.2.1.symm.trans live)
    refine ⟨rfl, confined.reqFid, named' held.2.2, ?_⟩
    rw [live' held.2.2]
    by_cases unmoved : g = h.addRef 2
    · rw [unmoved, addRef_addRef]
      rfl
    · refine absurd (.moved same held.2.2 walk short fun there => unmoved ?_) unbroken
      exact Option.some.inj (stays.symm.trans there)

/-- A `Twalk` that passes the tests of `np_walk`. -/
theorem walkLaw_passed : WalkLaw npErrnoToLinux env s tc ↔ ¬ WalkBreaks env s tc fid f := by
  by_cases same : tc.fid = tc.newfid
  · rcases walk : env.walk tc fid (s.found fid) with ⟨wqids, stopped⟩
    by_cases full : wqids.length = tc.nwname.toNat
    · refine iff_of_true (walkLaw_there typed named live unopened few same walk full) ?_
      rintro (⟨apart⟩ | ⟨apart⟩ | ⟨apart⟩ | ⟨_, _, walk', short⟩)
      · exact apart same
      · exact apart same
      · exact apart same
      · obtain ⟨rfl, -⟩ := Prod.mk.inj (walk.symm.trans walk')
        exact short full
    · exact walkLaw_astray typed named live unopened few same walk full
  · cases used : s.pool tc.newfid with
    | some newfid => exact walkLaw_used typed named live unopened few same used
    | none =>
        cases cloned : (env.answer (.clone fid s.fids.next)
          ((s.found fid).created tc.newfid).fids.get s.world).reply with
        | false => exact walkLaw_uncloned typed named live unopened few same used cloned
        | true =>
            rcases walk : env.walk tc s.fids.next
              (((s.found fid).created tc.newfid).cloned env fid s.fids.next f) with ⟨wqids, stopped⟩
            by_cases full : wqids.length = tc.nwname.toNat
            · refine iff_of_true
                (walkLaw_full typed named live unopened few same used cloned walk full) ?_
              rintro (⟨_, held⟩ | ⟨_, _, refused⟩ | ⟨_, _, _, walk', short⟩ | ⟨here⟩)
              · rw [Session.Holds, used] at held
                cases held.1
              · rw [cloned] at refused
                cases refused
              · obtain ⟨rfl, -⟩ := Prod.mk.inj (walk.symm.trans walk')
                exact short full
              · exact same here
            · exact walkLaw_short typed named live unopened few same used cloned walk full

end Law

/-- A walk does what it should, unless one of these things goes wrong. -/
theorem walkLaw_iff (npErrnoToLinux : UInt32 → UInt32) (env : Env Aux World) (s : Session Aux World)
    (tc : Npfcall) : WalkLaw npErrnoToLinux env s tc ↔ ¬ WalkGoesWrong env s tc := by
  by_cases typed : tc.type = MsgType.twalk.code
  · cases named : s.pool tc.fid with
    | none =>
        refine iff_of_true (walkLaw_unknown typed named) ?_
        rintro ⟨-, fid, f, found, -⟩
        rw [named] at found
        cases found
    | some fid =>
        by_cases passes : ∃ f, s.fids.get fid = some f ∧ f.omode = Onotopen ∧
            tc.nwname.toNat ≤ MAXWELEM
        · obtain ⟨f, live, unopened, few⟩ := passes
          rw [walkLaw_passed typed named live unopened few, not_iff_not]
          constructor
          · exact fun breaks => ⟨typed, fid, f, named, live, unopened, few, breaks⟩
          · rintro ⟨-, fid', f', named', live', -, -, breaks⟩
            obtain rfl := Option.some.inj (named.symm.trans named')
            obtain rfl := Option.some.inj (live.symm.trans live')
            exact breaks
        · refine iff_of_true (walkLaw_refused typed named fun f live => ?_) ?_
          · by_contra passed
            rw [not_or, not_not, not_lt] at passed
            exact passes ⟨f, live, passed⟩
          · rintro ⟨-, fid', f', named', live', unopened, few, -⟩
            obtain rfl := Option.some.inj (named.symm.trans named')
            exact passes ⟨f', live', unopened, few⟩
  · exact iff_of_true (fun twalk => absurd twalk typed) fun wrong => typed wrong.1

/-- A connection with the fids 0 and 1. -/
def Session.pair : Session Unit Unit :=
  let fid (n : UInt32) : Npfid Unit := { Npfid.new n with refcount := 1, user := some 0 }
  { Session.single 8216 (fid 0) with
    fids := (Cells.empty.push (fid 0)).push (fid 1)
    pool := fun n => if n = 0 then some 0 else if n = 1 then some 1 else none }

/-- A `Twalk` from fid 0 to fid 1, which is in use, destroys fid 1. -/
theorem not_walkLaw_all : ¬ ∀ (npErrnoToLinux : UInt32 → UInt32) (env : Env Unit Unit)
    (s : Session Unit Unit) (tc : Npfcall), WalkLaw npErrnoToLinux env s tc := by
  intro all
  have law := all id Env.silent .pair
    { (default : Npfcall) with type := MsgType.twalk.code, fid := 0, newfid := 1, nwname := 0 }
  have apart : (0 : UInt32) ≠ 1 := by decide
  have held : Session.pair.Holds 1 1 { Npfid.new 1 with refcount := 1, user := some 0 } :=
    ⟨rfl, rfl, by decide⟩
  exact (walkLaw_used rfl rfl rfl rfl (Nat.zero_le _) apart rfl).mp law (.used apart held)

end Npfs
