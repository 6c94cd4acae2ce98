import Npfs.HostReads

/-!
# Invariants of the fids

What holds of the `Fid` of every fid is kept by all that stores no other `Fid`.
-/

namespace Npfs

namespace Ufs

open Program

section Fids

variable {u : Ufssrv} {s s' : State} {p : FidPtr} {f : Fid} {P : FidPtr → Fid → Prop}

theorem auxOf_modify (change : Npfid Fid → Npfid Fid) (q : FidPtr) :
    auxOf (s.modify p change) q =
      if q = p then (s.fids.get p).bind fun f => (change f).aux else auxOf s q := by
  rw [auxOf, Session.modify, Cells.get_modify]
  split_ifs with same
  · cases s.fids.get p <;> rfl
  · rfl

theorem auxOf_kept {change : Npfid Fid → Npfid Fid} (kept : ∀ f, (change f).aux = f.aux)
    (q : FidPtr) : auxOf (s.modify p change) q = auxOf s q := by
  rw [auxOf_modify]
  split_ifs with same
  · subst same
    simp only [kept]
    rfl
  · rfl

theorem auxOf_set {aux : Fid} {q : FidPtr}
    (found : auxOf (s.modify p fun f => { f with aux := some aux }) q = some f) :
    q = p ∧ f = aux ∨ q ≠ p ∧ auxOf s q = some f := by
  rw [auxOf_modify] at found
  split_ifs at found with same
  · obtain ⟨g, -, stored⟩ := Option.bind_eq_some_iff.mp found
    exact .inl ⟨same, (Option.some.inj stored).symm⟩
  · exact .inr ⟨same, found⟩

theorem auxOf_load {β : Type} {field : Npfid Fid → β} {junk : β} (q : FidPtr) :
    auxOf (s.load p field junk).2 q = auxOf s q := by
  unfold Session.load
  split <;> rfl

/-- The operations of `libnpfs` on their own set no `aux`. -/
theorem auxOf_env (op : Npfs.Op) (q : FidPtr)
    (found : auxOf (Npfs.exec env op s).2 q = some f) : auxOf s q = some f := by
  cases op with
  | fidFind | werror | rerror | reqFid | setReqFid | srv | conn | crash | flush | malloc
  | userDecref => exact found
  | userIncref user => cases user <;> exact found
  | omode p | type p | diroffset p | user p => exact (auxOf_load q).symm.trans found
  | fidCreate n =>
      simp only [Npfs.exec] at found
      split at found
      · exact found
      · rw [auxOf, Cells.get_push] at found
        split_ifs at found
        · cases found
        · exact found
  | fidIncref p =>
      have kept : ∀ f : Npfid Fid, (f.addRef 1).aux = f.aux := fun _ => rfl
      exact (auxOf_kept kept q).symm.trans found
  | fidDecref p =>
      have kept : ∀ f : Npfid Fid, (f.addRef (-1)).aux = f.aux := fun _ => rfl
      exact (auxOf_kept kept q).symm.trans found
  | setOmode p omode =>
      have kept : ∀ f : Npfid Fid, ({ f with omode } : Npfid Fid).aux = f.aux := fun _ => rfl
      exact (auxOf_kept kept q).symm.trans found
  | setType p type =>
      have kept : ∀ f : Npfid Fid, ({ f with type } : Npfid Fid).aux = f.aux := fun _ => rfl
      exact (auxOf_kept kept q).symm.trans found
  | setDiroffset p diroffset =>
      have kept : ∀ f : Npfid Fid, ({ f with diroffset } : Npfid Fid).aux = f.aux := fun _ => rfl
      exact (auxOf_kept kept q).symm.trans found
  | setUser p user =>
      have kept : ∀ f : Npfid Fid, ({ f with user } : Npfid Fid).aux = f.aux := fun _ => rfl
      exact (auxOf_kept kept q).symm.trans found
  | fidUnlink p =>
      simp only [Npfs.exec] at found
      split at found
      · split_ifs at found <;> exact found
      · exact found
  | fidFree p =>
      have freed : auxOf (Npfs.exec env (.fidFree p) s).2 q =
          if q = p then none else auxOf s q := by
        change (s.fids.free p).get q >>= _ = _
        rw [Cells.get_free]
        split_ifs <;> rfl
      rw [freed] at found
      split_ifs at found
      exact found
  | connReset msize dotu dotl =>
      have cleared : auxOf (Npfs.exec env (.connReset msize dotu dotl) s).2 q = none := by
        change s.fids.clear.get q >>= _ = none
        rw [Cells.get_clear]
        rfl
      rw [cleared] at found
      cases found
  | call callback =>
      simp only [Npfs.exec, Session.afterCall] at found
      split at found
      · exact found
      · rename_i fid target
        rw [auxOf_modify] at found
        by_cases same : q = fid
        · rw [if_pos same] at found
          obtain ⟨g, -, stored⟩ := Option.bind_eq_some_iff.mp found
          cases stored
        · rw [if_neg same] at found
          exact found

theorem load_world {β : Type} {field : Npfid Fid → β} {junk : β} :
    (s.load p field junk).2.world = s.world := by
  unfold Session.load
  split <;> rfl

/-- The operations of `libnpfs` on their own leave the host as it is, or take memory from it. -/
theorem env_world (op : Npfs.Op) :
    (Npfs.exec env op s).2.world = s.world ∨ (Npfs.exec env op s).2.world = s.world.next.2 := by
  cases op with
  | malloc | flush => exact .inr rfl
  | omode | type | diroffset | user => exact .inl load_world
  | fidCreate n =>
      simp only [Npfs.exec]
      split <;> exact .inl rfl
  | userIncref user => cases user <;> exact .inl rfl
  | fidUnlink p =>
      simp only [Npfs.exec]
      split
      · split_ifs <;> exact .inl rfl
      · exact .inl rfl
  | call callback =>
      simp only [Npfs.exec, Session.afterCall]
      split <;> exact .inl rfl
  | _ => exact .inl rfl

/-- What holds of the `Fid` of every fid. -/
def Every (P : FidPtr → Fid → Prop) (s : State) : Prop := ∀ p f, auxOf s p = some f → P p f

theorem Every.of_auxOf (every : Every P s)
    (known : ∀ p f, auxOf s' p = some f → auxOf s p = some f) : Every P s' :=
  fun p f found => every p f (known p f found)

theorem Every.env (every : Every P s) (op : Npfs.Op) : Every P (Npfs.exec env op s).2 :=
  every.of_auxOf fun q _ => auxOf_env op q

theorem Every.setAux {aux : Fid} (every : Every P s) (new : P p aux) :
    Every P (s.modify p fun f => { f with aux := some aux }) := by
  intro q f found
  obtain ⟨rfl, rfl⟩ | ⟨-, found⟩ := auxOf_set found
  · exact new
  · exact every q f found

/-- What holds of every `Fid` that an operation stores. -/
def Op.Stores (P : FidPtr → Fid → Prop) (op : Op) : Prop := ∀ p f, op = .setAux p f → P p f

theorem stores_sys {call : SysCall} : Op.Stores P (.sys call) := fun p f same => by cases same

theorem stores_setAux (new : P p f) : Op.Stores P (.setAux p f) := by
  rintro _ _ ⟨⟩
  exact new

theorem every_execOp {op : Op} (every : Every P s) (stores : op.Stores P) :
    Every P (execOp u op s).2 := by
  cases op with
  | sys call => exact every
  | ufs => exact every
  | aux p => exact every.of_auxOf fun q f found => (auxOf_load q).symm.trans found
  | setAux p f => exact every.setAux (stores p f rfl)
  | np op => exact every.env op

/-- Code keeps what holds of every `Fid` that it stores. -/
theorem Every.code {α : Type} {code : Code α} (every : Every P s)
    (stores : code.Always (fun _ _ => True) (Op.Stores P) fun _ => True) :
    Every P (code.run (execOp u) s).2 :=
  (stores.run (fun _ _ _ _ => trivial) (fun _ _ every stores => every_execOp every stores) every).2.1

/-- A `Fid` that is read. -/
theorem Every.read (every : Every P s) (p : FidPtr) : ∀ f ∈ (execOp u (.aux p) s).1, P p f := by
  intro f member
  refine every p f ?_
  have member : f ∈ (s.load p (·.aux) none).1 := member
  unfold Session.load at member
  split at member
  · rename_i g found
    rw [auxOf, found]
    exact member
  · cases member

end Fids

end Ufs

end Npfs
