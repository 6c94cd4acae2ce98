import Npfs.FailedRequest

/-!
# Operations on one fid

A walk works on one fid, and giving a fid up may destroy it.  Neither touches another fid, nor what
the pool says about it.
-/

namespace Npfs

open Serve Program

variable {Aux World α : Type}

/-- The operation changes no fid but this one. -/
def Op.Within (fid : FidPtr) : Op → Prop
  | .fidIncref ptr | .fidDecref ptr | .fidUnlink ptr | .fidFree ptr | .setOmode ptr _
  | .setType ptr _ | .setDiroffset ptr _ | .setUser ptr _ => ptr = fid
  | .call callback => ∀ ptr, callback.target = some ptr → ptr = fid
  | .fidCreate _ | .setReqFid _ | .connReset .. => False
  | _ => True

/-- From one state to a later one, no fid but this one has changed, and the pool has at most
forgotten this one. -/
structure Session.Confined (fid : FidPtr) (s s' : Session Aux World) : Prop where
  next : s'.fids.next = s.fids.next
  cells : ∀ ptr ≠ fid, s'.fids.get ptr = s.fids.get ptr
  pool : ∀ n, s'.pool n = s.pool n ∨ s.pool n = some fid ∧ s'.pool n = none
  reqFid : s'.reqFid = s.reqFid

section Confined

variable {fid : FidPtr} {s s' s'' : Session Aux World}

namespace Session.Confined

theorem refl : s.Confined fid s := ⟨rfl, fun _ _ => rfl, fun _ => .inl rfl, rfl⟩

theorem of_fids (fids : s'.fids = s.fids) (pool : s'.pool = s.pool)
    (reqFid : s'.reqFid = s.reqFid) :
    s.Confined fid s' := by
  refine ⟨by rw [fids], fun _ _ => by rw [fids], fun _ => .inl (by rw [pool]), reqFid⟩

theorem trans (first : s.Confined fid s') (second : s'.Confined fid s'') : s.Confined fid s'' := by
  refine ⟨second.next.trans first.next,
    fun ptr other => (second.cells ptr other).trans (first.cells ptr other), fun n => ?_,
    second.reqFid.trans first.reqFid⟩
  rcases first.pool n with same | ⟨held, gone⟩
  · rcases second.pool n with same' | ⟨held, gone⟩
    · exact .inl (same'.trans same)
    · exact .inr ⟨same ▸ held, gone⟩
  · rcases second.pool n with same' | ⟨-, gone'⟩
    · exact .inr ⟨held, same'.trans gone⟩
    · exact .inr ⟨held, gone'⟩

theorem pool_none (confined : s.Confined fid s') {n : UInt32} (absent : s.pool n = none) :
    s'.pool n = none := by
  rcases confined.pool n with same | ⟨-, gone⟩
  · exact same.trans absent
  · exact gone

theorem pool_some (confined : s.Confined fid s') {n : UInt32} {ptr : FidPtr}
    (named : s.pool n = some ptr) (other : ptr ≠ fid) : s'.pool n = some ptr := by
  rcases confined.pool n with same | ⟨held, -⟩
  · exact same.trans named
  · exact absurd (Option.some.inj (named.symm.trans held)) other

end Session.Confined

theorem confined_modify (change : Npfid Aux → Npfid Aux) : s.Confined fid (s.modify fid change) :=
  ⟨by simp [Session.modify], fun _ other => Cells.get_modify_ne other, fun _ => .inl rfl, rfl⟩

theorem confined_load {β : Type} (ptr : FidPtr) (field : Npfid Aux → β) (junk : β) :
    s.Confined fid (s.load ptr field junk).2 := by
  unfold Session.load
  split <;> exact .of_fids rfl rfl rfl

theorem confined_afterCall {β : Type} {target : Option FidPtr} (outcome : Outcome Aux World β)
    (within : ∀ ptr, target = some ptr → ptr = fid) :
    s.Confined fid (s.afterCall target outcome) := by
  have settled : s.Confined fid
      { s with error := outcome.error.getD s.error, world := outcome.world } := .of_fids rfl rfl rfl
  cases target with
  | none => exact settled
  | some ptr =>
      obtain rfl := within ptr rfl
      exact settled.trans (confined_modify _)

theorem exec_confined (env : Env Aux World) {op : Op} (within : op.Within fid)
    (s : Session Aux World) : s.Confined fid (exec env op s).2 := by
  cases op with
  | fidIncref ptr | fidDecref ptr | setOmode ptr | setType ptr | setDiroffset ptr | setUser ptr =>
      obtain rfl : ptr = fid := within
      exact confined_modify _
  | fidUnlink ptr =>
      obtain rfl : ptr = fid := within
      simp only [exec]
      split
      · split
        · rename_i f _ named
          refine ⟨rfl, fun _ _ => rfl, fun n => ?_, rfl⟩
          by_cases same : n = f.fid
          · subst same
            exact .inr ⟨named, Function.update_self ..⟩
          · exact .inl (Function.update_of_ne same ..)
        · exact .refl
      · exact .of_fids rfl rfl rfl
  | fidFree ptr =>
      obtain rfl : ptr = fid := within
      exact ⟨by simp [exec], fun _ other => Cells.get_free_ne other, fun _ => .inl rfl, rfl⟩
  | omode ptr | type ptr | diroffset ptr | user ptr => exact confined_load ptr _ _
  | userIncref user => cases user <;> exact .of_fids rfl rfl rfl
  | call callback => exact confined_afterCall _ within
  | fidCreate | setReqFid | connReset => exact within.elim
  | _ => exact .of_fids rfl rfl rfl

/-- Whatever the file server answers, the program works on no fid but this one. -/
def Within (fid : FidPtr) (program : Serve α) : Prop :=
  program.Always (fun _ _ => True) (Op.Within fid) fun _ => True

theorem Within.run {program : Serve α} (within : Within fid program) (env : Env Aux World)
    (s : Session Aux World) : s.Confined fid (program.run (exec env) s).2 :=
  (Always.run within (fun _ _ _ _ => trivial)
    (fun _ _ confined allowed => confined.trans (exec_confined env allowed _)) .refl).2.1

theorem within_of_decrefOps {op : Op} (allowed : decrefOps fid op) : op.Within fid := by
  cases op with
  | call callback =>
      rcases allowed with rfl | rfl <;> exact fun ptr same => (Option.some.inj same).symm
  | fidDecref | fidUnlink | fidFree => exact allowed
  | fidCreate | setReqFid | connReset | setOmode | setType | setDiroffset | setUser | fidIncref =>
      exact allowed.elim
  | _ => trivial

theorem within_npFidDecref (fid : FidPtr) : Within fid (npFidDecref (some fid)) :=
  always_npFidDecref (fun _ same _ allowed => Option.some.inj same ▸ within_of_decrefOps allowed)
    trivial

theorem pool_npFidDestroy {env : Env Aux World} {f : Npfid Aux} (live : s.fids.get fid = some f) :
    ((npFidDestroy fid).run (exec env) s).2.pool f.fid ≠ some fid := by
  have within : Within fid (npFidDestroy fid) :=
    always_npFidDestroy (fun _ => within_of_decrefOps) trivial
  rw [Within, npFidDestroy, always_bind] at within
  have unlinked : ((fidUnlink fid).run (exec env) s).2.pool f.fid ≠ some fid := by
    change (exec env (.fidUnlink fid) s).2.pool f.fid ≠ some fid
    simp only [exec, live]
    split_ifs with named
    · simp [Function.update_self]
    · exact named
  rw [npFidDestroy, run_bind]
  rcases (Within.run (within.2 () trivial) env _).pool f.fid with same | ⟨-, gone⟩
  · rwa [same]
  · simp [gone]

/-- A fid that is given up for the last time is taken out of the pool. -/
theorem pool_npFidDecref_last {env : Env Aux World} {f : Npfid Aux}
    (live : s.fids.get fid = some f) (last : f.refcount = 1) (named : s.pool f.fid = some fid) :
    ((npFidDecref (some fid)).run (exec env) s).2.pool f.fid = none := by
  have decreased : (npFidDecref (some fid)).run (exec env) s =
      (npFidDestroy fid).run (exec env) (s.modify fid (.addRef (-1))) := by
    have counted : (fidDecref fid).run (exec env) s =
        ((s.load fid (·.refcount - 1) 1).1, s.modify fid (.addRef (-1))) := rfl
    simp [npFidDecref, run_bind, counted, Session.load, live, last]
  have live' : (s.modify fid (.addRef (-1))).fids.get fid = some (f.addRef (-1)) := by
    simp [Session.modify, live]
  have removed := @pool_npFidDestroy _ _ _ _ env _ live'
  rcases (within_npFidDecref fid).run env s |>.pool f.fid with same | ⟨-, gone⟩
  · rw [decreased] at same
    exact absurd (same.trans named) removed
  · exact gone

end Confined

end Npfs
