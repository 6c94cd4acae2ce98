import Npfs.Session

/-!
# Marks of fids

What `omode`, `type` and `diroffset` say about a fid. Few operations of a handler assign them: all
others leave them alone, whatever the file server answers.
-/

namespace Npfs

open Serve Program

variable {Aux World α : Type}

/-- The fields of a fid that say what it is and whether it is open. -/
def Npfid.mark (f : Npfid Aux) : UInt16 × UInt16 × UInt32 := (f.omode, f.type, f.diroffset)

/-- The fid of which an operation assigns one of these fields. -/
def Op.assigned : Op → Option FidPtr
  | .setOmode fid _ | .setType fid _ | .setDiroffset fid _ => some fid
  | _ => none

/-- The operation assigns none of these fields of a fid, but for the exempt ones. -/
def Op.Spares (exempt : FidPtr → Prop) (op : Op) : Prop :=
  ∀ fid, op.assigned = some fid → exempt fid

/-- Whatever the file server answers, the program performs only such operations. -/
def Spares (exempt : FidPtr → Prop) (program : Serve α) : Prop :=
  program.Always (fun _ _ => True) (Op.Spares exempt) fun _ => True

/-- From one state to a later one, the fids that are still there have kept their marks, but for the
exempt ones. -/
structure Session.Spared (exempt : FidPtr → Prop) (s s' : Session Aux World) : Prop where
  grows : s.fids.next ≤ s'.fids.next
  kept : ∀ fid f', fid < s.fids.next → s'.fids.get fid = some f' →
    ∃ f, s.fids.get fid = some f ∧ (exempt fid ∨ f'.mark = f.mark)

section Spared

variable {exempt weaker : FidPtr → Prop} {s s' s'' : Session Aux World}

namespace Session.Spared

theorem refl : s.Spared exempt s := ⟨le_rfl, fun _ f' _ now => ⟨f', now, .inr rfl⟩⟩

theorem of_fids (same : s'.fids = s.fids) : s.Spared exempt s' := by
  refine ⟨by rw [same], fun fid f' _ now => ?_⟩
  rw [same] at now
  exact ⟨f', now, .inr rfl⟩

theorem trans (first : s.Spared exempt s') (second : s'.Spared exempt s'') :
    s.Spared exempt s'' := by
  refine ⟨first.grows.trans second.grows, fun fid f'' old now => ?_⟩
  obtain ⟨f', between, free | same⟩ := second.kept fid f'' (old.trans_le first.grows) now
  · obtain ⟨f, before, -⟩ := first.kept fid f' old between
    exact ⟨f, before, .inl free⟩
  · obtain ⟨f, before, same'⟩ := first.kept fid f' old between
    exact ⟨f, before, same'.imp_right same.trans⟩

theorem mono (spared : s.Spared exempt s') (weaken : ∀ fid, exempt fid → weaker fid) :
    s.Spared weaker s' := by
  refine ⟨spared.grows, fun fid f' old now => ?_⟩
  obtain ⟨f, before, same⟩ := spared.kept fid f' old now
  exact ⟨f, before, same.imp_left (weaken fid)⟩

end Session.Spared

theorem spared_of_modify {fid : FidPtr} {change : Npfid Aux → Npfid Aux}
    (fids : s'.fids = s.fids.modify fid change) (keeps : ∀ f, (change f).mark = f.mark) :
    s.Spared exempt s' := by
  refine ⟨by simp [fids], fun ptr f' _ now => ?_⟩
  rw [fids, Cells.get_modify] at now
  split_ifs at now with same
  · obtain ⟨f, before, rfl⟩ := Option.map_eq_some_iff.mp now
    exact ⟨f, same ▸ before, .inr (keeps f)⟩
  · exact ⟨f', now, .inr rfl⟩

theorem spared_modify_self (fid : FidPtr) (change : Npfid Aux → Npfid Aux) :
    s.Spared (· = fid) (s.modify fid change) := by
  refine ⟨by simp [Session.modify], fun ptr f' _ now => ?_⟩
  rw [Session.modify, Cells.get_modify] at now
  split_ifs at now with same
  · obtain ⟨f, before, rfl⟩ := Option.map_eq_some_iff.mp now
    exact ⟨f, same ▸ before, .inl same⟩
  · exact ⟨f', now, .inr rfl⟩

theorem spared_load {β : Type} (fid : FidPtr) (field : Npfid Aux → β) (junk : β) :
    s.Spared exempt (s.load fid field junk).2 := by
  unfold Session.load
  split <;> exact .of_fids rfl

theorem spared_create (env : Env Aux World) {fid : UInt32} (absent : s.pool fid = none) :
    s.Spared exempt ((npFidCreate fid).run (exec env) s).2 := by
  refine ⟨?_, fun ptr f' old now => ?_⟩
  · simp [run_npFidCreate absent]
  · simp only [run_npFidCreate absent, Cells.get_push, if_neg old.ne] at now
    exact ⟨f', now, .inr rfl⟩

theorem exec_spared (env : Env Aux World) {op : Op} (spares : op.Spares exempt) :
    s.Spared exempt (exec env op s).2 := by
  cases op with
  | fidCreate fid =>
      cases absent : s.pool fid with
      | none => exact spared_create env absent
      | some ptr =>
          simp only [exec, absent]
          exact .refl
  | fidUnlink fid =>
      simp only [exec]
      split
      · split <;> exact .of_fids rfl
      · exact .of_fids rfl
  | fidFree fid =>
      refine ⟨by simp [exec], fun ptr f' _ now => ?_⟩
      rw [exec, Cells.get_free] at now
      split_ifs at now
      exact ⟨f', now, .inr rfl⟩
  | fidIncref fid => exact spared_of_modify rfl fun _ => rfl
  | fidDecref fid => exact spared_of_modify rfl fun _ => rfl
  | setUser fid user => exact spared_of_modify rfl fun _ => rfl
  | setOmode fid | setType fid | setDiroffset fid =>
      exact (spared_modify_self fid _).mono fun ptr same => same ▸ spares fid rfl
  | userIncref user => cases user <;> exact .of_fids rfl
  | omode fid | type fid | diroffset fid | user fid => exact spared_load fid _ _
  | connReset msize dotu dotl =>
      refine ⟨by simp [exec], fun ptr f' _ now => ?_⟩
      simp [exec] at now
  | call callback =>
      have settled : s.Spared exempt { s with
          error := (env.answer callback s.fids.get s.world).error.getD s.error
          world := (env.answer callback s.fids.get s.world).world } := .of_fids rfl
      simp only [exec, Session.afterCall]
      split
      · exact settled
      · exact settled.trans (spared_of_modify rfl fun _ => rfl)
  | _ => exact .of_fids rfl

theorem Spares.run {program : Serve α} (spares : Spares exempt program) (env : Env Aux World)
    (s : Session Aux World) : s.Spared exempt (program.run (exec env) s).2 :=
  (Always.run spares (fun _ _ _ _ => trivial)
    (fun _ _ spared allowed => spared.trans (exec_spared env allowed)) .refl).2.1

end Spared

/-! ## Handlers -/

section Handlers

variable {exempt : FidPtr → Prop}

@[simp] theorem always_spares_npFidDecref {fid : Option FidPtr} {post : Unit → Prop} :
    (npFidDecref fid).Always (fun _ _ => True) (Op.Spares exempt) post ↔ post () := by
  constructor
  · intro always
    cases fid with
    | none => exact always
    | some fid => exact always.2 1 trivial
  · refine always_npFidDecref fun ptr _ op allowed => ?_
    cases op <;> first | exact absurd allowed not_false | exact fun _ none => nomatch none

/-- A handler that assigns fields of the fid of the request alone. -/
theorem spared_withFid {fid : UInt32} {rest : FidPtr → Serve (Option Npfcall)}
    (spares : ∀ ptr, Spares (· = ptr) (rest ptr)) (env : Env Aux World) (s : Session Aux World) :
    s.Spared (fun ptr => s.pool fid = some ptr) ((withFid fid rest).run (exec env) s).2 := by
  cases found : s.pool fid with
  | none =>
      simp only [withFid, run_bind, run_npFidFind, found, run_fail]
      exact .of_fids rfl
  | some ptr =>
      simp only [withFid, run_bind, run_npFidFind, found, run_npFidIncref, run_setReqFid]
      have counted : s.Spared (fun ptr' => some ptr = some ptr')
          { s.modify ptr (.addRef 1) with reqFid := some ptr } :=
        spared_of_modify rfl fun _ => rfl
      exact counted.trans (((spares ptr).run env _).mono fun _ same => congrArg some same.symm)

end Handlers

end Npfs
