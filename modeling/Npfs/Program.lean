import Mathlib.Tactic

/-!
# Programs over atomic operations

A program is a finite tree of atomic operations: each node performs one operation and continues
with its reply.  A program is run to its end against a state, or its operations are interleaved
with those of other programs; the tree is the same in both readings.
-/

/-- A program whose operations are `Op`, where operation `op` is answered by a `Reply op`. -/
inductive Program (Op : Type) (Reply : Op → Type) (α : Type) where
  /-- The program has finished with a result. -/
  | done (result : α)
  /-- Perform one operation and continue with its reply. -/
  | step (op : Op) (next : Reply op → Program Op Reply α)

namespace Program

variable {Op : Type} {Reply : Op → Type} {α β σ : Type}

/-- Sequential composition. -/
def bind (program : Program Op Reply α) (rest : α → Program Op Reply β) : Program Op Reply β :=
  match program with
  | .done result => rest result
  | .step op next => .step op fun reply => (next reply).bind rest

instance : Monad (Program Op Reply) where
  pure := .done
  bind := bind

/-- The program that performs a single operation. -/
def perform (op : Op) : Program Op Reply (Reply op) := .step op .done

@[simp] theorem pure_eq (result : α) : (pure result : Program Op Reply α) = .done result := rfl

@[simp] theorem done_bind (result : α) (rest : α → Program Op Reply β) :
    (Program.done result >>= rest) = rest result := rfl

@[simp] theorem step_bind (op : Op) (next : Reply op → Program Op Reply α)
    (rest : α → Program Op Reply β) :
    (Program.step op next >>= rest) = .step op fun reply => next reply >>= rest := rfl

private theorem bind_done (program : Program Op Reply α) : program.bind .done = program := by
  induction program with
  | done result => rfl
  | step op next ih => exact congrArg (Program.step op) (funext ih)

private theorem bind_bind {γ : Type} (program : Program Op Reply α)
    (second : α → Program Op Reply β) (third : β → Program Op Reply γ) :
    (program.bind second).bind third = program.bind fun result => (second result).bind third := by
  induction program with
  | done result => rfl
  | step op next ih => exact congrArg (Program.step op) (funext ih)

instance : LawfulMonad (Program Op Reply) :=
  LawfulMonad.mk' _ bind_done (fun _ _ => rfl) bind_bind

section Execution

variable (exec : (op : Op) → σ → Reply op × σ)

/-- Run a program to its end. -/
def run : Program Op Reply α → σ → α × σ
  | .done result, state => (result, state)
  | .step op next, state => run (next (exec op state).1) (exec op state).2

/-- The operations performed by a run, each with the state in which it was performed. -/
def events : Program Op Reply α → σ → List (Op × σ)
  | .done _, _ => []
  | .step op next, state =>
      (op, state) :: events (next (exec op state).1) (exec op state).2

@[simp] theorem run_done (result : α) (state : σ) :
    run exec (.done result : Program Op Reply α) state = (result, state) := rfl

@[simp] theorem run_step (op : Op) (next : Reply op → Program Op Reply α) (state : σ) :
    run exec (.step op next) state = run exec (next (exec op state).1) (exec op state).2 := rfl

theorem run_bind (program : Program Op Reply α) (rest : α → Program Op Reply β) (state : σ) :
    run exec (program >>= rest) state =
      run exec (rest (run exec program state).1) (run exec program state).2 := by
  induction program generalizing state with
  | done result => rfl
  | step op next ih => exact ih _ _

theorem run_ite {condition : Prop} [Decidable condition] (first second : Program Op Reply α)
    (state : σ) : run exec (if condition then first else second) state =
      if condition then run exec first state else run exec second state := by
  split_ifs <;> rfl

@[simp] theorem events_done (result : α) (state : σ) :
    events exec (.done result : Program Op Reply α) state = [] := rfl

@[simp] theorem events_step (op : Op) (next : Reply op → Program Op Reply α) (state : σ) :
    events exec (.step op next) state =
      (op, state) :: events exec (next (exec op state).1) (exec op state).2 := rfl

theorem events_bind (program : Program Op Reply α) (rest : α → Program Op Reply β) (state : σ) :
    events exec (program >>= rest) state =
      events exec program state ++
        events exec (rest (run exec program state).1) (run exec program state).2 := by
  induction program generalizing state with
  | done result => rfl
  | step op next ih =>
      change (op, state) :: events exec (next (exec op state).1 >>= rest) _ = _
      rw [ih]
      rfl

/-- What no operation changes, no program changes. -/
theorem run_preserves {β : Type} (view : σ → β)
    (kept : ∀ op state, view (exec op state).2 = view state)
    (program : Program Op Reply α) (state : σ) :
    view (run exec program state).2 = view state := by
  induction program generalizing state with
  | done result => rfl
  | step op next ih => exact (ih _ _).trans (kept op state)

/-- What each operation of a run keeps holds in each of its states. -/
theorem run_along {inv : σ → Prop} (program : Program Op Reply α) {state : σ}
    (steps : ∀ event ∈ program.events exec state, inv event.2 → inv (exec event.1 event.2).2)
    (initially : inv state) :
    inv (run exec program state).2 ∧ ∀ event ∈ events exec program state, inv event.2 := by
  induction program generalizing state with
  | done result => exact ⟨initially, by simp⟩
  | step op next ih =>
      obtain ⟨last, rest⟩ := ih _
        (fun event member => steps event (List.mem_cons_of_mem _ member))
        (steps (op, state) (by simp) initially)
      refine ⟨last, fun event member => ?_⟩
      rcases List.mem_cons.mp member with rfl | member
      · exact initially
      · exact rest event member

/-- What every operation keeps holds in each state of a run. -/
theorem run_invariant {inv : σ → Prop} (kept : ∀ op state, inv state → inv (exec op state).2)
    (program : Program Op Reply α) {state : σ} (initially : inv state) :
    inv (run exec program state).2 ∧ ∀ event ∈ events exec program state, inv event.2 :=
  run_along exec program (fun event _ => kept event.1 event.2) initially

/-- The result of a run and the state that it ends in satisfy `post`. -/
def Ensures (post : α → σ → Prop) (program : Program Op Reply α) (state : σ) : Prop :=
  post (run exec program state).1 (run exec program state).2

variable {exec}

@[simp] theorem ensures_done {post : α → σ → Prop} {result : α} {state : σ} :
    Ensures exec post (.done result : Program Op Reply α) state ↔ post result state := Iff.rfl

@[simp] theorem ensures_step {post : α → σ → Prop} {op : Op} {next : Reply op → Program Op Reply α}
    {state : σ} : Ensures exec post (.step op next) state ↔
      Ensures exec post (next (exec op state).1) (exec op state).2 := Iff.rfl

/-- The rule of sequential composition. -/
theorem ensures_bind {post : β → σ → Prop} {program : Program Op Reply α}
    {rest : α → Program Op Reply β} {state : σ} :
    Ensures exec post (program >>= rest) state ↔
      Ensures exec (fun result => Ensures exec post (rest result)) program state := by
  rw [Ensures, run_bind]
  rfl

/-- The rule of consequence. -/
theorem Ensures.mono {post weaker : α → σ → Prop} {program : Program Op Reply α} {state : σ}
    (ensures : Ensures exec post program state)
    (weaken : ∀ result state, post result state → weaker result state) :
    Ensures exec weaker program state := weaken _ _ ensures

/-- A first part and, from wherever it ends, the rest. -/
theorem Ensures.bind {middle : α → σ → Prop} {post : β → σ → Prop} {program : Program Op Reply α}
    {rest : α → Program Op Reply β} {state : σ} (first : Ensures exec middle program state)
    (onward : ∀ result state, middle result state → Ensures exec post (rest result) state) :
    Ensures exec post (program >>= rest) state := ensures_bind.mpr (first.mono onward)

end Execution

section Always

variable (possible : (op : Op) → Reply op → Prop) (ok : Op → Prop)

/-- Whatever possible replies it gets, the program performs only operations that are `ok`, and its
result satisfies `post`. -/
def Always (post : α → Prop) : Program Op Reply α → Prop
  | .done result => post result
  | .step op next => ok op ∧ ∀ reply, possible op reply → Always post (next reply)

variable {possible ok} {post weaker : α → Prop}

@[simp] theorem always_done {result : α} :
    Always possible ok post (.done result : Program Op Reply α) ↔ post result := Iff.rfl

@[simp] theorem always_step {op : Op} {next : Reply op → Program Op Reply α} :
    Always possible ok post (.step op next) ↔
      ok op ∧ ∀ reply, possible op reply → Always possible ok post (next reply) := Iff.rfl

@[simp] theorem always_bind {post : β → Prop} (program : Program Op Reply α)
    (rest : α → Program Op Reply β) :
    Always possible ok post (program >>= rest) ↔
      Always possible ok (fun result => Always possible ok post (rest result)) program := by
  induction program with
  | done result => rfl
  | step op next ih =>
      exact and_congr_right fun _ => forall_congr' fun reply => imp_congr_right fun _ => ih reply

@[simp] theorem always_ite {condition : Prop} [Decidable condition]
    {first second : Program Op Reply α} :
    Always possible ok post (if condition then first else second) ↔
      if condition then Always possible ok post first else Always possible ok post second := by
  split_ifs <;> rfl

theorem Always.mono {program : Program Op Reply α} (always : Always possible ok post program)
    (weaken : ∀ result, post result → weaker result) : Always possible ok weaker program := by
  induction program with
  | done result => exact weaken result always
  | step op next ih => exact ⟨always.1, fun reply given => ih reply (always.2 reply given)⟩

theorem Always.and {ok' : Op → Prop} {post' : α → Prop} {program : Program Op Reply α}
    (first : Always possible ok post program) (second : Always possible ok' post' program) :
    Always possible (fun op => ok op ∧ ok' op) (fun result => post result ∧ post' result)
      program := by
  induction program with
  | done result => exact ⟨first, second⟩
  | step op next ih =>
      exact ⟨⟨first.1, second.1⟩, fun reply given => ih reply (first.2 reply given)
        (second.2 reply given)⟩

variable {exec : (op : Op) → σ → Reply op × σ}

/-- A run that gets only possible replies performs only operations that are `ok`. -/
theorem Always.along {program : Program Op Reply α} {inv : σ → Prop} {state : σ}
    (always : Always possible ok post program)
    (steps : ∀ event ∈ program.events exec state, inv event.2 → ok event.1 →
      possible event.1 (exec event.1 event.2).1 ∧ inv (exec event.1 event.2).2)
    (initially : inv state) :
    post (program.run exec state).1 ∧ inv (program.run exec state).2 ∧
      ∀ event ∈ program.events exec state, ok event.1 := by
  induction program generalizing state with
  | done result => exact ⟨always, initially, by simp⟩
  | step op next ih =>
      obtain ⟨now, onward⟩ := always
      obtain ⟨replied, kept⟩ := steps (op, state) (by simp) initially now
      obtain ⟨result, last, rest⟩ := ih _ (onward _ replied)
        (fun event member => steps event (List.mem_cons_of_mem _ member)) kept
      refine ⟨result, last, fun event member => ?_⟩
      rcases List.mem_cons.mp member with rfl | member
      · exact now
      · exact rest event member

/-- A run whose states give only possible replies performs only operations that are `ok`. -/
theorem Always.run {program : Program Op Reply α} {inv : σ → Prop} {state : σ}
    (always : Always possible ok post program)
    (replies : ∀ op state, inv state → ok op → possible op (exec op state).1)
    (kept : ∀ op state, inv state → ok op → inv (exec op state).2) (initially : inv state) :
    post (program.run exec state).1 ∧ inv (program.run exec state).2 ∧
      ∀ event ∈ program.events exec state, ok event.1 :=
  always.along (fun event _ holds allowed =>
    ⟨replies event.1 event.2 holds allowed, kept event.1 event.2 holds allowed⟩) initially

/-- Knowledge that grows in a run: what the program does at any level of knowledge, it does at the
level of each state. -/
theorem Always.growing {ι : Type*} [Preorder ι] {possible : ι → (op : Op) → Reply op → Prop}
    {ok : ι → Op → Prop} {post : ι → α → Prop} {level : σ → ι} {inv : σ → Prop}
    {program : Program Op Reply α} {state : σ}
    (lasts : ∀ i j, i ≤ j → ∀ op reply, possible i op reply → possible j op reply)
    (always : ∀ i, level state ≤ i → Always (possible i) (ok i) (post i) program)
    (steps : ∀ event ∈ program.events exec state, inv event.2 → ok (level event.2) event.1 →
      level event.2 ≤ level (exec event.1 event.2).2 ∧
        possible (level (exec event.1 event.2).2) event.1 (exec event.1 event.2).1 ∧
          inv (exec event.1 event.2).2)
    (initially : inv state) :
    inv (program.run exec state).2 ∧
      ∀ event ∈ program.events exec state, inv event.2 ∧ ok (level event.2) event.1 := by
  induction program generalizing state with
  | done result => exact ⟨initially, by simp⟩
  | step op next ih =>
      have now := (always _ le_rfl).1
      obtain ⟨grows, replied, kept⟩ := steps (op, state) (by simp) initially now
      have onward (i : ι) (above : level (exec op state).2 ≤ i) :
          Always (possible i) (ok i) (post i) (next (exec op state).1) :=
        (always i (grows.trans above)).2 _ (lasts _ _ above op _ replied)
      obtain ⟨last, rest⟩ := ih _ onward
        (fun event member => steps event (List.mem_cons_of_mem _ member)) kept
      refine ⟨last, fun event member => ?_⟩
      rcases List.mem_cons.mp member with rfl | member
      · exact ⟨initially, now⟩
      · exact rest event member

end Always

section Throughout

variable (exec : (op : Op) → σ → Reply op × σ)

/-- All operations of a run satisfy `ok` in the states in which they are performed. -/
def Throughout (ok : Op × σ → Prop) (program : Program Op Reply α) (state : σ) : Prop :=
  ∀ event ∈ program.events exec state, ok event

variable {exec} {ok : Op × σ → Prop} {state : σ}

@[simp] theorem throughout_done {result : α} :
    Throughout exec ok (.done result : Program Op Reply α) state ↔ True := by
  simp [Throughout]

@[simp] theorem throughout_step {op : Op} {next : Reply op → Program Op Reply α} :
    Throughout exec ok (.step op next) state ↔
      ok (op, state) ∧ Throughout exec ok (next (exec op state).1) (exec op state).2 := by
  simp [Throughout]

theorem throughout_bind {program : Program Op Reply α} {rest : α → Program Op Reply β} :
    Throughout exec ok (program >>= rest) state ↔
      Throughout exec ok program state ∧
        Throughout exec ok (rest (program.run exec state).1) (program.run exec state).2 := by
  simp only [Throughout, events_bind, List.mem_append, or_imp, forall_and]

end Throughout

/-- A set of states that no operation leaves. -/
structure Trap (exec : (op : Op) → σ → Reply op × σ) where
  holds : σ → Prop
  lasts : ∀ op state, holds state → holds (exec op state).2

section EnsuresIff

variable {exec : (op : Op) → σ → Reply op × σ} {trap : Trap exec}

theorem Trap.run (program : Program Op Reply α) {state : σ} (holds : trap.holds state) :
    trap.holds (program.run exec state).2 :=
  (run_invariant exec trap.lasts program holds).1

variable (trap) in
/-- The program ends as `post` says if `p` holds, and in the trap if it does not. -/
structure EnsuresIff (program : Program Op Reply α) (state : σ) (p : Prop) (post : α → σ → Prop) :
    Prop where
  ends : p → post (program.run exec state).1 (program.run exec state).2
  fails : ¬ p → trap.holds (program.run exec state).2

variable {p q : Prop} {post : α → σ → Prop} {post' : β → σ → Prop} {program : Program Op Reply α}
  {rest : α → Program Op Reply β} {state : σ}

theorem ensuresIff_done {result : α} (yes : p) (holds : post result state) :
    EnsuresIff trap (.done result) state p post :=
  ⟨fun _ => holds, fun no => absurd yes no⟩

theorem ensuresIff_ite {condition : Prop} [Decidable condition] {other : Program Op Reply α}
    (yes : condition → EnsuresIff trap program state p post)
    (no : ¬ condition → EnsuresIff trap other state p post) :
    EnsuresIff trap (if condition then program else other) state p post := by
  split_ifs with holds
  · exact yes holds
  · exact no holds

theorem EnsuresIff.congr (ensures : EnsuresIff trap program state p post) (same : p ↔ q) :
    EnsuresIff trap program state q post :=
  ⟨fun yes => ensures.ends (same.mpr yes), fun no => ensures.fails (mt same.mp no)⟩

theorem EnsuresIff.mono {weaker : α → σ → Prop} (ensures : EnsuresIff trap program state p post)
    (weaken : ∀ result state, post result state → weaker result state) :
    EnsuresIff trap program state p weaker :=
  ⟨fun yes => weaken _ _ (ensures.ends yes), ensures.fails⟩

/-- The rule of sequential composition: both conditions are needed. -/
theorem EnsuresIff.bind (first : EnsuresIff trap program state p post)
    (onward : p → ∀ result state, post result state → EnsuresIff trap (rest result) state q post') :
    EnsuresIff trap (program >>= rest) state (p ∧ q) post' := by
  by_cases yes : p
  · obtain ⟨ends, fails⟩ := onward yes _ _ (first.ends yes)
    refine ⟨fun both => ?_, fun no => ?_⟩
    · rw [run_bind]
      exact ends both.2
    · rw [run_bind]
      exact fails fun yes' => no ⟨yes, yes'⟩
  · refine ⟨fun both => absurd both.1 yes, fun _ => ?_⟩
    rw [run_bind]
    exact trap.run _ (first.fails yes)

/-- A part with a condition, and a part without one behind it. -/
theorem EnsuresIff.before (first : EnsuresIff trap program state p post)
    (onward : p → ∀ result state, post result state →
      EnsuresIff trap (rest result) state True post') :
    EnsuresIff trap (program >>= rest) state p post' :=
  (first.bind onward).congr (and_iff_left trivial)

/-- A part without a condition, and a part with one behind it. -/
theorem EnsuresIff.behind (first : EnsuresIff trap program state True post)
    (onward : ∀ result state, post result state → EnsuresIff trap (rest result) state q post') :
    EnsuresIff trap (program >>= rest) state q post' :=
  (first.bind fun _ => onward).congr (and_iff_right trivial)

/-- Behind a part that ends in the trap nothing helps. -/
theorem ensuresIff_trapped (trapped : trap.holds (program.run exec state).2) :
    EnsuresIff trap (program >>= rest) state False post' := by
  refine ⟨False.elim, fun _ => ?_⟩
  rw [run_bind]
  exact trap.run _ trapped

end EnsuresIff

end Program
