import Npfs.LinkedChain
import Npfs.Transition

/-!
# Server teardown

`np_srv_add_conn`, `np_srv_remove_conn` and `np_srv_shutdown` of `libnpfs/srv.c`, on any number of
threads.  Each section under `srv->lock` is one step; the walk of `np_srv_shutdown` over the
connections that it took is outside the lock.
-/

namespace Npfs.Teardown

open Function LinkedChain

/-- A pointer to an `Npconn`. -/
abbrev ConnPtr := Nat

/-! ## The server -/

/-- Where a thread is in the loop of `np_srv_shutdown`. -/
inductive Pc where
  | idle
  /-- At the head of the loop. -/
  | walking (conn : Option ConnPtr)
  /-- `conn->next` is cleared, and `np_conn_decref(conn)` comes next. -/
  | detached (conn : ConnPtr) (conn1 : Option ConnPtr)
  deriving DecidableEq

/-- The connections of an `Npsrv`. -/
structure Srv (Thread : Type) where
  shuttingdown : Bool
  destroyed : Bool
  conns : Option ConnPtr
  /-- `conn->next`. -/
  next : ConnPtr → Option ConnPtr
  at_ : Thread → Pc
  /-- History: how often `np_srv_destroy` ran. -/
  destroys : Nat
  /-- History: the `np_conn_incref` of `np_srv_add_conn`. -/
  added : List ConnPtr
  /-- History: the `np_conn_decref` of `np_srv_remove_conn` and `np_srv_shutdown`. -/
  released : List ConnPtr

/-- A call, or a step of one that goes on behind its section. -/
inductive Call (Thread : Type) where
  | addConn (conn : ConnPtr)
  | removeConn (conn : ConnPtr)
  | shutdown (t : Thread) (shutconns : Bool)
  | detach (t : Thread)
  | release (t : Thread)

namespace Srv

variable {Thread : Type} [DecidableEq Thread] (s : Srv Thread)

/-- The server before the first connection. -/
def start (next : ConnPtr → Option ConnPtr) : Srv Thread where
  shuttingdown := false
  destroyed := false
  conns := none
  next := next
  at_ _ := .idle
  destroys := 0
  added := []
  released := []

/-- `np_srv_destroy`. -/
def npSrvDestroy : Srv Thread := { s with destroyed := true, destroys := s.destroys + 1 }

/-- `if (srv->shuttingdown && !srv->conns && !srv->destroyed) np_srv_destroy(srv)`. -/
def destroyIfEmpty : Srv Thread :=
  if s.shuttingdown ∧ s.conns = none ∧ s.destroyed = false then s.npSrvDestroy else s

/-- `np_srv_add_conn`. -/
def npSrvAddConn (conn : ConnPtr) : Srv Thread :=
  if s.shuttingdown then s
  else
    { s with
      next := update s.next conn s.conns
      conns := some conn
      added := s.added ++ [conn] }

/-- `*pc = c->next; c->next = NULL`, where `pc` is `&srv->conns` or the `next` of a connection. -/
def unlink (pc : Option ConnPtr) (c : ConnPtr) : Srv Thread :=
  match pc with
  | none => { s with conns := s.next c, next := update s.next c none }
  | some p => { s with next := update (update s.next p (s.next c)) c none }

/-- `np_srv_remove_conn`; `none` when its loop does not end. -/
def npSrvRemoveConn (conn : ConnPtr) : Option (Srv Thread) :=
  (locate s.next (· = conn) s.added.length none s.conns).map fun found =>
    match found.2 with
    | none => s.destroyIfEmpty
    | some c =>
      { s.unlink found.1 c with released := s.released ++ [c] }.destroyIfEmpty

/-- `np_srv_shutdown`, up to its loop. -/
def npSrvShutdown (t : Thread) (shutconns : Bool) : Srv Thread :=
  if s.shuttingdown then s
  else
    { s with
      shuttingdown := true
      at_ := update s.at_ t (.walking (if shutconns then s.conns else none))
      conns := if shutconns then none else s.conns }.destroyIfEmpty

/-- One step; `none` when the thread cannot take it. -/
def step : Call Thread → Option (Srv Thread)
  | .addConn conn => some (s.npSrvAddConn conn)
  | .removeConn conn => s.npSrvRemoveConn conn
  | .shutdown t shutconns => if s.at_ t = .idle then some (s.npSrvShutdown t shutconns) else none
  | .detach t =>
    match s.at_ t with
    | .walking (some conn) =>
      some { s with
        next := update s.next conn none
        at_ := update s.at_ t (.detached conn (s.next conn)) }
    | .walking none => some { s with at_ := update s.at_ t .idle }
    | _ => none
  | .release t =>
    match s.at_ t with
    | .detached conn conn1 =>
      some { s with
        at_ := update s.at_ t (.walking conn1)
        released := s.released ++ [conn] }
    | _ => none

end Srv

/-! ## What teardown promises -/

/-- The connections that a thread has taken from the list and not yet released. -/
def Pc.Takes (next : ConnPtr → Option ConnPtr) : Pc → List ConnPtr → Prop
  | .idle, taken => taken = []
  | .walking conn, taken => Path next conn taken
  | .detached conn conn1, taken => ∃ rest, taken = conn :: rest ∧ Path next conn1 rest

/-- Where the list's reference on a connection is. -/
inductive Place (Thread : Type) where
  /-- There is none. -/
  | free
  /-- The connection is on the list. -/
  | listed
  /-- `np_srv_shutdown` has taken the connection off the list, in this thread. -/
  | taken (t : Thread)
  deriving DecidableEq

section Promise

variable {Thread : Type}

/-- The list and what threads have taken from it. -/
structure Placed (s : Srv Thread) (place : ConnPtr → Place Thread) : Prop where
  listed : ∃ chain, Path s.next s.conns chain ∧ ∀ c, c ∈ chain ↔ place c = .listed
  taken : ∀ t, ∃ chain, (s.at_ t).Takes s.next chain ∧ chain.Nodup ∧
    ∀ c, c ∈ chain ↔ place c = .taken t

/-- One destroy, at the end; and each reference of the list is released once, by the call that took
the connection off the list. -/
structure Balanced (s : Srv Thread) (place : ConnPtr → Place Thread) : Prop extends
    Placed s place where
  once : s.destroys ≤ 1
  empty : 0 < s.destroys → s.shuttingdown = true ∧ s.conns = none
  done : s.shuttingdown = true → s.conns = none → s.destroys = 1
  held : ∀ c, place c ≠ .free → s.added.count c = s.released.count c + 1
  free : ∀ c, place c = .free → s.added.count c = s.released.count c

/-- A connection on the list, or in the hands of `np_srv_shutdown`, is not added, unless it is
refused. -/
def Fresh (s : Srv Thread) : Call Thread → Prop
  | .addConn conn => s.shuttingdown = false → s.added.count conn = s.released.count conn
  | _ => True

end Promise

/-! ## Every run -/

namespace Srv

variable {Thread : Type} (s : Srv Thread) (pc : Option ConnPtr) (c q : ConnPtr)

theorem conns_unlink : (s.unlink pc c).conns = if pc = none then s.next c else s.conns := by
  cases pc <;> rfl

theorem next_unlink : (s.unlink pc c).next q =
    if q = c then none else if pc = some q then s.next c else s.next q := by
  cases pc with
  | none => simp [unlink, update_apply]
  | some p => simp [unlink, update_apply, eq_comm]

theorem unlink_eq : s.unlink pc c =
    { s with conns := (s.unlink pc c).conns, next := (s.unlink pc c).next } := by
  cases pc <;> rfl

end Srv

variable {Thread : Type} {s : Srv Thread} {place : ConnPtr → Place Thread}

theorem Pc.Takes.congr {next next' : ConnPtr → Option ConnPtr} {pc : Pc} {taken : List ConnPtr}
    (takes : pc.Takes next taken) (same : ∀ c ∈ taken, next' c = next c) :
    pc.Takes next' taken := by
  cases pc with
  | idle => exact takes
  | walking conn => exact Path.congr takes same
  | detached conn conn1 =>
      obtain ⟨rest, rfl, path⟩ := takes
      exact ⟨rest, rfl, path.congr fun c mem => same c (List.mem_cons_of_mem _ mem)⟩

/-- What holds within a section, before its last test. -/
structure Account (s : Srv Thread) (place : ConnPtr → Place Thread) : Prop extends
    Placed s place where
  flag : s.destroys = s.destroyed.toNat
  empty : s.destroyed = true → s.shuttingdown = true ∧ s.conns = none
  held : ∀ c, place c ≠ .free → s.added.count c = s.released.count c + 1
  free : ∀ c, place c = .free → s.added.count c = s.released.count c

/-- What holds between sections. -/
structure Sound (s : Srv Thread) (place : ConnPtr → Place Thread) : Prop extends
    Account s place where
  done : s.shuttingdown = true → s.conns = none → s.destroyed = true

theorem Sound.balanced (sound : Sound s place) : Balanced s place where
  toPlaced := sound.toPlaced
  once := by
    rw [sound.flag]
    cases s.destroyed <;> simp
  empty := by
    intro ran
    rw [sound.flag] at ran
    refine sound.empty ?_
    cases destroyed : s.destroyed with
    | false => simp [destroyed] at ran
    | true => rfl
  done := by
    intro down empty
    rw [sound.flag, sound.done down empty]
    rfl
  held := sound.held
  free := sound.free

theorem sound_start (next : ConnPtr → Option ConnPtr) :
    Sound (Srv.start next : Srv Thread) fun _ => .free where
  listed := ⟨[], .nil, by simp⟩
  taken _ := ⟨[], rfl, by simp, by simp⟩
  flag := rfl
  empty := by simp [Srv.start]
  held := by simp
  free _ _ := rfl
  done := by simp [Srv.start]

namespace Account

/-- The test at the end of a section. -/
theorem destroyIfEmpty (account : Account s place) : Sound s.destroyIfEmpty place := by
  unfold Srv.destroyIfEmpty
  split_ifs with test
  · obtain ⟨down, empty, alive⟩ := test
    exact { account with
      flag := by simp [Srv.npSrvDestroy, account.flag, alive]
      empty := fun _ => ⟨down, empty⟩
      done := fun _ _ => rfl }
  · refine { account with done := fun down empty => ?_ }
    by_contra alive
    exact test ⟨down, empty, by simpa using alive⟩

theorem place_free (account : Account s place) {c : ConnPtr}
    (fresh : s.added.count c = s.released.count c) : place c = .free := by
  by_contra other
  have := account.held c other
  omega

/-- No list is longer than the history of what was added. -/
theorem length_le (account : Account s place) {chain : List ConnPtr}
    (path : Path s.next s.conns chain) (mem : ∀ c, c ∈ chain ↔ place c = .listed) :
    chain.length ≤ s.added.length := by
  refine (List.subperm_of_subset path.nodup fun c within => ?_).length_le
  have count := account.held c (by simp [(mem c).mp within])
  exact List.count_pos_iff.mp (by omega)

end Account

namespace Sound

theorem npSrvAddConn (sound : Sound s place) {conn : ConnPtr}
    (fresh : s.shuttingdown = false → s.added.count conn = s.released.count conn) :
    ∃ place', Sound (s.npSrvAddConn conn) place' := by
  unfold Srv.npSrvAddConn
  split_ifs with down
  · exact ⟨place, sound⟩
  · have count := fresh (by simpa using down)
    have free := sound.place_free count
    obtain ⟨chain, path, mem⟩ := sound.listed
    have away : ∀ c, place c ≠ .free → update s.next conn s.conns c = s.next c := by
      intro c held
      refine update_of_ne ?_ _ _
      rintro rfl
      exact held free
    refine ⟨update place conn .listed, ⟨⟨⟨?_, ?_⟩, sound.flag, ?_, ?_, ?_⟩, ?_⟩⟩
    · refine ⟨conn :: chain, .cons ?_, fun c => ?_⟩
      · change Path _ (update s.next conn s.conns conn) chain
        rw [update_self]
        exact path.congr fun c within => away c (by simp [(mem c).mp within])
      · by_cases same : c = conn
        · simp [same]
        · simp [same, mem]
    · intro t
      obtain ⟨taken, takes, once, mem'⟩ := sound.taken t
      refine ⟨taken, takes.congr fun c within => away c (by simp [(mem' c).mp within]), once,
        fun c => ?_⟩
      by_cases same : c = conn
      · subst same
        simp [mem', free]
      · simp [same, mem']
    · intro destroyed
      exact absurd (sound.empty destroyed).1 down
    · intro c held
      by_cases same : c = conn
      · subst same
        simp [count]
      · rw [update_of_ne same] at held
        simpa [List.count_append, List.count_singleton, Ne.symm same] using sound.held c held
    · intro c free'
      have same : c ≠ conn := by
        rintro rfl
        simp at free'
      rw [update_of_ne same] at free'
      simpa [List.count_append, List.count_singleton, Ne.symm same] using sound.free c free'
    · intro down'
      exact absurd down' down

theorem npSrvRemoveConn (sound : Sound s place) (conn : ConnPtr) :
    ∃ s' place', s.npSrvRemoveConn conn = some s' ∧ Sound s' place' := by
  obtain ⟨chain, path, mem⟩ := sound.listed
  rcases locate_of_path (· = conn) none path (sound.length_le path mem) with
    ⟨last, located, -⟩ | ⟨front, p, back, rfl, found, located⟩
  · exact ⟨_, place, by simp [Srv.npSrvRemoveConn, located], sound.destroyIfEmpty⟩
  · obtain rfl : p = conn := by simpa using found
    rw [Option.or_none] at located
    have once := path.nodup
    have within : place p = .listed := (mem p).mp (by simp)
    have before : ∀ q, front.getLast? = some q → place q = .listed ∧ q ≠ p := by
      intro q last
      have inside := List.mem_of_getLast? last
      refine ⟨(mem q).mp (by simp [inside]), ?_⟩
      rintro rfl
      exact (List.nodup_append.mp once).2.2 q inside q List.mem_cons_self rfl
    have apart : ∀ q ∈ front ++ back, q ≠ p := by
      rintro q inside rfl
      rw [List.nodup_append] at once
      grind -linarith
    have account : Account ({ s.unlink front.getLast? p with released := s.released ++ [p] })
        (update place p .free) := by
      rw [Srv.unlink_eq]
      refine ⟨⟨⟨front ++ back, ?_, fun c => ?_⟩, fun t => ?_⟩, sound.flag, ?_, ?_, ?_⟩
      · have shorter : Path (s.unlink front.getLast? p).next
            (if front.getLast? = none then s.next p else s.conns) (front ++ back) := by
          refine path.erase (fun q last => ?_) fun q inside other => ?_
          · rw [Srv.next_unlink, if_neg (before q last).2, if_pos last]
          · rw [Srv.next_unlink, if_neg (apart q inside), if_neg other]
        change Path _ (s.unlink front.getLast? p).conns _
        rwa [Srv.conns_unlink]
      · by_cases same : c = p
        · subst same
          simpa using fun inside => apart c (List.mem_append.mpr inside) rfl
        · rw [update_of_ne same, ← mem]
          simp [same]
      · obtain ⟨taken, takes, once', mem'⟩ := sound.taken t
        have elsewhere : ∀ q ∈ taken, place q ≠ .listed := by
          intro q inside
          simp [(mem' q).mp inside]
        refine ⟨taken, takes.congr fun q inside => ?_, once', fun c => ?_⟩
        · change (s.unlink front.getLast? p).next q = s.next q
          rw [Srv.next_unlink, if_neg, if_neg]
          · exact fun last => elsewhere q inside (before q last).1
          · rintro rfl
            exact elsewhere q inside within
        · by_cases same : c = p
          · subst same
            simp [mem', within]
          · rw [update_of_ne same, mem']
      · intro destroyed
        rw [(sound.empty destroyed).2] at path
        cases front <;> cases path
      · intro c held
        have same : c ≠ p := by
          rintro rfl
          simp at held
        rw [update_of_ne same] at held
        simpa [List.count_append, List.count_singleton, Ne.symm same] using sound.held c held
      · intro c free
        by_cases same : c = p
        · subst same
          simpa [List.count_append] using sound.held c (by simp [within])
        · rw [update_of_ne same] at free
          simpa [List.count_append, List.count_singleton, Ne.symm same] using sound.free c free
    exact ⟨_, _, by simp [Srv.npSrvRemoveConn, located], account.destroyIfEmpty⟩

/-- A thread outside of the loop has taken nothing. -/
theorem place_of_idle (sound : Sound s place) {t : Thread} (idle : s.at_ t = .idle) (c : ConnPtr) :
    place c ≠ .taken t := by
  obtain ⟨taken, takes, -, mem⟩ := sound.taken t
  rw [idle] at takes
  obtain rfl : taken = [] := takes
  simpa using mem c

variable [DecidableEq Thread]

theorem npSrvShutdown (sound : Sound s place) {t : Thread} (shutconns : Bool)
    (idle : s.at_ t = .idle) : ∃ place', Sound (s.npSrvShutdown t shutconns) place' := by
  have nothing := sound.place_of_idle idle
  unfold Srv.npSrvShutdown
  cases down : s.shuttingdown with
  | true => exact ⟨place, by simpa using sound⟩
  | false =>
      have alive : s.destroyed ≠ true := by
        intro destroyed
        rw [(sound.empty destroyed).1] at down
        cases down
      obtain ⟨chain, path, mem⟩ := sound.listed
      rw [if_neg (by simp)]
      cases shutconns with
      | false =>
          refine ⟨place, Account.destroyIfEmpty ⟨⟨⟨chain, path, mem⟩, fun u => ?_⟩, sound.flag,
            fun destroyed => absurd destroyed alive, sound.held, sound.free⟩⟩
          by_cases same : u = t
          · subst same
            exact ⟨[], by simpa [Pc.Takes] using .nil, by simp, by simpa using nothing⟩
          · simpa [update_of_ne same] using sound.taken u
      | true =>
          refine ⟨fun c => if place c = .listed then .taken t else place c,
            Account.destroyIfEmpty ⟨⟨⟨[], .nil, fun c => ?_⟩, fun u => ?_⟩, sound.flag,
              fun destroyed => absurd destroyed alive, fun c held => ?_, fun c free => ?_⟩⟩
          · split_ifs with listed <;> simp [listed]
          · by_cases same : u = t
            · subst same
              refine ⟨chain, by simpa [Pc.Takes] using path, path.nodup, fun c => ?_⟩
              rw [mem]
              split_ifs with listed
              · simp [listed]
              · simp [listed, nothing c]
            · obtain ⟨taken, takes, once, mem'⟩ := sound.taken u
              refine ⟨taken, by simpa [update_of_ne same] using takes, once, fun c => ?_⟩
              rw [mem']
              split_ifs with listed
              · simp [listed, Ne.symm same]
              · rfl
          · refine sound.held c fun free => held ?_
            simp [free]
          · refine sound.free c ?_
            split_ifs at free with listed
            exact free

theorem detach (sound : Sound s place) {t : Thread} {conn : ConnPtr}
    (at_ : s.at_ t = .walking (some conn)) :
    Sound { s with
      next := update s.next conn none
      at_ := update s.at_ t (.detached conn (s.next conn)) } place := by
  obtain ⟨chain, path, mem⟩ := sound.listed
  obtain ⟨mine, takes, once, mem'⟩ := sound.taken t
  rw [at_] at takes
  have here : place conn = .taken t := (mem' conn).mp (Path.start_mem takes)
  have away : ∀ c, place c ≠ .taken t → update s.next conn none c = s.next c := by
    intro c other
    refine update_of_ne ?_ _ _
    rintro rfl
    exact other here
  refine { sound with listed := ⟨chain, path.congr fun c within => away c ?_, mem⟩, taken := ?_ }
  · simp [(mem c).mp within]
  · intro u
    by_cases same : u = t
    · subst same
      refine ⟨mine, ?_, once, mem'⟩
      cases takes with
      | @cons _ rest tail =>
          change Pc.Takes _ (update s.at_ u (.detached conn (s.next conn)) u) _
          rw [update_self]
          refine ⟨rest, rfl, tail.congr fun c within => update_of_ne ?_ _ _⟩
          rintro rfl
          exact (List.nodup_cons.mp once).1 within
    · obtain ⟨taken, takes', once', mem''⟩ := sound.taken u
      refine ⟨taken, ?_, once', mem''⟩
      change Pc.Takes _ (update s.at_ t (.detached conn (s.next conn)) u) _
      rw [update_of_ne same]
      refine takes'.congr fun c within => away c ?_
      simp [(mem'' c).mp within, same]

theorem leave (sound : Sound s place) {t : Thread} (at_ : s.at_ t = .walking none) :
    Sound { s with at_ := update s.at_ t .idle } place := by
  refine { sound with taken := fun u => ?_ }
  by_cases same : u = t
  · subst same
    obtain ⟨mine, takes, once, mem⟩ := sound.taken u
    rw [at_] at takes
    cases takes
    exact ⟨[], by simp [Pc.Takes], once, mem⟩
  · simpa [update_of_ne same] using sound.taken u

theorem release (sound : Sound s place) {t : Thread} {conn : ConnPtr} {conn1 : Option ConnPtr}
    (at_ : s.at_ t = .detached conn conn1) :
    Sound { s with
      at_ := update s.at_ t (.walking conn1)
      released := s.released ++ [conn] } (update place conn .free) := by
  obtain ⟨chain, path, mem⟩ := sound.listed
  obtain ⟨mine, takes, once, mem'⟩ := sound.taken t
  rw [at_] at takes
  obtain ⟨rest, rfl, tail⟩ := takes
  have here : place conn = .taken t := (mem' conn).mp List.mem_cons_self
  refine { sound with
    listed := ⟨chain, path, fun c => ?_⟩, taken := fun u => ?_, held := fun c held => ?_,
    free := fun c free => ?_ }
  · by_cases same : c = conn
    · subst same
      simp [mem, here]
    · rw [update_of_ne same, mem]
  · by_cases same : u = t
    · subst same
      refine ⟨rest, by simpa [Pc.Takes] using tail, (List.nodup_cons.mp once).2, fun c => ?_⟩
      by_cases same : c = conn
      · subst same
        simpa using (List.nodup_cons.mp once).1
      · rw [update_of_ne same, ← mem']
        simp [same]
    · obtain ⟨taken, takes', once', mem''⟩ := sound.taken u
      refine ⟨taken, by simpa [update_of_ne same] using takes', once', fun c => ?_⟩
      by_cases same' : c = conn
      · subst same'
        simp [mem'', here, Ne.symm same]
      · rw [update_of_ne same', mem'']
  · have same : c ≠ conn := by
      rintro rfl
      simp at held
    rw [update_of_ne same] at held
    simpa [List.count_append, List.count_singleton, Ne.symm same] using sound.held c held
  · by_cases same : c = conn
    · subst same
      simpa [List.count_append] using sound.held c (by simp [here])
    · rw [update_of_ne same] at free
      simpa [List.count_append, List.count_singleton, Ne.symm same] using sound.free c free

theorem step (sound : Sound s place) {call : Call Thread} {s' : Srv Thread} (fresh : Fresh s call)
    (taken : s.step call = some s') : ∃ place', Sound s' place' := by
  cases call with
  | addConn conn =>
      cases taken
      exact sound.npSrvAddConn fresh
  | removeConn conn =>
      obtain ⟨next, place', removed, sound'⟩ := sound.npSrvRemoveConn conn
      obtain rfl : next = s' := Option.some.inj (removed.symm.trans taken)
      exact ⟨place', sound'⟩
  | shutdown t shutconns =>
      by_cases idle : s.at_ t = .idle
      · obtain rfl : s.npSrvShutdown t shutconns = s' := by simpa [Srv.step, idle] using taken
        exact sound.npSrvShutdown shutconns idle
      · simp [Srv.step, idle] at taken
  | detach t =>
      cases at_ : s.at_ t with
      | idle => simp [Srv.step, at_] at taken
      | walking conn =>
          cases conn with
          | none =>
              obtain rfl : _ = s' := by simpa [Srv.step, at_] using taken
              exact ⟨place, sound.leave at_⟩
          | some conn =>
              obtain rfl : _ = s' := by simpa [Srv.step, at_] using taken
              exact ⟨place, sound.detach at_⟩
      | detached conn conn1 => simp [Srv.step, at_] at taken
  | release t =>
      cases at_ : s.at_ t with
      | idle => simp [Srv.step, at_] at taken
      | walking conn => simp [Srv.step, at_] at taken
      | detached conn conn1 =>
          obtain rfl : _ = s' := by simpa [Srv.step, at_] using taken
          exact ⟨_, sound.release at_⟩

end Sound

variable [DecidableEq Thread]

/-- In every run that adds no connection twice, the server is destroyed once and at its end, each
reference of the list is given back once, and the loops of `np_srv_remove_conn` end. -/
theorem balanced_of_run {next : ConnPtr → Option ConnPtr}
    (run : Transition.Reaches Srv.step Fresh (Srv.start next : Srv Thread) s) :
    (∃ place, Balanced s place) ∧ ∀ conn, (s.step (.removeConn conn)).isSome := by
  obtain ⟨place, sound⟩ := run.invariant (fun s => ∃ place, Sound s place)
    ⟨_, sound_start next⟩ fun sound fresh taken => sound.choose_spec.step fresh taken
  refine ⟨⟨place, sound.balanced⟩, fun conn => ?_⟩
  obtain ⟨s', -, removed, -⟩ := sound.npSrvRemoveConn conn
  simp [Srv.step, removed]

instance (s : Srv Thread) (call : Call Thread) : Decidable (Fresh s call) :=
  match call with
  | .addConn conn =>
    inferInstanceAs (Decidable (_ → s.added.count conn = s.released.count conn))
  | .removeConn _ | .shutdown .. | .detach _ | .release _ => .isTrue trivial

/-- The reader of the first connection removes itself while `np_srv_shutdown` walks over it, a third
connection is refused, and the reader of the second comes last. -/
theorem balanced_of_run_shutdown : ∃ s : Srv (Fin 1),
    Transition.Reaches Srv.step Fresh (Srv.start fun _ => none) s ∧ s.destroys = 1 ∧
      s.added = [1, 2] ∧ s.released = [2, 1] ∧ ∃ place, Balanced s place :=
  let played := Transition.play Srv.step Fresh (Srv.start fun _ => none : Srv (Fin 1))
    [.addConn 1, .addConn 2, .shutdown 0 true, .detach 0, .removeConn 1, .addConn 3, .removeConn 3,
      .release 0, .detach 0, .release 0, .detach 0, .removeConn 2]
  have run := Transition.reaches_of_play (Option.some_get (show played.isSome from rfl)).symm
  ⟨_, run, rfl, rfl, rfl, (balanced_of_run run).1⟩

/-- `np_conn_create` adds the connection, and `np_pipesrv_start` adds it once more: it is linked to
itself, with two references of the list, and the removal of another connection does not end. -/
theorem not_balanced_of_run : ∃ s : Srv (Fin 1),
    Transition.Reaches Srv.step (fun _ _ => True) (Srv.start fun _ => none) s ∧
      (¬ ∃ place, Balanced s place) ∧ s.step (.removeConn 2) = none := by
  let played := Transition.play Srv.step (fun _ _ => True) (Srv.start fun _ => none : Srv (Fin 1))
    [.addConn 1, .addConn 1]
  refine ⟨played.get rfl, Transition.reaches_of_play (Option.some_get _).symm, ?_, rfl⟩
  rintro ⟨place, balanced⟩
  obtain ⟨chain, path, mem⟩ := balanced.listed
  have listed : place 1 = .listed := (mem 1).mp path.start_mem
  have count := balanced.held 1 (by simp [listed])
  exact absurd count (by decide)

end Npfs.Teardown
