import Mathlib.Data.List.TakeWhile
import Npfs.ClientFids
import Npfs.RoundTrip

/-!
# The Twalks of a path

`npc_walk` cuts a copy of the path at its slashes, in place, and sends the names that it finds, at
most `MAXWELEM` at a time.  The names of a Twalk are the ones that are read of its packet.
-/

namespace Npfs.ClientWalk

open Ufs (slash)
open ClientFids (names pathTwalks twalks)

/-! ## The copy of the path -/

theorem not_mem_takeWhile (bytes : List UInt8) : 0 ∉ bytes.takeWhile (· ≠ 0) := by
  intro member
  simpa using List.all_eq_true.mp List.all_takeWhile 0 member

/-- The string at an address of the copy. -/
def stringAt (fname : List UInt8) (p : ℕ) : CStr :=
  ⟨(fname.drop p).takeWhile (· ≠ 0), not_mem_takeWhile _⟩

/-- `strchr(s, c)`, as the distance from `s`; `none` when there is no end of the string. -/
def strchr (c : UInt8) : List UInt8 → Option (Option ℕ)
  | [] => none
  | b :: s =>
    if b = c then some (some 0)
    else if b = 0 then some none
    else (strchr c s).map (Option.map (· + 1))

/-- The copy of the path, `s`, and `t`, of which `none` is `NULL`. -/
structure Cursor where
  fname : List UInt8
  s : ℕ
  t : Option ℕ

/-- The inner loop of `npc_walk`, with room for `n` names; `none` when it reads outside the copy. -/
def gather : (turns n : ℕ) → Cursor → Option (List ℕ × Cursor)
  | 0, _, _ => none
  | _ + 1, 0, x => some ([], x)
  | turns + 1, n + 1, x => do
    let c ← x.fname[x.s]?
    if c = 0 then
      some ([], x)
    else if c = slash then
      gather turns (n + 1) { x with s := x.s + 1 }
    else
      match ← strchr slash (x.fname.drop x.s) with
      | none => some ([x.s], { x with t := none })
      | some d =>
        let (wnames, y) ← gather turns n
          { fname := x.fname.set (x.s + d) 0, s := x.s + d + 1, t := some (x.s + d) }
        some (x.s :: wnames, y)

/-! ## The requests -/

/-- What the server answers to the last one of the Twalks that were sent, given by their names. -/
abbrev Server := List (List CStr) → Option Npfcall

variable (server : Server) (heap : ℕ → Malloc) (fid : UInt32)

/-- The outer loop of `npc_walk`: what it sends, and `fid->qid`, unless it goes to `error`. -/
def walkLoop : (turns : ℕ) → (past : List (List CStr)) → (nfid : UInt32) → (qid : Npqid) → Cursor →
    Option (List Npfcall × Option Npqid)
  | 0, _, _, _, _ => none
  | turns + 1, past, nfid, qid, x => do
    let (wnames, x) ← gather (x.fname.length + 1) MAXWELEM x
    let wnames := wnames.map (stringAt x.fname)
    match npCreateTwalk nfid fid wnames (heap turns) with
    | none => some ([], none)
    | some tc =>
      match server (past ++ [wnames]) with
      | none => some ([tc], none)
      | some rc =>
        if rc.nwqid.toNat ≠ wnames.length then some ([tc], none)
        else
          let qid := if wnames = [] then qid else rc.wqids.toList.getD (wnames.length - 1) qid
          if x.t = none ∨ x.fname[x.s]? = some 0 then some ([tc], some qid)
          else do
            let (sent, qid) ← walkLoop turns (past ++ [wnames]) fid qid x
            some (tc :: sent, qid)

/-- `npc_walk`, when nothing in it fails but a Twalk.  The pointer `t` is not set before its first
use. -/
def npcWalk (root : UInt32) (rootQid : Npqid) (t : Option ℕ) (path : CStr) :
    Option (List Npfcall × Option Npqid) :=
  let path := path.bytes.dropWhile (· = slash)
  walkLoop server heap fid (path.length + 1) [] root rootQid { fname := path ++ [0], s := 0, t }

/-- Every walk is completed. -/
def Completes (server : Server) : Prop :=
  ∀ past wnames, wnames.length ≤ MAXWELEM →
    ∃ rc, server (past ++ [wnames]) = some rc ∧ rc.nwqid.toNat = wnames.length

/-- The Twalk is read as one from `nfid` to `fid` with these names. -/
def Asks (nfid : UInt32) (wnames : List (List UInt8)) (tc : Npfcall) : Prop :=
  ∀ old tag dotu, ∃ message, npDeserialize old (retag tag tc).pkt dotu = some message ∧
    message.type = MsgType.twalk.code ∧ message.fid = nfid ∧ message.newfid = fid ∧
    message.nwname.toNat = wnames.length ∧
    List.Forall₂ (StrAt (retag tag tc).pkt) (message.wnames.toList.take wnames.length) wnames

/-- The first Twalk is from `nfid`, and the other ones are from `fid`. -/
inductive Asked : (nfid : UInt32) → List (List (List UInt8)) → List Npfcall → Prop
  | nil (nfid : UInt32) : Asked nfid [] []
  | cons {nfid : UInt32} {wnames : List (List UInt8)} {batches : List (List (List UInt8))}
    {tc : Npfcall} {sent : List Npfcall} (first : Asks fid nfid wnames tc)
    (others : Asked fid batches sent) : Asked nfid (wnames :: batches) (tc :: sent)

/-- The walk arrives, and its Twalks have the names of the path. -/
def Arrives (root : UInt32) (path : CStr) (result : Option (List Npfcall × Option Npqid)) : Prop :=
  ∃ sent qid, result = some (sent, some qid) ∧ sent ≠ [] ∧
    ∃ batches, Asked fid root batches sent ∧ batches.flatten = names path.bytes ∧
      ∀ wnames ∈ batches, wnames.length ≤ MAXWELEM

/-! ## The inner loop -/

section Names

variable {word rest done : List UInt8}

theorem strchr_found (single : slash ∉ word) (noNul : 0 ∉ word) :
    strchr slash (word ++ slash :: rest) = some (some word.length) := by
  induction word with
  | nil => simp [strchr]
  | cons c word ih =>
      rw [List.mem_cons, not_or] at single noNul
      rw [List.cons_append, strchr, if_neg (Ne.symm single.1), if_neg (Ne.symm noNul.1),
        ih single.2 noNul.2]
      rfl

theorem strchr_missing (single : slash ∉ word) (noNul : 0 ∉ word) :
    strchr slash (word ++ 0 :: rest) = some none := by
  induction word with
  | nil => rfl
  | cons c word ih =>
      rw [List.mem_cons, not_or] at single noNul
      rw [List.cons_append, strchr, if_neg (Ne.symm single.1), if_neg (Ne.symm noNul.1),
        ih single.2 noNul.2]
      rfl

theorem stringAt_bytes (noNul : 0 ∉ word) :
    (stringAt (done ++ (word ++ 0 :: rest)) done.length).bytes = word := by
  have before : ∀ b ∈ word, decide (b ≠ 0) = true := fun b member =>
    decide_eq_true fun zero => noNul (zero ▸ member)
  simp only [stringAt, List.drop_left]
  rw [List.takeWhile_append_of_pos before]
  simp

/-- A string that starts with a name is the name, or has a slash behind it. -/
theorem word_cases (s : List UInt8) :
    slash ∉ s ∧ s.takeWhile (· ≠ slash) = s ∧ (s.dropWhile (· ≠ slash)).drop 1 = [] ∨
      ∃ word rest, s = word ++ slash :: rest ∧ slash ∉ word ∧
        s.takeWhile (· ≠ slash) = word ∧ (s.dropWhile (· ≠ slash)).drop 1 = rest := by
  by_cases slashed : slash ∈ s
  · obtain ⟨word, rest, rfl, single⟩ := List.eq_append_cons_of_mem slashed
    have before : ∀ b ∈ word, decide (b ≠ slash) = true := fun b member =>
      decide_eq_true fun same => single (same ▸ member)
    refine .inr ⟨word, rest, rfl, single, ?_, ?_⟩
    · rw [List.takeWhile_append_of_pos before]
      simp
    · rw [List.dropWhile_append_of_pos before]
      simp
  · have before : ∀ b ∈ s, decide (b ≠ slash) = true := fun b member =>
      decide_eq_true fun same => slashed (same ▸ member)
    refine .inl ⟨slashed, List.takeWhile_eq_self_iff.mpr before, ?_⟩
    rw [List.dropWhile_eq_nil_iff.mpr before]
    rfl

/-- Where the inner loop stops: behind the last name with `NULL` in `t`, or in front of what is
left, with a `t` of its own if it found a name. -/
def Stops (t : Option ℕ) (found : List (List UInt8) × List UInt8) (y : Cursor) : Prop :=
  (y.t = none ∧ found.1 ≠ [] ∧ found.2 = []) ∨
    (∃ done, y.fname = done ++ (found.2 ++ [0]) ∧ y.s = done.length) ∧
      (found.1 = [] ∧ y.t = t ∨ found.1 ≠ [] ∧ y.t ≠ none)

theorem Stops.stay {found : List (List UInt8) × List UInt8} {t : Option ℕ}
    (same : found = ([], rest)) : Stops t found ⟨done ++ (rest ++ [0]), done.length, t⟩ := by
  subst same
  exact .inr ⟨⟨done, rfl, rfl⟩, .inl ⟨rfl, rfl⟩⟩

theorem Stops.cons {found : List (List UInt8) × List UInt8} {p : ℕ} {y : Cursor} {t : Option ℕ}
    (stops : Stops (some p) found y) : Stops t (word :: found.1, found.2) y := by
  rcases stops with ⟨ended, -, nothing⟩ | ⟨left, ⟨-, same⟩ | ⟨-, set⟩⟩
  · exact .inl ⟨ended, List.cons_ne_nil _ _, nothing⟩
  · exact .inr ⟨left, .inr ⟨List.cons_ne_nil _ _, by rw [same]; exact Option.some_ne_none p⟩⟩
  · exact .inr ⟨left, .inr ⟨List.cons_ne_nil _ _, set⟩⟩

theorem gather_nil (turns n : ℕ) : ClientFids.gather turns n [] = ([], []) := by
  cases turns <;> cases n <;> rfl

/-- The inner loop cuts out the names that are there, and leaves alone what is in front. -/
theorem gather_stops (turns n : ℕ) (t : Option ℕ) (noNul : 0 ∉ rest)
    (enough : rest.length ≤ turns) :
    ∃ wnames y, gather (turns + 1) n ⟨done ++ (rest ++ [0]), done.length, t⟩ = some (wnames, y) ∧
      wnames.map (fun p => (stringAt y.fname p).bytes) = (ClientFids.gather turns n rest).1 ∧
      done <+: y.fname ∧ Stops t (ClientFids.gather turns n rest) y := by
  induction turns generalizing n done rest t with
  | zero =>
      obtain rfl := List.eq_nil_of_length_eq_zero (Nat.le_zero.mp enough)
      refine ⟨[], _, ?_, by rw [gather_nil]; rfl, List.prefix_append _ _, .stay (gather_nil 0 n)⟩
      cases n with
      | zero => rfl
      | succ n => simp [gather]
  | succ turns ih =>
      cases n with
      | zero =>
          have found : ClientFids.gather (turns + 1) 0 rest = ([], rest) := by
            simp [ClientFids.gather]
          exact ⟨[], _, rfl, by rw [found]; rfl, List.prefix_append _ _, .stay found⟩
      | succ n =>
          cases rest with
          | nil =>
              exact ⟨[], _, by simp [gather], by rw [gather_nil]; rfl, List.prefix_append _ _,
                .stay (gather_nil _ _)⟩
          | cons c s =>
              have here : (done ++ (c :: s ++ [0]))[done.length]? = some c := by simp
              have behind : (done ++ (c :: s ++ [0])).drop done.length = c :: s ++ [0] :=
                List.drop_left
              rw [List.mem_cons, not_or] at noNul
              rw [List.length_cons] at enough
              by_cases slashed : c = slash
              · obtain ⟨wnames, y, run, cut, kept, stops⟩ :=
                  @ih s (done ++ [c]) n.succ t noNul.2 (by omega)
                refine ⟨wnames, y, ?_, ?_, (List.prefix_append _ _).trans kept, ?_⟩
                · rw [gather, here]
                  simp only [Option.bind_eq_bind, Option.bind_some, if_neg (Ne.symm noNul.1),
                    if_pos slashed]
                  simpa using run
                · rw [cut, ClientFids.gather, if_pos slashed]
                · rwa [ClientFids.gather, if_pos slashed]
              · have noNul : 0 ∉ c :: s := by simpa using noNul
                have nonzero : c ≠ 0 := fun zero => noNul (by simp [zero])
                rcases word_cases (c :: s) with
                  ⟨single, whole, nothing⟩ | ⟨word, rest, split, single, first, others⟩
                · have missing := @strchr_missing (c :: s) [] single noNul
                  have found : ClientFids.gather (turns + 1) (n + 1) (c :: s) = ([c :: s], []) := by
                    rw [ClientFids.gather, if_neg slashed, whole, nothing]
                    simp only [gather_nil]
                  refine ⟨[done.length], ⟨done ++ (c :: s ++ [0]), done.length, none⟩, ?_, ?_,
                    List.prefix_append _ _, .inl ⟨rfl, by rw [found]; simp, by rw [found]⟩⟩
                  · rw [gather, here]
                    simp only [Option.bind_eq_bind, Option.bind_some, if_neg nonzero,
                      if_neg slashed, behind, missing]
                  · rw [found, List.map_singleton, stringAt_bytes noNul]
                · have found : ClientFids.gather (turns + 1) (n + 1) (c :: s) =
                      (word :: (ClientFids.gather turns n rest).1,
                        (ClientFids.gather turns n rest).2) := by
                    rw [ClientFids.gather, if_neg slashed, first, others]
                  have lengths : (c :: s).length = word.length + (rest.length + 1) := by
                    rw [split, List.length_append, List.length_cons]
                  rw [List.length_cons] at lengths
                  have filled : word ≠ [] := by
                    rintro rfl
                    exact slashed (List.cons.inj split).1
                  rw [split] at here behind noNul found ⊢
                  rw [List.mem_append, not_or, List.mem_cons, not_or] at noNul
                  have there := @strchr_found word (rest ++ [0]) single noNul.1
                  have cut : (done ++ (word ++ slash :: rest ++ [0])).set
                      (done.length + word.length) 0 =
                        (done ++ (word ++ [0])) ++ (rest ++ [0]) := by
                    simp
                  have length : (done ++ (word ++ [0])).length = done.length + word.length + 1 := by
                    simp [Nat.add_assoc]
                  obtain ⟨wnames, y, run, cuts, kept, stops⟩ :=
                    @ih rest (done ++ (word ++ [0])) n (some (done.length + word.length)) noNul.2.2
                      (by have := List.length_pos_iff.mpr filled; omega)
                  refine ⟨done.length :: wnames, y, ?_, ?_, (List.prefix_append _ _).trans kept, ?_⟩
                  · rw [length, ← cut] at run
                    simp only [List.append_assoc, List.cons_append] at run behind
                    rw [gather, here]
                    simp only [Option.bind_eq_bind, Option.bind_some, if_neg nonzero,
                      if_neg slashed, List.append_assoc, List.cons_append, behind, there]
                    rw [run]
                    rfl
                  · obtain ⟨tail, whole⟩ := kept
                    rw [found, List.map_cons, cuts, ← whole]
                    simp only [List.append_assoc, List.cons_append, List.nil_append]
                    rw [stringAt_bytes noNul.1]
                  · rw [found]
                    exact stops.cons

theorem length_behind (c : UInt8) (s : List UInt8) (plain : c ≠ slash) :
    (((c :: s).dropWhile (· ≠ slash)).drop 1).length ≤ s.length := by
  rw [List.dropWhile_cons_of_pos (by simpa using plain)]
  exact ((List.drop_suffix _ _).trans (List.dropWhile_suffix _)).length_le

/-- More turns than there are bytes change nothing. -/
theorem gather_enough {turns turns' : ℕ} (n : ℕ) (enough : rest.length ≤ turns)
    (enough' : rest.length ≤ turns') :
    ClientFids.gather turns n rest = ClientFids.gather turns' n rest := by
  induction turns generalizing turns' n rest with
  | zero =>
      obtain rfl := List.eq_nil_of_length_eq_zero (Nat.le_zero.mp enough)
      rw [gather_nil, gather_nil]
  | succ turns ih =>
      cases rest with
      | nil => rw [gather_nil, gather_nil]
      | cons c s =>
          rw [List.length_cons] at enough enough'
          obtain ⟨turns', rfl⟩ : ∃ k, turns' = k + 1 := ⟨turns' - 1, by omega⟩
          cases n with
          | zero => rfl
          | succ n =>
              by_cases slashed : c = slash
              · rw [ClientFids.gather, if_pos slashed, ClientFids.gather, if_pos slashed]
                exact ih _ (by omega) (by omega)
              · have shorter := length_behind c s slashed
                rw [ClientFids.gather, if_neg slashed, ClientFids.gather, if_neg slashed]
                simp only [ih n (shorter.trans (Nat.le_of_succ_le_succ enough))
                  (shorter.trans (Nat.le_of_succ_le_succ enough'))]

/-- The first name is found if it is in front. -/
theorem gather_ne_nil (n : ℕ) (plain : rest.head? ≠ some slash) (left : rest ≠ []) :
    (ClientFids.gather rest.length (n + 1) rest).1 ≠ [] := by
  cases rest with
  | nil => exact absurd rfl left
  | cons c s =>
      have slashed : c ≠ slash := fun same => plain (by simp [same])
      rw [List.length_cons, ClientFids.gather, if_neg slashed]
      exact List.cons_ne_nil _ _

theorem gather_suffix (turns n : ℕ) (s : List UInt8) : (ClientFids.gather turns n s).2 <:+ s := by
  induction turns generalizing n s with
  | zero => simp [ClientFids.gather]
  | succ turns ih =>
      cases n with
      | zero => simp [ClientFids.gather]
      | succ n =>
          cases s with
          | nil => simp [ClientFids.gather]
          | cons c s =>
              rw [ClientFids.gather]
              split
              · exact (ih _ _).trans (List.suffix_cons c s)
              · exact (ih _ _).trans ((List.drop_suffix _ _).trans (List.dropWhile_suffix _))

end Names

/-! ## The outer loop -/

section Arrives

variable {server : Server} {heap : ℕ → Malloc} {fid : UInt32}

/-- A Twalk of few names that fit is read with them. -/
theorem asks_of_fits {nfid : UInt32} {wnames : List CStr} (few : wnames.length ≤ MAXWELEM)
    (fits : ∀ wname ∈ wnames, wname.strlen < 2 ^ 16) (memory : Malloc) :
    ∃ tc, npCreateTwalk nfid fid wnames memory = some tc ∧
      Asks fid nfid (wnames.map CStr.bytes) tc := by
  obtain ⟨tc, created, -⟩ := @roundTrip_twalk nfid fid wnames false few fits memory default none
  refine ⟨tc, created, fun old tag dotu => ?_⟩
  obtain ⟨fc, same, message, read, type, -, -, carried⟩ :=
    @roundTrip_twalk nfid fid wnames dotu few fits memory old tag
  obtain rfl := Option.some.inj (created.symm.trans same)
  obtain ⟨fromFid, toFid, count, strings⟩ := carried
  refine ⟨message, read, type, fromFid, toFid, by rw [count, List.length_map], ?_⟩
  rw [List.length_map, List.forall₂_map_right_iff]
  exact strings

theorem walkLoop_arrives (completes : Completes server) {turns : ℕ} {past : List (List CStr)}
    {nfid : UInt32} {qid : Npqid} {done rest : List UInt8} {t : Option ℕ}
    (enough : rest.length < turns)
    (noNul : 0 ∉ rest) (fits : ∀ wname ∈ names rest, wname.length < 2 ^ 16)
    (set : t ≠ none ∨ rest.head? ≠ some slash) :
    ∃ sent qid', walkLoop server heap fid turns past nfid qid
        ⟨done ++ (rest ++ [0]), done.length, t⟩ = some (sent, some qid') ∧
      Asked fid nfid (twalks turns rest) sent := by
  induction turns generalizing past nfid qid done rest t with
  | zero => omega
  | succ turns ih =>
      have room : rest.length ≤ (done ++ (rest ++ [0])).length := by simp; omega
      obtain ⟨ptrs, y, run, cut, -, stops⟩ := @gather_stops rest done
        (done ++ (rest ++ [0])).length MAXWELEM t noNul room
      rw [gather_enough _ room le_rfl] at cut stops
      obtain ⟨split, few, -, less⟩ := @ClientFids.gather_spec rest rest.length MAXWELEM le_rfl
      have suffix := gather_suffix rest.length MAXWELEM rest
      generalize found : ClientFids.gather rest.length MAXWELEM rest = batch at *
      have bytes : (ptrs.map (stringAt y.fname)).map CStr.bytes = batch.1 := by
        rw [List.map_map]
        exact cut
      rw [walkLoop, run]
      simp only [Option.bind_eq_bind, Option.bind_some]
      generalize ptrs.map (stringAt y.fname) = wnames at bytes ⊢
      have length : wnames.length = batch.1.length := by rw [← bytes, List.length_map]
      have short : ∀ wname ∈ wnames, wname.strlen < 2 ^ 16 := by
        intro wname member
        refine fits wname.bytes ?_
        rw [split, ← bytes]
        exact List.mem_append_left _ (List.mem_map_of_mem member)
      obtain ⟨tc, created, asks⟩ := @asks_of_fits fid nfid wnames (by omega) short (heap turns)
      obtain ⟨rc, answered, counted⟩ := completes past wnames (by omega)
      rw [bytes] at asks
      simp only [created, answered, counted, ne_eq, not_true_eq_false, if_false, twalks, found]
      generalize (if wnames = [] then qid else rc.wqids.toList.getD (wnames.length - 1) qid) = qid'
      rcases stops with ⟨ended, -, nothing⟩ | ⟨⟨done', copy, there⟩, other⟩
      · rw [if_pos (.inl ended), if_pos nothing]
        exact ⟨[tc], qid', rfl, .cons asks (.nil fid)⟩
      · have next : y.fname[y.s]? = (batch.2 ++ [0]).head? := by
          rw [copy, there, List.getElem?_append_right le_rfl, Nat.sub_self, List.head?_eq_getElem?]
        by_cases nothing : batch.2 = []
        · rw [if_pos (.inr (by rw [next, nothing]; rfl)), if_pos nothing]
          exact ⟨[tc], qid', rfl, .cons asks (.nil fid)⟩
        · have left : rest ≠ [] := by
            rintro rfl
            exact nothing (List.suffix_nil.mp suffix)
          have more : y.fname[y.s]? ≠ some 0 := by
            intro zero
            obtain ⟨c, s, same⟩ := List.exists_cons_of_ne_nil nothing
            rw [next, same] at zero
            obtain rfl : c = 0 := Option.some.inj zero
            exact noNul (suffix.subset (by simp [same]))
          have kept : y.t ≠ none := by
            rcases other with ⟨unfound, same⟩ | ⟨-, set⟩
            · rw [same]
              refine set.resolve_right fun plain => ?_
              have first := gather_ne_nil 15 plain left
              rw [found] at first
              exact first unfound
            · exact set
          have shorter := less nothing (by decide)
          obtain ⟨sent, qid'', rest, asked⟩ := @ih (past ++ [wnames]) fid qid' done' batch.2 y.t
            (by omega) (fun zero => noNul (suffix.subset zero))
            (fun wname member => fits wname (by rw [split]; exact List.mem_append_right _ member))
            (.inl kept)
          rw [if_neg (not_or.mpr ⟨kept, more⟩), if_neg nothing]
          rw [← copy, ← there] at rest
          exact ⟨tc :: sent, qid'', by rw [rest]; rfl, .cons asks asked⟩

theorem short_of_strings {pkt : List UInt8} {strings : List Npstr} {wnames : List (List UInt8)}
    (read : List.Forall₂ (StrAt pkt) strings wnames) :
    ∀ wname ∈ wnames, wname.length < 2 ^ 16 := by
  induction read with
  | nil => simp
  | cons first _ ih =>
      intro wname member
      rcases List.mem_cons.mp member with rfl | member
      · exact first.1 ▸ UInt16.toNat_lt _
      · exact ih wname member

/-- The Twalks can only be read with names that are short. -/
theorem Asked.fits {nfid : UInt32} {batches : List (List (List UInt8))} {sent : List Npfcall}
    (asked : Asked fid nfid batches sent) : ∀ wname ∈ batches.flatten, wname.length < 2 ^ 16 := by
  induction asked with
  | nil => simp
  | @cons nfid wnames batches tc sent first others ih =>
      intro wname member
      rw [List.flatten_cons, List.mem_append] at member
      rcases member with member | member
      · obtain ⟨message, -, -, -, -, -, strings⟩ := first default none false
        exact short_of_strings strings wname member
      · exact ih wname member

end Arrives

/-- A walk that the server completes arrives with the names of the path exactly when each of them is
shorter than the length of a string can say. -/
theorem arrives_iff (server : Server) (completes : Completes server) (heap : ℕ → Malloc)
    (root fid : UInt32) (rootQid : Npqid) (t : Option ℕ) (path : CStr) :
    Arrives fid root path (npcWalk server heap fid root rootQid t path) ↔
      ∀ wname ∈ names path.bytes, wname.length < 2 ^ 16 := by
  constructor
  · rintro ⟨sent, qid, -, -, batches, asked, flat, -⟩ wname member
    exact asked.fits wname (flat ▸ member)
  · intro fits
    have clean : 0 ∉ path.bytes.dropWhile (· = slash) := fun zero =>
      path.noNul ((List.dropWhile_suffix _).subset zero)
    have plain : (path.bytes.dropWhile (· = slash)).head? ≠ some slash := by
      intro slashed
      have kept := List.head?_dropWhile_not (fun c => decide (c = slash)) path.bytes
      rw [slashed] at kept
      simp at kept
    rw [← ClientFids.names_dropWhile] at fits
    obtain ⟨sent, qid, run, asked⟩ := @walkLoop_arrives server heap fid completes
      ((path.bytes.dropWhile (· = slash)).length + 1) [] root rootQid [] _ t (Nat.lt_succ_self _)
      clean fits (.inr plain)
    obtain ⟨flat, few⟩ := ClientFids.flatten_twalks path.bytes
    refine ⟨sent, qid, run, ?_, pathTwalks path.bytes, asked, flat, few⟩
    rintro rfl
    cases asked

/-- A server that completes every walk, and has nothing to say about the files. -/
def completing : Server := fun asked =>
  some { (default : Npfcall) with nwqid := .ofNat (asked.getLastD []).length }

theorem completes_completing : Completes completing := by
  intro past wnames few
  refine ⟨_, rfl, ?_⟩
  rw [List.getLastD_concat]
  exact UInt16.toNat_ofNat_of_lt' (few.trans_lt (by decide))

/-- A path of slashes only is walked with one Twalk. -/
theorem arrives_iff_slashes : Arrives 1 0 (cstr "//")
    (npcWalk completing (fun _ => ⟨default, fun _ => 0⟩) 1 0 default none (cstr "//")) :=
  (arrives_iff completing completes_completing (fun _ => ⟨default, fun _ => 0⟩) 0 1 default none
    (cstr "//")).mpr (by decide +kernel)

theorem zero_not_mem_replicate (n : ℕ) : 0 ∉ List.replicate n (0x61 : UInt8) := fun member =>
  absurd (List.eq_of_mem_replicate member) (by decide)

/-- A name of `n` bytes. -/
def longName (n : ℕ) : CStr := ⟨List.replicate n 0x61, zero_not_mem_replicate n⟩

theorem named_longName {n : ℕ} (some : n ≠ 0) :
    (longName n).bytes ∈ names (longName n).bytes := by
  have single : slash ∉ (longName n).bytes := fun member =>
    absurd (List.eq_of_mem_replicate member) (by decide)
  have filled : (longName n).bytes ≠ [] := by
    rw [longName, ne_eq, List.replicate_eq_nil_iff]
    exact some
  rw [ClientFids.names_single single filled]
  exact List.mem_singleton_self _

theorem not_arrives_all : ¬ ∀ (server : Server), Completes server → ∀ (heap : ℕ → Malloc)
    (root fid : UInt32) (rootQid : Npqid) (t : Option ℕ) (path : CStr),
    Arrives fid root path (npcWalk server heap fid root rootQid t path) := by
  intro all
  obtain ⟨sent, qid, -, -, batches, asked, flat, -⟩ :=
    all completing completes_completing (fun _ => ⟨default, fun _ => 0⟩) 0 1 default none
      (longName (2 ^ 16))
  have short := asked.fits _ (flat ▸ named_longName (n := 2 ^ 16) (by decide))
  rw [longName, List.length_replicate] at short
  exact absurd short (Nat.lt_irrefl _)

end Npfs.ClientWalk
