import Npfs.AuthExchange

/-!
# The offer of p9any

The client of `libnpauth/p9any.c` with any server: which entry of the offer it answers with, and
which protocol it runs.
-/

namespace Npfs.P9any

open P9sk1 (getWord firstProto)

/-! ## The client -/

/-- The functions that `authprotos` points to. -/
inductive Auth where
  | authp9sk1
  deriving DecidableEq

/-- `authprotos`. -/
def authprotos : List (CStr × Auth) := [(cstr "p9sk1", .authp9sk1)]

/-- `getline0`, of what `npc_read` has read: the line without its terminator. -/
def getline0 (data : Option (List UInt8)) : Option (List UInt8) := do
  let buf ← data
  if buf = [] ∨ buf.getLast? ≠ some 0 ∨ buf.idxOf 0 ≠ buf.length - 1 then none
  else some buf.dropLast

/-- The loop of `authp9any`: the function that is found, `proto` and `dom`.  Its search compares the
name in `authprotos`, not `proto`, with `p9sk1`. -/
def search : (turns : ℕ) → (p : List UInt8) → Option (Auth × List UInt8 × List UInt8)
  | 0, _ | _ + 1, [] => none
  | turns + 1, p =>
    let (word, p) := getWord 0x20 p
    let (proto, word) := getWord 0x40 word
    let (dom, _) := getWord 0 word
    match authprotos.find? fun entry => entry.1 = cstr "p9sk1" with
    | some entry => some (entry.2, proto, dom)
    | none => search turns p

/-- What the server does. -/
structure Peer where
  /-- The bytes of the first line, unless it cannot be read. -/
  offer : Option (List UInt8)
  /-- The answer is taken. -/
  takes : Bool
  /-- The bytes of the second line. -/
  reply : Option (List UInt8)

/-- What the client does: the line that it answers with, and the protocol that it runs. -/
structure Outcome where
  answered : Option (List UInt8)
  ran : Option Auth
  deriving DecidableEq

variable (peer : Peer)

/-- The server speaks version 2. -/
def v2 (line : List UInt8) : Bool := (cstr "v.2 ").bytes.isPrefixOf line

/-- The text of the offer. -/
def offer (line : List UInt8) : List UInt8 := if v2 line then line.drop 4 else line

/-- `authp9any`. -/
def authp9any : Outcome :=
  match getline0 peer.offer with
  | none => ⟨none, none⟩
  | some line =>
    match search (offer line).length (offer line) with
    | none => ⟨none, none⟩
    | some (found, proto, dom) =>
      let answer := proto ++ 0x20 :: dom
      -- `putline0` has a buffer of 128 bytes
      if 127 ≤ answer.length then ⟨none, none⟩
      else if !peer.takes then ⟨some answer, none⟩
      else if v2 line && getline0 peer.reply ≠ some (cstr "OK").bytes then ⟨some answer, none⟩
      else ⟨some answer, some found⟩

/-! ## What it is for -/

/-- The entries of an offer. -/
def entries (text : List UInt8) : List (List UInt8) := (text.splitOn 0x20).filter (· ≠ [])

/-- The protocol and the domain are offered together. -/
def Offered (text proto dom : List UInt8) : Prop := proto ++ 0x40 :: dom ∈ entries text

/-- An entry has no domain. -/
def Malformed (text : List UInt8) : Prop := ∃ entry ∈ entries text, 0x40 ∉ entry

/-- The client answers with an entry of the offer that it can run, and then runs it; it does not
answer only if there is no such entry, or the line is malformed. -/
structure Negotiates (peer : Peer) (outcome : Outcome) : Prop where
  answered : ∀ answer, outcome.answered = some answer → ∃ line name auth dom,
    getline0 peer.offer = some line ∧ (name, auth) ∈ authprotos ∧
      Offered (offer line) name.bytes dom ∧ answer = name.bytes ++ 0x20 :: dom
  ran : ∀ auth, outcome.ran = some auth → ∃ name dom, (name, auth) ∈ authprotos ∧
    outcome.answered = some (name.bytes ++ 0x20 :: dom)
  failed : outcome.answered = none → ∀ line, getline0 peer.offer = some line →
    (∀ name auth dom, (name, auth) ∈ authprotos → ¬ Offered (offer line) name.bytes dom) ∨
      Malformed (offer line)
  goes_on : ∀ line, getline0 peer.offer = some line → outcome.answered ≠ none →
    peer.takes = true → (v2 line = true → getline0 peer.reply = some (cstr "OK").bytes) →
    outcome.ran ≠ none

/-- The first word of the offer. -/
def firstWord (text : List UInt8) : List UInt8 := text.takeWhile (· ≠ 0x20)

/-- The answer to the first word. -/
def answerTo (word : List UInt8) : List UInt8 :=
  (getWord 0x40 word).1 ++ 0x20 :: (getWord 0x40 word).2

/-- Nothing is offered; or the first word is an entry of p9sk1, or without its domain one that is
offered too; or the answer is too long, and there is nothing to answer. -/
def Sound (text : List UInt8) : Prop :=
  text = [] ∨
    (∃ dom, Offered text (cstr "p9sk1").bytes dom ∧
      (firstWord text = (cstr "p9sk1").bytes ++ 0x40 :: dom ∨
        firstWord text = (cstr "p9sk1").bytes ∧ dom = []) ∧
      (answerTo (firstWord text)).length < 127) ∨
    127 ≤ (answerTo (firstWord text)).length ∧
      ((∀ dom, ¬ Offered text (cstr "p9sk1").bytes dom) ∨ Malformed text)

/-! ## The answer -/

section Answer

variable {line text word dom : List UInt8}

/-- A word with an `@`, or without one. -/
theorem word_cases (word : List UInt8) :
    (∃ proto dom, word = proto ++ 0x40 :: dom ∧ 0x40 ∉ proto ∧
      answerTo word = proto ++ 0x20 :: dom) ∨
      0x40 ∉ word ∧ answerTo word = word ++ [0x20] := by
  by_cases apart : 0x40 ∈ word
  · obtain ⟨proto, dom, rfl, single⟩ := List.eq_append_cons_of_mem apart
    exact .inl ⟨proto, dom, rfl, single, by rw [answerTo, P9sk1.getWord_append single]⟩
  · exact .inr ⟨apart, by rw [answerTo, P9sk1.getWord_whole apart]⟩

theorem space_not_mem_firstWord (text : List UInt8) : 0x20 ∉ firstWord text := by
  intro member
  simpa using List.all_eq_true.mp List.all_takeWhile 0x20 member

/-- A line that is read has no terminator in it. -/
theorem zero_not_mem_line {data : Option (List UInt8)} (read : getline0 data = some line) :
    0 ∉ line := by
  cases data with
  | none => cases read
  | some buf =>
      simp only [getline0, Option.bind_eq_bind, Option.bind_some] at read
      split_ifs at read with bad
      obtain rfl := Option.some.inj read
      simp only [not_or, not_not] at bad
      obtain ⟨filled, -, first⟩ := bad
      intro member
      have inside := List.idxOf_lt_length_of_mem member
      have same : (buf.dropLast ++ [buf.getLast filled]).idxOf 0 = buf.dropLast.idxOf 0 :=
        List.idxOf_append_of_mem member
      rw [List.dropLast_concat_getLast, first] at same
      rw [← same, List.length_dropLast] at inside
      exact Nat.lt_irrefl _ inside

theorem zero_not_mem_offer (noNul : 0 ∉ line) : 0 ∉ offer line := by
  intro member
  rw [offer] at member
  split_ifs at member
  · exact noNul (List.mem_of_mem_drop member)
  · exact noNul member

/-- The search takes the first word, whatever it is. -/
theorem search_eq (noNul : 0 ∉ text) (filled : text ≠ []) :
    search text.length text = some (.authp9sk1, (getWord 0x40 (firstWord text)).1,
      (getWord 0x40 (firstWord text)).2) := by
  obtain ⟨b, rest, rfl⟩ := List.exists_cons_of_ne_nil filled
  have clean : 0 ∉ (getWord 0x40 (firstWord (b :: rest))).2 := fun member =>
    noNul ((List.takeWhile_subset _) ((List.dropWhile_suffix _).subset
      (List.mem_of_mem_drop member)))
  have found : authprotos.find? (fun entry => entry.1 = cstr "p9sk1") =
      some (cstr "p9sk1", .authp9sk1) := rfl
  have word : (getWord 0x20 (b :: rest)).1 = firstWord (b :: rest) := rfl
  rw [List.length_cons, search]
  · simp only [found, word, P9sk1.getWord_whole clean]
  · exact List.cons_ne_nil _ _

/-- It is the search of the exchange with the server of `libnpauth/p9any.c`. -/
theorem search_eq_firstProto (noNul : 0 ∉ text) :
    search text.length text = (firstProto text).map fun choice => (.authp9sk1, choice) := by
  by_cases filled : text = []
  · subst filled
    rfl
  · have clean : 0 ∉ (getWord 0x40 (getWord 0x20 text).1).2 := fun member =>
      noNul ((List.takeWhile_subset _) ((List.dropWhile_suffix _).subset
        (List.mem_of_mem_drop member)))
    rw [search_eq noNul filled, firstProto, if_neg filled]
    simp only [P9sk1.getWord_whole clean, Option.map_some]
    rfl

/-- What the client does with a line that is not empty. -/
theorem authp9any_eq {peer : Peer} (read : getline0 peer.offer = some line)
    (filled : offer line ≠ []) :
    authp9any peer =
      if 127 ≤ (answerTo (firstWord (offer line))).length then ⟨none, none⟩
      else if !peer.takes then ⟨some (answerTo (firstWord (offer line))), none⟩
      else if v2 line && getline0 peer.reply ≠ some (cstr "OK").bytes then
        ⟨some (answerTo (firstWord (offer line))), none⟩
      else ⟨some (answerTo (firstWord (offer line))), some .authp9sk1⟩ := by
  have found := search_eq (zero_not_mem_offer (zero_not_mem_line read)) filled
  simp only [authp9any, read, found]
  rfl

/-- An answer that is short is given. -/
theorem answered_eq {peer : Peer} (read : getline0 peer.offer = some line)
    (filled : offer line ≠ []) : (authp9any peer).answered =
      if 127 ≤ (answerTo (firstWord (offer line))).length then none
      else some (answerTo (firstWord (offer line))) := by
  rw [authp9any_eq read filled]
  split_ifs <;> rfl

theorem ran_authp9sk1 {auth : Auth} : auth = .authp9sk1 := by
  cases auth
  rfl

theorem mem_authprotos {name : CStr} {auth : Auth} (known : (name, auth) ∈ authprotos) :
    name = cstr "p9sk1" :=
  congrArg Prod.fst (List.mem_singleton.mp known)

/-- The answer to a word names an entry of p9sk1 only if the word does, but for its `@`. -/
theorem answerTo_eq_iff (apart : 0x20 ∉ word) :
    answerTo word = (cstr "p9sk1").bytes ++ 0x20 :: dom ↔
      word = (cstr "p9sk1").bytes ++ 0x40 :: dom ∨ word = (cstr "p9sk1").bytes ∧ dom = [] := by
  have split {front back front' back' : List UInt8} (clean : 0x20 ∉ front)
      (clean' : 0x20 ∉ front') (same : front ++ 0x20 :: back = front' ++ 0x20 :: back') :
      front = front' ∧ back = back' := by
    have words := congrArg (getWord 0x20) same
    rw [P9sk1.getWord_append clean, P9sk1.getWord_append clean'] at words
    exact Prod.mk.inj words
  have known : (0x20 : UInt8) ∉ (cstr "p9sk1").bytes := by decide
  rcases word_cases word with ⟨proto, rest, rfl, single, answer⟩ | ⟨none', answer⟩
  · have clean : 0x20 ∉ proto := fun member => apart (List.mem_append_left _ member)
    rw [answer]
    constructor
    · intro same
      obtain ⟨rfl, rfl⟩ := split clean known same
      exact .inl rfl
    · rintro (same | ⟨same, -⟩)
      · have words := congrArg (getWord 0x40) same
        rw [P9sk1.getWord_append single, P9sk1.getWord_append (by decide)] at words
        obtain ⟨rfl, rfl⟩ := Prod.mk.inj words
        rfl
      · exact absurd (same ▸ by simp : (0x40 : UInt8) ∈ (cstr "p9sk1").bytes) (by decide)
  · rw [answer]
    constructor
    · intro same
      obtain ⟨rfl, rfl⟩ := split apart known same
      exact .inr ⟨rfl, rfl⟩
    · rintro (rfl | ⟨rfl, rfl⟩)
      · exact absurd (by simp) none'
      · rfl

/-- A client that does not answer. -/
theorem Negotiates.silent {peer : Peer} (failed : ∀ line, getline0 peer.offer = some line →
    (∀ dom, ¬ Offered (offer line) (cstr "p9sk1").bytes dom) ∨ Malformed (offer line)) :
    Negotiates peer ⟨none, none⟩ where
  answered _ some' := by cases some'
  ran _ some' := by cases some'
  failed _ line read := (failed line read).imp_left fun nothing name auth dom known offered =>
    nothing dom (mem_authprotos known ▸ offered)
  goes_on _ _ some' := absurd rfl some'

/-- A client that answers with an entry, and goes on unless the server does not. -/
theorem Negotiates.answering {peer : Peer} {ran : Option Auth}
    (read : getline0 peer.offer = some line)
    (offered : Offered (offer line) (cstr "p9sk1").bytes dom)
    (goes : peer.takes = true → (v2 line = true → getline0 peer.reply = some (cstr "OK").bytes) →
      ran ≠ none) :
    Negotiates peer ⟨some ((cstr "p9sk1").bytes ++ 0x20 :: dom), ran⟩ where
  answered _ same := ⟨line, _, .authp9sk1, dom, read, List.mem_singleton_self _, offered,
    (Option.some.inj same).symm⟩
  ran auth _ := ⟨_, dom, by rw [@ran_authp9sk1 auth]; exact List.mem_singleton_self _, rfl⟩
  failed none' := by cases none'
  goes_on line' read' _ := by
    obtain rfl := Option.some.inj (read.symm.trans read')
    exact goes

end Answer

/-- The client negotiates as it should exactly with the offers that are sound for its search. -/
theorem negotiates_iff (peer : Peer) : Negotiates peer (authp9any peer) ↔
    ∀ line, getline0 peer.offer = some line → Sound (offer line) := by
  constructor
  · intro negotiates line read
    by_cases filled : offer line = []
    · exact .inl filled
    · have answered := answered_eq read filled
      by_cases long : 127 ≤ (answerTo (firstWord (offer line))).length
      · rw [if_pos long] at answered
        refine .inr (.inr ⟨long, (negotiates.failed answered line read).imp_left ?_⟩)
        exact fun nothing dom => nothing _ .authp9sk1 dom (List.mem_singleton_self _)
      · rw [if_neg long] at answered
        obtain ⟨line', name, auth, dom, read', known, offered, same⟩ :=
          negotiates.answered _ answered
        obtain rfl := Option.some.inj (read.symm.trans read')
        obtain rfl := mem_authprotos known
        exact .inr (.inl ⟨dom, offered, (answerTo_eq_iff (space_not_mem_firstWord _)).mp same,
          not_le.mp long⟩)
  · intro sound
    cases read : getline0 peer.offer with
    | none =>
        have silent : authp9any peer = ⟨none, none⟩ := by simp only [authp9any, read]
        rw [silent]
        refine .silent fun line read' => ?_
        rw [read] at read'
        cases read'
    | some line =>
        have only {line' : List UInt8} (read' : getline0 peer.offer = some line') :
            line' = line := Option.some.inj (read'.symm.trans read)
        rcases sound line read with empty | ⟨dom, offered, first, short⟩ | ⟨long, nothing⟩
        · have silent : authp9any peer = ⟨none, none⟩ := by
            simp only [authp9any, read, empty]
            rfl
          rw [silent]
          refine .silent fun line' read' => .inl fun dom offered => ?_
          rw [only read', empty, Offered, entries] at offered
          simp at offered
        · have filled : offer line ≠ [] := by
            intro empty
            rw [empty, Offered, entries] at offered
            simp at offered
          rw [authp9any_eq read filled, if_neg (not_le.mpr short),
            (answerTo_eq_iff (space_not_mem_firstWord _)).mpr first]
          split_ifs with refused other
          · refine .answering read offered fun takes _ => ?_
            rw [takes] at refused
            cases refused
          · refine .answering read offered fun _ reply => ?_
            simp only [Bool.and_eq_true, decide_eq_true_eq] at other
            exact absurd (reply other.1) other.2
          · exact .answering read offered fun _ _ => Option.some_ne_none _
        · by_cases filled : offer line = []
          · rw [filled] at long
            exact absurd long (by decide)
          · rw [authp9any_eq read filled, if_pos long]
            refine .silent fun line' read' => ?_
            rw [only read']
            exact nothing

/-- An unknown protocol is offered in front of p9sk1. -/
def strangerFirst : Peer where
  offer := some ((cstr "v.2 p9any@x p9sk1@d").bytes ++ [0])
  takes := true
  reply := some ((cstr "OK").bytes ++ [0])

/-- The client answers with the protocol that it does not know, and runs p9sk1. -/
theorem not_negotiates_all : ¬ ∀ peer : Peer, Negotiates peer (authp9any peer) := by
  intro all
  have outcome : authp9any strangerFirst = ⟨some (cstr "p9any x").bytes, some .authp9sk1⟩ := by
    decide +kernel
  have negotiates := all strangerFirst
  rw [outcome] at negotiates
  obtain ⟨line, name, auth, dom, -, known, -, same⟩ := negotiates.answered _ rfl
  obtain rfl := mem_authprotos known
  have start := congrArg (List.take 5) same
  rw [List.take_left' (by decide +kernel)] at start
  exact absurd start (by decide +kernel)

end Npfs.P9any
