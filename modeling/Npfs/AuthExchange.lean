import Mathlib.Data.List.TakeWhile
import Npfs.AuthProtocol

/-!
# Consecutive authentications

An exchange of p9any and p9sk1 between the honest parties, step by step. The client counts its
exchanges in `gen` and sends the count; the server expects the count of a new `struct authstate`,
which is zero.
-/

namespace Npfs.P9sk1

open P9sk1.Exchange hiding orErr

/-! ## Running the client -/

section Running

variable {α β : Type} {x : Exchange α} {f : α → Exchange β} {s s' : Authstate}

/-- The client does not get past this point. -/
def Exchange.Fails (x : Exchange α) (s : Authstate) : Prop :=
  ∃ trouble s', x s = (.error trouble, s')

theorem bind_gives {a : α} (gives : x s = (.ok a, s')) : (x >>= f) s = f a s' := by
  simp only [Bind.bind, gives]

theorem Exchange.Fails.bind (fails : x.Fails s) : (x >>= f).Fails s := by
  obtain ⟨trouble, s', fails⟩ := fails
  refine ⟨trouble, s', ?_⟩
  simp only [Bind.bind, fails]

theorem Exchange.Fails.after {a : α} (gives : x s = (.ok a, s')) (fails : (f a).Fails s') :
    (x >>= f).Fails s := by
  rw [Exchange.Fails, bind_gives gives]
  exact fails

theorem orErr_gives {a : α} {msg : CStr} {no : UInt32} (gives : x s = (.ok a, s')) :
    Exchange.orErr x msg no s = (.ok a, s') := by
  rw [Exchange.orErr, gives]
  rfl

theorem Exchange.Fails.orErr {msg : CStr} {no : UInt32} (fails : x.Fails s) :
    (Exchange.orErr x msg no).Fails s := by
  obtain ⟨trouble, s', fails⟩ := fails
  rw [Exchange.Fails, Exchange.orErr, fails]
  cases trouble with
  | failed error => exact ⟨_, _, rfl⟩
  | undefined => exact ⟨_, _, rfl⟩

theorem lift_fails {trouble : Trouble} : (lift (.error trouble : Attempt α)).Fails s :=
  ⟨trouble, s, rfl⟩

end Running

/-! ## The auth fid -/

/-- The server has an answer that was not read. -/
def speaking (a : Npsrvauth) (resp : List UInt8) : Authstate :=
  { state := a, readbuf := resp, readcnt := resp.length }

/-- The answer of the server was read. -/
def listening (a : Npsrvauth) (resp : List UInt8) : Authstate :=
  { state := a, readbuf := resp, readcnt := 0 }

theorem listening_state (a : Npsrvauth) (resp : List UInt8) : (listening a resp).state = a := rfl

/-- The bytes that a message can carry. -/
def Parties.room (p : Parties) : Nat := p.msize.toNat - IOHDRSZ.toNat

section Reading

variable {p : Parties} {a : Npsrvauth} {resp : List UInt8} {sz : Nat}

/-- The count of a `Tread` or a `Twrite`. -/
theorem capped (small : sz ≤ 141) (most : 24 ≤ p.msize.toNat) {c : UInt32}
    (same : c = if UInt32.ofNat sz > p.msize - IOHDRSZ then p.msize - IOHDRSZ
      else UInt32.ofNat sz) :
    c.toNat = min sz p.room ∧ ¬ c + IOHDRSZ > p.msize := by
  have header : IOHDRSZ.toNat = 24 := rfl
  have whole : (UInt32.ofNat sz).toNat = sz :=
    UInt32.toNat_ofNat_of_lt' (by simp [UInt32.size]; omega)
  have rest : (p.msize - IOHDRSZ).toNat = p.msize.toNat - 24 :=
    UInt32.toNat_sub_of_le _ _ (UInt32.le_iff_toNat_le.mpr most)
  have count : c.toNat = min sz p.room := by
    rw [same, Parties.room, header]
    split
    · rename_i above
      have above : (p.msize - IOHDRSZ).toNat < (UInt32.ofNat sz).toNat := above
      omega
    · rename_i within
      have within : ¬ (p.msize - IOHDRSZ).toNat < (UInt32.ofNat sz).toNat := within
      omega
  refine ⟨count, fun above => ?_⟩
  have above : p.msize.toNat < (c + IOHDRSZ).toNat := above
  rw [UInt32.toNat_add, count, header, Parties.room, header] at above
  omega

theorem npcRead_gives (fits : resp.length ≤ sz) (small : sz ≤ 141) (roomy : resp.length ≤ p.room)
    (some : resp ≠ []) :
    npcRead p (UInt32.ofNat sz) (speaking a resp) = (.ok resp, listening a resp) := by
  have positive : 0 < resp.length := List.length_pos_iff.mpr some
  have header : IOHDRSZ.toNat = 24 := rfl
  have most : 24 ≤ p.msize.toNat := by
    rw [Parties.room, header] at roomy
    omega
  obtain ⟨count, allowed⟩ := capped (p := p) small most rfl
  rw [npcRead]
  rw [if_neg allowed, readauth, if_neg]
  · rfl
  · rw [count]
    simp only [speaking]
    omega

theorem npcRead_fails (small : sz ≤ 141) (tight : p.room < resp.length)
    (bounded : resp.length < 2 ^ 31) : (npcRead p (UInt32.ofNat sz)).Fails (speaking a resp) := by
  have header : IOHDRSZ.toNat = 24 := rfl
  rw [Exchange.Fails, npcRead]
  by_cases most : 24 ≤ p.msize.toNat
  · obtain ⟨count, allowed⟩ := capped (p := p) small most rfl
    rw [if_neg allowed, readauth, if_pos]
    · exact ⟨_, _, rfl⟩
    · rw [count]
      simp only [speaking]
      omega
  · have whole : (UInt32.ofNat sz).toNat = sz :=
      UInt32.toNat_ofNat_of_lt' (by simp [UInt32.size]; omega)
    have wrapped : (p.msize - IOHDRSZ).toNat = p.msize.toNat + 2 ^ 32 - 24 := by
      rw [UInt32.toNat_sub, header]
      omega
    have uncapped : ¬ UInt32.ofNat sz > p.msize - IOHDRSZ := by
      intro above
      have above : (p.msize - IOHDRSZ).toNat < (UInt32.ofNat sz).toNat := above
      omega
    have refused : UInt32.ofNat sz + IOHDRSZ > p.msize := by
      change p.msize.toNat < (UInt32.ofNat sz + IOHDRSZ).toNat
      rw [UInt32.toNat_add, whole, header]
      omega
    rw [if_neg uncapped, if_pos refused]
    exact ⟨_, _, rfl⟩

/-- A line of the server that fits into a message. -/
theorem getline0_gives {line : CStr} (fits : line.strlen < 128) (roomy : line.strlen < p.room) :
    getline0 p 128 (speaking a (line.bytes ++ [0])) =
      (.ok line.bytes, listening a (line.bytes ++ [0])) := by
  have length : (line.bytes ++ [0]).length = line.strlen + 1 := by simp [CStr.strlen]
  have read := @npcRead_gives p a (line.bytes ++ [0]) 128 (by omega)
    (by omega) (by omega) (by simp)
  have whole : CStr.at (line.bytes ++ [0]) = line := CStr.at_append line rfl
  rw [getline0, bind_gives read, whole, length, if_neg (by omega)]
  rfl

theorem getline0_fails {line : CStr} (short : line.strlen < 2 ^ 30) (tight : p.room ≤ line.strlen) :
    (getline0 p 128).Fails (speaking a (line.bytes ++ [0])) := by
  have length : (line.bytes ++ [0]).length = line.strlen + 1 := by simp [CStr.strlen]
  exact (npcRead_fails (by omega) (by omega) (by omega)).bind

theorem get_gives (fits : sz ≤ 141) (length : resp.length = sz) (roomy : sz ≤ p.room)
    (some : resp ≠ []) : get p sz (speaking a resp) = (.ok resp, listening a resp) := by
  have read := @npcRead_gives p a resp sz length.le fits (length ▸ roomy) some
  rw [get, bind_gives read, if_neg (fun both => both.2 length)]
  rfl

theorem get_fails (fits : sz ≤ 141) (length : resp.length = sz) (tight : p.room < sz) :
    (get p sz).Fails (speaking a resp) :=
  (npcRead_fails fits (length ▸ tight) (by omega)).bind

end Reading

section Writing

variable {des : Des} {p : Parties} {r : Rands} {a a' : Npsrvauth} {resp resp' data : List UInt8}

/-- What the server gets when a message has room for the data. -/
theorem npcWrite_eq (fits : data.length ≤ 141) (roomy : data.length ≤ p.room)
    (some : data ≠ []) :
    npcWrite des p r data (listening a resp) = writeauth des r.chs data (listening a resp) := by
  have positive : 0 < data.length := List.length_pos_iff.mpr some
  have header : IOHDRSZ.toNat = 24 := rfl
  have most : 24 ≤ p.msize.toNat := by
    rw [Parties.room, header] at roomy
    omega
  obtain ⟨count, -⟩ := capped (p := p) fits most rfl
  rw [npcWrite]
  change writeauth des r.chs (data.take (UInt32.toNat _)) _ = _
  rw [count, List.take_of_length_le (by omega)]

/-- The server answers what the client has sent. -/
theorem put_gives (fits : data.length ≤ 141) (roomy : data.length ≤ p.room) (some : data ≠ [])
    (unfinished : a.done = false) (answers : srvp9any des r.chs a data 256 = (.ok resp', a')) :
    put des p r data (listening a resp) = (.ok data.length, speaking a' resp') := by
  have wrote : npcWrite des p r data (listening a resp) = (.ok data.length, speaking a' resp') := by
    rw [npcWrite_eq fits roomy some, writeauth, if_neg (by simp [listening, unfinished])]
    rw [listening_state, answers]
    rfl
  rw [put, bind_gives wrote, if_neg (not_not_intro rfl)]
  rfl

/-- The server refuses what the client has sent. -/
theorem put_fails (fits : data.length ≤ 141) (roomy : data.length ≤ p.room) (some : data ≠ [])
    {trouble : Trouble} (refuses : srvp9any des r.chs a data 256 = (.error trouble, a')) :
    (put des p r data).Fails (listening a resp) := by
  apply Exchange.Fails.bind
  rw [Exchange.Fails, npcWrite_eq fits roomy some, writeauth]
  split
  · exact ⟨_, _, rfl⟩
  · rw [listening_state, refuses]
    exact ⟨_, _, rfl⟩

end Writing

/-! ## The server -/

section Server

variable {des : Des} (rand : Block) {a : Npsrvauth}

/-- What the server says first. -/
def hello (dom : CStr) : CStr :=
  ⟨(cstr "v.2 p9sk1@").bytes ++ dom.bytes, fun member =>
    (List.mem_append.mp member).elim (cstr "v.2 p9sk1@").noNul dom.noNul⟩

/-- What the client chooses. -/
def choice (dom : CStr) : CStr :=
  ⟨(cstr "p9sk1 ").bytes ++ dom.bytes, fun member =>
    (List.mem_append.mp member).elim (cstr "p9sk1 ").noNul dom.noNul⟩

theorem getWord_append {sep : UInt8} {word rest : List UInt8} (apart : sep ∉ word) :
    getWord sep (word ++ sep :: rest) = (word, rest) := by
  have stays : ∀ b ∈ word, decide (b ≠ sep) = true := fun b member =>
    decide_eq_true fun same => apart (same ▸ member)
  simp only [getWord, Prod.mk.injEq]
  rw [List.takeWhile_append_of_pos stays, List.dropWhile_append_of_pos stays]
  simp

theorem getWord_whole {sep : UInt8} {text : List UInt8} (apart : sep ∉ text) :
    getWord sep text = (text, []) := by
  have stays : ∀ b ∈ text, decide (b ≠ sep) = true := fun b member =>
    decide_eq_true fun same => apart (same ▸ member)
  simp only [getWord, Prod.mk.injEq]
  rw [List.takeWhile_eq_self_iff.mpr stays, List.dropWhile_eq_nil_iff.mpr stays]
  simp

theorem srvp9any_chosen (state : a.state = 1) :
    srvp9any des rand a ((choice a.dom).bytes ++ [0]) 256 =
      (.ok ((cstr "OK").bytes ++ [0]), { a with state := 2 }) := by
  have line : CStr.at ((choice a.dom).bytes ++ [0]) = choice a.dom := CStr.at_append _ rfl
  have first : getWord 0x20 (choice a.dom).bytes = ((cstr "p9sk1").bytes, a.dom.bytes) := by
    have split : (choice a.dom).bytes = (cstr "p9sk1").bytes ++ 0x20 :: a.dom.bytes := rfl
    rw [split, getWord_append (by decide)]
  have second : getWord 0 a.dom.bytes = (a.dom.bytes, []) := getWord_whole a.dom.noNul
  have answer : chosen a ((choice a.dom).bytes ++ [0]) 256 = .ok ((cstr "OK").bytes ++ [0]) := by
    simp only [chosen, line, first, second]
    rw [if_neg (by simp [CStr.strlen]), if_neg (by simp), if_neg (by decide)]
    rfl
  simp only [srvp9any, state, answer]

/-- The ticket request of the server. -/
def Npsrvauth.treq (a : Npsrvauth) (chs : Block) : Ticketreq :=
  { type := AuthTreq, ids := a.ids, dom := a.dom, ch := chs, idc := cstr "", idr := cstr "" }

theorem srvp9any_challenge (state : a.state = 2) (chc : Block) {treqbuf : List UInt8}
    (encodes : encTicketReq (a.treq rand) = .ok treqbuf) :
    srvp9any des rand a chc.toList 256 =
      (.ok treqbuf, { a with chc, chs := rand, state := 3 }) := by
  have sized : chc.toList.length = 8 := chc.2
  simp only [Npsrvauth.treq] at encodes
  simp only [srvp9any, state, srvp9sk1, sized, encodes]
  rfl

/-- The server looks at the ticket, at both challenges and at the count of the client. -/
theorem openTicket_eq {stickbuf sealed : List UInt8} {tick : Ticket} {gen : Int32}
    (length : stickbuf.length = 72) (opens : decTicket des stickbuf a.key = .ok tick)
    (ticket : tick.type = AuthTs) (challenge : tick.ch = a.chs)
    (authenticates : decAuth des sealed tick.key = .ok { type := AuthAc, ch := a.chs, gen }) :
    openTicket des a (stickbuf ++ sealed) =
      if gen = a.gen then .ok (tick, { type := AuthAc, ch := a.chs, gen }) else minusOne := by
  rw [openTicket, List.take_left' length, List.drop_left' length, opens]
  simp only [bind, Except.bind, ticket, challenge, authenticates]
  by_cases same : gen = a.gen
  · simp [same, pure, Except.pure]
  · simp [same]

/-- The server after it has accepted the ticket. -/
def Npsrvauth.finished (a : Npsrvauth) (tick : Ticket) : Npsrvauth :=
  { a with idc := some tick.idc, idr := some tick.idr, state := 4, done := true }

theorem srvp9any_ticket (state : a.state = 3) {msg resp : List UInt8} {tick : Ticket} {auth : Auth}
    (sized : msg.length = 85) (opens : openTicket des a msg = .ok (tick, auth))
    (answers : encAuth des { type := AuthAs, ch := a.chc, gen := a.gen } tick.key = .ok resp) :
    srvp9any des rand a msg 256 = (.ok resp, a.finished tick) := by
  obtain ⟨_, gen, done, chc, chs, ids, dom, key, idc, idr⟩ := a
  obtain rfl : _ = 3 := state
  have opens : openTicket des ⟨2, gen, done, chc, chs, ids, dom, key, idc, idr⟩ msg =
      .ok (tick, auth) := opens
  simp only [srvp9any, srvp9sk1, sized, opens, orErr_ok, answers]
  rfl

theorem srvp9any_refuses (state : a.state = 3) {msg : List UInt8} (sized : msg.length = 85)
    (refuses : openTicket des a msg = minusOne) :
    ∃ trouble a', srvp9any des rand a msg 256 = (.error trouble, a') := by
  obtain ⟨_, gen, done, chc, chs, ids, dom, key, idc, idr⟩ := a
  obtain rfl : _ = 3 := state
  have refuses : openTicket des ⟨2, gen, done, chc, chs, ids, dom, key, idc, idr⟩ msg =
      minusOne := refuses
  simp only [srvp9any, srvp9sk1, sized, refuses]
  exact ⟨_, _, rfl⟩

end Server

/-! ## The parties -/

/-- The names fit into their fields, and the parties share their keys and the domain with the ticket
server. -/
structure Parties.Honest (p : Parties) (key : Key) : Prop where
  uname : p.uname.strlen ≤ 27
  ids : p.ids.strlen ≤ 27
  dom : p.dom.strlen ≤ 47
  spaces : 0x20 ∉ p.dom.bytes
  client : ∃ u, findUser p.users p.uname = some u ∧ u.key = key
  server : ∃ u, findUser p.users p.ids = some u ∧ u.key = p.key
  authdom : p.authdom = p.dom

section Honest

variable {des : Des} {p : Parties} {r : Rands} {a : Npcauth}

/-- The state of the server before the client has said anything. -/
def Parties.fresh (p : Parties) : Npsrvauth where
  state := 1
  gen := 0
  done := false
  chc := List.Vector.replicate 8 0
  chs := List.Vector.replicate 8 0
  ids := p.ids
  dom := p.dom
  key := p.key
  idc := none
  idr := none

/-- The state of the server when the protocol is chosen. -/
def Parties.agreed (p : Parties) : Npsrvauth := { p.fresh with state := 2 }

/-- The state of the server when it has given its challenge. -/
def Parties.challenged (p : Parties) (r : Rands) : Npsrvauth :=
  { p.fresh with chc := r.chc, chs := r.chs, state := 3 }

theorem newAuthState_eq (short : p.dom.strlen ≤ 47) : newAuthState des p.ids p.dom p.key =
    speaking p.fresh ((hello p.dom).bytes ++ [0]) := by
  have room : ¬ (256 < p.dom.strlen + 32) := by omega
  simp only [newAuthState, srvp9any, List.length_nil, ne_eq, not_true_eq_false, false_or, room,
    if_false]
  rfl

theorem strlen_hello (dom : CStr) : (hello dom).strlen = dom.strlen + 10 := by
  simp only [hello, CStr.strlen, List.length_append]
  rw [show (cstr "v.2 p9sk1@").bytes.length = 10 from rfl]
  omega

theorem strlen_choice (dom : CStr) : (choice dom).strlen = dom.strlen + 6 := by
  simp only [choice, CStr.strlen, List.length_append]
  rw [show (cstr "p9sk1 ").bytes.length = 6 from rfl]
  omega

/-- The client takes the protocol and the domain from the line of the server. -/
theorem firstProto_hello (spaces : 0x20 ∉ p.dom.bytes) :
    firstProto ((cstr "p9sk1@").bytes ++ p.dom.bytes) =
      some ((cstr "p9sk1").bytes, p.dom.bytes) := by
  have apart : (0x20 : UInt8) ∉ (cstr "p9sk1@").bytes ++ p.dom.bytes := fun member =>
    (List.mem_append.mp member).elim (by decide) spaces
  have split : (cstr "p9sk1@").bytes ++ p.dom.bytes =
      (cstr "p9sk1").bytes ++ 0x40 :: p.dom.bytes := rfl
  rw [firstProto, if_neg (by simp [cstr]), getWord_whole apart]
  simp only [split]
  rw [getWord_append (by decide)]
  simp only
  rw [getWord_whole p.dom.noNul]

/-- The protocol is chosen. -/
theorem authp9any_agrees (honest : p.Honest a.key) (roomy : (hello p.dom).strlen < p.room) :
    authp9any des p r a (newAuthState des p.ids p.dom p.key) =
      authp9sk1 des p r a (listening p.agreed ((cstr "OK").bytes ++ [0])) := by
  have short := honest.dom
  have greeting := strlen_hello p.dom
  have choosing := strlen_choice p.dom
  have line : (hello p.dom).bytes = (cstr "v.2 ").bytes ++ ((cstr "p9sk1@").bytes ++ p.dom.bytes) :=
    rfl
  have prefixed : (cstr "v.2 ").bytes.isPrefixOf (hello p.dom).bytes = true := by
    rw [line]
    exact List.isPrefixOf_iff_prefix.mpr (List.prefix_append _ _)
  have behind : (hello p.dom).bytes.drop 4 = (cstr "p9sk1@").bytes ++ p.dom.bytes := by
    rw [line]
    exact List.drop_left' rfl
  have greeted := @getline0_gives p p.fresh (hello p.dom) (by omega) roomy
  have length : (choice p.dom).bytes.length = p.dom.strlen + 6 := choosing
  have chose := @put_gives des p r p.fresh p.agreed ((hello p.dom).bytes ++ [0]) _
    ((choice p.dom).bytes ++ [0]) (by simp; omega) (by simp; omega) (by simp) rfl
    (srvp9any_chosen r.chs rfl)
  have wrote : putline0 des p r ((cstr "p9sk1").bytes ++ 0x20 :: p.dom.bytes)
      (listening p.fresh ((hello p.dom).bytes ++ [0])) =
        (.ok ((choice p.dom).bytes ++ [0]).length,
          speaking p.agreed ((cstr "OK").bytes ++ [0])) := by
    rw [putline0, if_neg (by simp [cstr, CStr.strlen] at *; omega)]
    exact chose
  have agreed := @getline0_gives p p.agreed (cstr "OK") (by decide)
    (by rw [show (cstr "OK").strlen = 2 from rfl]; omega)
  rw [authp9any, newAuthState_eq honest.dom, bind_gives (orErr_gives greeted)]
  simp only [prefixed, if_true, behind, firstProto_hello honest.spaces]
  have sent : Exchange.orErr
      (positive (putline0 des p r ((cstr "p9sk1").bytes ++ 0x20 :: p.dom.bytes)))
      (cstr "botch") EINVAL (listening p.fresh ((hello p.dom).bytes ++ [0])) =
        (.ok (), speaking p.agreed ((cstr "OK").bytes ++ [0])) := by
    apply orErr_gives
    rw [positive, bind_gives wrote, if_neg (by simp)]
    rfl
  rw [bind_gives sent, bind_gives (orErr_gives agreed)]
  simp only [ne_eq, not_true_eq_false, if_false]

/-- The line of the server does not fit into a message. -/
theorem authp9any_cramped (honest : p.Honest a.key) (tight : p.room ≤ (hello p.dom).strlen) :
    (authp9any des p r a).Fails (newAuthState des p.ids p.dom p.key) := by
  have short := honest.dom
  have greeting := strlen_hello p.dom
  rw [newAuthState_eq honest.dom]
  exact (getline0_fails (by omega) tight).orErr.bind

/-! ## The tickets -/

/-- The ticket request that the client sends on. -/
def Parties.request (p : Parties) (r : Rands) : Ticketreq :=
  { type := AuthTreq, ids := p.ids, dom := p.dom, ch := r.chs, idc := p.uname, idr := p.uname }

/-- The tickets of the client and of the server, but for their type. -/
def Parties.ticket (p : Parties) (r : Rands) (type : UInt8) : Ticket :=
  { type, ch := r.chs, idc := p.uname, idr := p.uname, key := r.kn }

theorem getKey_found {users : List Ident} {garbage key : Key} {user : CStr}
    (known : ∃ u, findUser users user = some u ∧ u.key = key) :
    getKey users garbage user = key := by
  obtain ⟨u, found, same⟩ := known
  rw [getKey, found]
  exact same

/-- The ticket server grants a request of the honest client. -/
theorem serv1_eq (honest : p.Honest a.key) {treqbuf : List UInt8}
    (decodes : decTicketReq treqbuf = .ok (p.request r)) :
    serv1 des p.users p.authdom r treqbuf = (do
      let ctick ← encTicket des (p.ticket r AuthTc) a.key
      let stick ← encTicket des (p.ticket r AuthTs) p.key
      return AuthOK :: (ctick ++ stick)) := by
  rw [serv1, decodes]
  change (if _ then _ else _) = _
  rw [if_neg (by simp [Parties.request, honest.authdom])]
  simp only [Parties.request, getKey_found honest.client, getKey_found honest.server,
    Parties.ticket]

theorem request_encodes (honest : p.Honest a.key) : ∃ treqbuf,
    encTicketReq (p.request r) = .ok treqbuf ∧ decTicketReq treqbuf = .ok (p.request r) := by
  have uname := honest.uname
  have ids := honest.ids
  have dom := honest.dom
  obtain ⟨treqbuf, encodes, -, decodes⟩ := encTicketReq_fits (r := p.request r)
    ⟨Nat.lt_succ_of_le ids, Nat.lt_succ_of_le dom, Nat.lt_succ_of_le uname, Nat.lt_succ_of_le uname⟩
  exact ⟨treqbuf, encodes, decodes⟩

/-- The client gets both tickets. -/
theorem getTicket_grants (honest : p.Honest a.key) (client : des.Accepts a.key)
    (server : des.Accepts p.key) : ∃ ctickbuf stickbuf,
      getTicket des p r (p.request r) = .ok (ctickbuf, stickbuf) ∧ stickbuf.length = 72 ∧
        decTicket des ctickbuf a.key = .ok (p.ticket r AuthTc) ∧
          decTicket des stickbuf p.key = .ok (p.ticket r AuthTs) := by
  have uname := Nat.lt_succ_of_le honest.uname
  obtain ⟨treqbuf, encodes, decodes⟩ := request_encodes (r := r) honest
  obtain ⟨ctick, sealed, length, opens⟩ :=
    encTicket_fits (r := p.ticket r AuthTc) client uname uname
  obtain ⟨stick, sealed', length', opens'⟩ :=
    encTicket_fits (r := p.ticket r AuthTs) server uname uname
  have reply : serv1 des p.users p.authdom r treqbuf = .ok (AuthOK :: (ctick ++ stick)) := by
    rw [serv1_eq honest decodes, sealed, sealed']
    rfl
  refine ⟨ctick, stick, ?_, length', opens, opens'⟩
  rw [getTicket, encodes]
  simp only [bind, Except.bind, reply]
  rw [if_neg (by simp [length, length'])]
  simp [pure, Except.pure, length, List.take_left' length, List.drop_append]

/-- The ticket server cannot seal a ticket. -/
theorem getTicket_refused (honest : p.Honest a.key)
    (refuses : ¬ des.Accepts a.key ∨ ¬ des.Accepts p.key) :
    ∃ trouble, getTicket des p r (p.request r) = .error trouble := by
  have uname := Nat.lt_succ_of_le honest.uname
  obtain ⟨treqbuf, encodes, decodes⟩ := request_encodes (r := r) honest
  have refused : serv1 des p.users p.authdom r treqbuf = .error .undefined := by
    rw [serv1_eq honest decodes]
    by_cases client : des.Accepts a.key
    · have server := refuses.resolve_left (not_not_intro client)
      obtain ⟨ctick, sealed, -⟩ := encTicket_fits (r := p.ticket r AuthTc) client uname uname
      rw [sealed, encTicket_refused server uname uname]
      rfl
    · rw [encTicket_refused client uname uname]
      rfl
  exact ⟨.undefined, by rw [getTicket, encodes]; simp only [bind, Except.bind, refused]; rfl⟩

/-! ## The exchange -/

theorem treq_fits (honest : p.Honest a.key) : (p.agreed.treq r.chs).Fits where
  ids := Nat.lt_succ_of_le honest.ids
  dom := Nat.lt_succ_of_le honest.dom
  idc := Nat.succ_pos 27
  idr := Nat.succ_pos 27

/-- The client has read the ticket request of the server. -/
theorem challenge_gives (honest : p.Honest a.key) (roomy : 141 ≤ p.room) : ∃ treqbuf s,
    putChallenge des p r (listening p.agreed ((cstr "OK").bytes ++ [0])) = (.ok (), s) ∧
      getTicketReq p s =
        (.ok (p.agreed.treq r.chs), listening (p.challenged r) treqbuf) := by
  obtain ⟨treqbuf, encodes, length, decodes⟩ := encTicketReq_fits (treq_fits (r := r) honest)
  have sized : r.chc.toList.length = 8 := r.chc.2
  have some : r.chc.toList ≠ [] := List.length_pos_iff.mp (by omega)
  have put := @put_gives des p r p.agreed _ ((cstr "OK").bytes ++ [0]) _ _ (by omega) (by omega) some rfl
    (srvp9any_challenge r.chs rfl r.chc encodes)
  have read := get_gives (p := p) (a := p.challenged r) le_rfl length roomy
    (List.length_pos_iff.mp (by omega))
  refine ⟨treqbuf, speaking (p.challenged r) treqbuf, orErr_gives ?_, orErr_gives ?_⟩
  · rw [positive, bind_gives put, if_neg (by omega)]
    rfl
  · have decoded : lift (decTicketReq treqbuf) (listening (p.challenged r) treqbuf) =
        (.ok (p.agreed.treq r.chs), listening (p.challenged r) treqbuf) := by
      rw [decodes]
      rfl
    rw [bind_gives read, if_neg (by omega), bind_gives decoded]
    rfl

/-- The ticket request of the server does not fit into a message. -/
theorem challenge_cramped (honest : p.Honest a.key) (eight : 8 ≤ p.room) (tight : p.room < 141) :
    ∃ s, putChallenge des p r (listening p.agreed ((cstr "OK").bytes ++ [0])) = (.ok (), s) ∧
      (getTicketReq p).Fails s := by
  obtain ⟨treqbuf, encodes, length, -⟩ := encTicketReq_fits (treq_fits (r := r) honest)
  have sized : r.chc.toList.length = 8 := r.chc.2
  have some : r.chc.toList ≠ [] := List.length_pos_iff.mp (by omega)
  have put := @put_gives des p r p.agreed _ ((cstr "OK").bytes ++ [0]) _ _ (by omega) (by omega) some rfl
    (srvp9any_challenge r.chs rfl r.chc encodes)
  refine ⟨speaking (p.challenged r) treqbuf, orErr_gives ?_, ?_⟩
  · rw [positive, bind_gives put, if_neg (by omega)]
    rfl
  · exact (get_fails le_rfl length tight).bind.orErr

/-- The client's part once it has both tickets. -/
theorem authp9sk1_granted (honest : p.Honest a.key) (roomy : 141 ≤ p.room)
    (client : des.Accepts a.key) (server : des.Accepts p.key) :
    ∃ treqbuf stickbuf, stickbuf.length = 72 ∧
      decTicket des stickbuf p.key = .ok (p.ticket r AuthTs) ∧
        authp9sk1 des p r a (listening p.agreed ((cstr "OK").bytes ++ [0])) =
          authenticate des p r a stickbuf r.chs r.kn (listening (p.challenged r) treqbuf) := by
  obtain ⟨treqbuf, s, sent, received⟩ := @challenge_gives des p r a honest roomy
  obtain ⟨ctickbuf, stickbuf, grants, length, opens, opens'⟩ :=
    getTicket_grants (r := r) honest client server
  refine ⟨treqbuf, stickbuf, length, opens', ?_⟩
  have granted (s : Authstate) : lift (getTicket des p r
      { p.agreed.treq r.chs with idc := p.uname, idr := p.uname }) s =
        (.ok (ctickbuf, stickbuf), s) := congrArg (·, s) grants
  have opened (s : Authstate) :
      lift (orErr (decTicket des ctickbuf a.key) (cstr "botch") EINVAL) s =
        (.ok (p.ticket r AuthTc), s) := by
    rw [opens]
    rfl
  rw [authp9sk1, bind_gives sent, bind_gives received, bind_gives (granted _),
    bind_gives (opened _)]
  exact congrFun (if_neg (not_not_intro rfl)) _

/-- The client's part when it does not come to have both tickets. -/
theorem authp9sk1_stops (honest : p.Honest a.key) (eight : 8 ≤ p.room)
    (lacks : p.room < 141 ∨ ¬ des.Accepts a.key ∨ ¬ des.Accepts p.key) :
    (authp9sk1 des p r a).Fails (listening p.agreed ((cstr "OK").bytes ++ [0])) := by
  by_cases roomy : 141 ≤ p.room
  · have refuses := lacks.resolve_left (by omega)
    obtain ⟨treqbuf, s, sent, received⟩ := @challenge_gives des p r a honest roomy
    obtain ⟨trouble, refused⟩ := @getTicket_refused des p r a honest refuses
    have stops : (lift (getTicket des p r
        { p.agreed.treq r.chs with idc := p.uname, idr := p.uname })).Fails
          (listening (p.challenged r) treqbuf) :=
      ⟨trouble, _, congrArg (·, listening (p.challenged r) treqbuf) refused⟩
    exact .after sent (.after received stops.bind)
  · obtain ⟨s, sent, stops⟩ := @challenge_cramped des p r a honest eight (by omega)
    exact .after sent stops.bind

/-- The client sends the ticket of the server and an authenticator that it has sealed. -/
theorem putAuth_sealed {stickbuf sealed : List UInt8} {auth : Auth} {key : Key} {s : Authstate}
    (seals : encAuth des auth key = .ok sealed) :
    putAuth des p r stickbuf auth key s = Exchange.orErr (do
      let _ ← put des p r (stickbuf ++ sealed)
      return stickbuf ++ sealed) (cstr "botch") EINVAL s := by
  have first (s : Authstate) : lift (encAuth des auth key) s = (.ok sealed, s) :=
    congrArg (·, s) seals
  rw [putAuth, Exchange.orErr, bind_gives (first s)]
  rfl

/-- What an exchange needs: room for the ticket request, keys that DES takes, and a client that has
not counted an exchange. -/
structure Able (des : Des) (p : Parties) (r : Rands) (a : Npcauth) : Prop where
  roomy : 141 ≤ p.room
  client : des.Accepts a.key
  server : des.Accepts p.key
  nonce : des.Accepts r.kn
  gen : a.gen = 0

/-- An exchange is completed without error: the server is done and knows the user, and the client
has taken the server's authenticator for its challenge. -/
structure Completed (des : Des) (p : Parties) (r : Rands) (out : Attempt Npcauth × Authstate) :
    Prop where
  accepted : ∃ a', out.1 = .ok a'
  done : out.2.state.done = true
  idr : out.2.state.idr = some p.uname
  verified : ∃ gen, decAuth des out.2.readbuf r.kn = .ok { type := AuthAs, ch := r.chc, gen }

/-- The server checks the ticket and the authenticator of an honest client. -/
theorem openTicket_honest {stickbuf sealed : List UInt8} (length : stickbuf.length = 72)
    (opens : decTicket des stickbuf p.key = .ok (p.ticket r AuthTs)) {gen : Int32}
    (authenticates : decAuth des sealed r.kn =
      .ok { type := AuthAc, ch := r.chs, gen := dec4 (enc4 gen) }) :
    openTicket des (p.challenged r) (stickbuf ++ sealed) =
      if gen = 0 then .ok (p.ticket r AuthTs, { type := AuthAc, ch := r.chs, gen := 0 })
      else minusOne := by
  have opens : decTicket des stickbuf (p.challenged r).key = .ok (p.ticket r AuthTs) := opens
  have same : (p.challenged r).gen = 0 := rfl
  rw [openTicket_eq length opens rfl rfl authenticates, same]
  by_cases zero : gen = 0
  · rw [zero]
    rfl
  · rw [if_neg (fun equal => zero (dec4_enc4_eq_zero.mp equal)), if_neg zero]

/-- The end of an exchange with a server that expects the count of the client. -/
theorem authenticate_gives (able : Able des p r a) (treqbuf : List UInt8) {stickbuf : List UInt8}
    (length : stickbuf.length = 72)
    (opens : decTicket des stickbuf p.key = .ok (p.ticket r AuthTs)) : ∃ resp,
      decAuth des resp r.kn = .ok { type := AuthAs, ch := r.chc, gen := 0 } ∧
        authenticate des p r a stickbuf r.chs r.kn (listening (p.challenged r) treqbuf) =
          (.ok { a with gen := a.gen + 1 },
            listening ((p.challenged r).finished (p.ticket r AuthTs)) resp) := by
  obtain ⟨roomy, -, -, nonce, gen⟩ := able
  obtain ⟨sealed, seals, length', authenticates⟩ :=
    encAuth_accepted (r := { type := AuthAc, ch := r.chs, gen := a.gen }) nonce
  obtain ⟨resp, answers, length'', verifies⟩ :=
    encAuth_accepted (r := { type := AuthAs, ch := r.chc, gen := 0 }) nonce
  have zero : dec4 (enc4 0) = 0 := dec4_enc4_eq_zero.mpr rfl
  simp only [zero] at verifies
  have total : (stickbuf ++ sealed).length = 85 := by simp [length, length']
  have opened := openTicket_honest length opens authenticates
  rw [if_pos gen] at opened
  have served := srvp9any_ticket r.chs rfl total opened answers
  have put := @put_gives des p r _ _ treqbuf _ _ (by omega) (by omega)
    (List.length_pos_iff.mp (by omega)) rfl served
  have read := @get_gives p ((p.challenged r).finished (p.ticket r AuthTs)) resp 13
    (by omega) length'' (by omega) (List.length_pos_iff.mp (by omega))
  have sent : putAuth des p r stickbuf { type := AuthAc, ch := r.chs, gen := a.gen } r.kn
      (listening (p.challenged r) treqbuf) = (.ok (stickbuf ++ sealed),
        speaking ((p.challenged r).finished (p.ticket r AuthTs)) resp) := by
    rw [putAuth_sealed seals]
    apply orErr_gives
    rw [bind_gives put]
    rfl
  have received : getAuth des p (stickbuf ++ sealed) r.kn
      (speaking ((p.challenged r).finished (p.ticket r AuthTs)) resp) =
        (.ok { type := AuthAs, ch := r.chc, gen := 0 },
          listening ((p.challenged r).finished (p.ticket r AuthTs)) resp) := by
    apply orErr_gives
    rw [bind_gives read, List.take_left' length'', verifies]
    rfl
  refine ⟨resp, verifies, ?_⟩
  rw [authenticate, bind_gives sent, bind_gives received, if_neg (by simp [gen])]
  rfl

/-- An exchange that has what it needs. -/
theorem authentication_eq (honest : p.Honest a.key) (able : Able des p r a) : ∃ resp,
    decAuth des resp r.kn = .ok { type := AuthAs, ch := r.chc, gen := 0 } ∧
      authentication des p r a = (.ok { a with gen := a.gen + 1 },
        listening ((p.challenged r).finished (p.ticket r AuthTs)) resp) := by
  have greeting := strlen_hello p.dom
  have short := honest.dom
  have roomy := able.roomy
  obtain ⟨treqbuf, stickbuf, length, opens, granted⟩ :=
    authp9sk1_granted (r := r) honest able.roomy able.client able.server
  obtain ⟨resp, verifies, finished⟩ := authenticate_gives able treqbuf length opens
  refine ⟨resp, verifies, ?_⟩
  rw [authentication, authp9any_agrees honest (by omega), granted, finished]

/-- The server refuses a client that has counted, and a key that DES does not take stops the
client. -/
theorem authenticate_fails (roomy : 141 ≤ p.room) (unable : des.Accepts r.kn → a.gen ≠ 0)
    {treqbuf stickbuf : List UInt8} (length : stickbuf.length = 72)
    (opens : decTicket des stickbuf p.key = .ok (p.ticket r AuthTs)) :
    (authenticate des p r a stickbuf r.chs r.kn).Fails (listening (p.challenged r) treqbuf) := by
  apply Exchange.Fails.bind
  by_cases nonce : des.Accepts r.kn
  · obtain ⟨sealed, seals, length', authenticates⟩ :=
      encAuth_accepted (r := { type := AuthAc, ch := r.chs, gen := a.gen }) nonce
    have total : (stickbuf ++ sealed).length = 85 := by simp [length, length']
    have opened := openTicket_honest length opens authenticates
    rw [if_neg (unable nonce)] at opened
    obtain ⟨trouble, a', refuses⟩ := srvp9any_refuses r.chs rfl total opened
    rw [Exchange.Fails, putAuth_sealed seals]
    exact (put_fails (by omega) (by omega) (List.length_pos_iff.mp (by omega)) refuses).bind.orErr
  · have refused : encAuth des { type := AuthAc, ch := r.chs, gen := a.gen } r.kn =
        .error .undefined := encrypt_refused (n := 13) nonce (by omega)
    apply Exchange.Fails.orErr
    rw [refused]
    exact lift_fails.bind

/-- An exchange that lacks what it needs. -/
theorem authentication_fails (honest : p.Honest a.key) (unable : ¬ Able des p r a) :
    (authp9any des p r a).Fails (newAuthState des p.ids p.dom p.key) := by
  have greeting := strlen_hello p.dom
  by_cases roomy : (hello p.dom).strlen < p.room
  · rw [Exchange.Fails, authp9any_agrees honest roomy]
    by_cases granted : 141 ≤ p.room ∧ des.Accepts a.key ∧ des.Accepts p.key
    · obtain ⟨wide, client, server⟩ := granted
      obtain ⟨treqbuf, stickbuf, length, opens, granted⟩ :=
        authp9sk1_granted (r := r) honest wide client server
      rw [granted]
      exact authenticate_fails wide (fun nonce gen => unable ⟨wide, client, server, nonce, gen⟩)
        length opens
    · apply authp9sk1_stops honest (by omega)
      by_contra all
      simp only [not_or, not_not, not_lt] at all
      exact granted all
  · exact authp9any_cramped honest (by omega)

/-- An exchange is completed if and only if it has what it needs. -/
theorem completed_iff (honest : p.Honest a.key) :
    Completed des p r (authentication des p r a) ↔ Able des p r a := by
  constructor
  · intro completed
    by_contra unable
    obtain ⟨trouble, s, fails⟩ := authentication_fails honest unable
    obtain ⟨a', accepted⟩ := completed.accepted
    rw [authentication, fails] at accepted
    cases accepted
  · intro able
    obtain ⟨resp, verifies, finished⟩ := authentication_eq honest able
    rw [finished]
    exact ⟨⟨_, rfl⟩, rfl, rfl, 0, verifies⟩

/-- The count of the client has moved on. -/
theorem second_unable (able : Able des p r a) {r' : Rands} :
    ¬ Able des p r' { a with gen := a.gen + 1 } := by
  intro able'
  have first := able.gen
  have second : a.gen + 1 = 0 := able'.gen
  rw [first] at second
  exact absurd second (by decide)

/-- The exchanges that honest parties complete: none, or a first one. -/
theorem authentications_complete_iff (honest : p.Honest a.key) (rs : List Rands) :
    List.Forall₂ (Completed des p) rs (authentications des p rs a) ↔
      rs = [] ∨ ∃ r, rs = [r] ∧ Able des p r a := by
  cases rs with
  | nil => simp [authentications]
  | cons r rs =>
      rw [authentications, List.forall₂_cons, completed_iff honest]
      constructor
      · rintro ⟨able, rest⟩
        obtain ⟨resp, -, finished⟩ := authentication_eq honest able
        cases rs with
        | nil => exact .inr ⟨r, rfl, able⟩
        | cons r' rs =>
            simp only [finished, authentications, List.forall₂_cons] at rest
            have honest' : p.Honest ({ a with gen := a.gen + 1 } : Npcauth).key := honest
            exact absurd ((completed_iff honest').mp rest.1) (second_unable able)
      · rintro (none | ⟨r', one, able⟩)
        · exact absurd none (List.cons_ne_nil r rs)
        · obtain ⟨rfl, rfl⟩ := List.cons.inj one
          exact ⟨able, .nil⟩

end Honest

/-! ## Two exchanges with one client -/

/-- A cipher that adds the key to the block. -/
def Des.adding : Des where
  Schedule := Block
  setOddParity := id
  setKeyChecked key := some key
  ecbEncrypt key := Function.Involutive.toPerm (List.Vector.map₂ (· ^^^ ·) key) fun block => by
    apply List.Vector.ext
    intro i
    simp [← UInt8.xor_assoc]

/-- A user and a server that the ticket server knows. -/
def Parties.known : Parties where
  uname := cstr "root"
  ids := cstr "bin"
  dom := cstr "testdom.com"
  key := List.Vector.replicate 7 2
  users := [⟨cstr "root", List.Vector.replicate 7 1⟩, ⟨cstr "bin", List.Vector.replicate 7 2⟩]
  authdom := cstr "testdom.com"
  msize := 8216

/-- The `Npcauth` of that user, which has not been used. -/
def Npcauth.unused : Npcauth := { key := List.Vector.replicate 7 1, gen := 0 }

/-- What `getRand` returns. -/
def Rands.sample : Rands where
  chc := List.Vector.replicate 8 3
  chs := List.Vector.replicate 8 4
  kn := List.Vector.replicate 7 5
  kc := List.Vector.replicate 7 6
  ks := List.Vector.replicate 7 7

theorem known_honest : Parties.known.Honest Npcauth.unused.key where
  uname := by decide
  ids := by decide
  dom := by decide
  spaces := by decide
  client := ⟨⟨cstr "root", List.Vector.replicate 7 1⟩, rfl, rfl⟩
  server := ⟨⟨cstr "bin", List.Vector.replicate 7 2⟩, rfl, rfl⟩
  authdom := rfl

theorem able_once : Able Des.adding Parties.known Rands.sample Npcauth.unused where
  roomy := by decide
  client := rfl
  server := rfl
  nonce := rfl
  gen := rfl

/-- The first exchange of the user is completed. -/
theorem authentications_complete_once : List.Forall₂ (Completed Des.adding Parties.known)
    [Rands.sample] (authentications Des.adding Parties.known [Rands.sample] Npcauth.unused) :=
  (authentications_complete_iff known_honest [Rands.sample]).mpr
    (.inr ⟨Rands.sample, rfl, able_once⟩)

/-- Of two exchanges of the user, the second fails. -/
theorem not_authentications_complete_twice : ¬ List.Forall₂ (Completed Des.adding Parties.known)
    [Rands.sample, Rands.sample]
    (authentications Des.adding Parties.known [Rands.sample, Rands.sample] Npcauth.unused) := by
  intro both
  obtain ⟨resp, -, finished⟩ :=
    authentication_eq known_honest able_once
  simp only [authentications, finished, List.forall₂_cons] at both
  have honest : Parties.known.Honest
      ({ Npcauth.unused with gen := Npcauth.unused.gen + 1 } : Npcauth).key := known_honest
  exact second_unable able_once ((completed_iff honest).mp both.2.1)

end Npfs.P9sk1
