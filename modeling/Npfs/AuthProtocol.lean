import Npfs.AuthMessages

/-!
# p9any and p9sk1

The server of `libnpauth/p9any.c`, `libnpauth/p9sk1.c` and `libnpauth/srv.c`, the client of the same
files with `libnpauth/help.c`, and the ticket server of `libnpauth/authsrv/authsrv.c`. What
`getRand` returns is an argument.
-/

namespace Npfs.P9sk1

/-- `getWord`: the word in front of a separator, and the text behind it. -/
def getWord (sep : UInt8) (text : List UInt8) : List UInt8 × List UInt8 :=
  (text.takeWhile (· ≠ sep), (text.dropWhile (· ≠ sep)).drop 1)

/-! ## The server -/

/-- `struct npsrvauth`. -/
structure Npsrvauth where
  state : Nat
  gen : Int32
  done : Bool
  chc : Block
  chs : Block
  ids : CStr
  dom : CStr
  key : Key
  idc : Option CStr
  idr : Option CStr

/-- What a server function returns: its result, and its state. -/
abbrev Served : Type := Attempt (List UInt8) × Npsrvauth

/-- The tests of `srvp9sk1` in state 2. -/
def openTicket (des : Des) (a : Npsrvauth) (msg : List UInt8) : Attempt (Ticket × Auth) := do
  let tick ← decTicket des (msg.take 72) a.key
  if tick.type ≠ AuthTs ∨ tick.ch ≠ a.chs then
    minusOne
  else
    let auth ← decAuth des (msg.drop 72) tick.key
    if auth.type ≠ AuthAc ∨ auth.ch ≠ a.chs ∨ auth.gen ≠ a.gen then
      minusOne
    else
      return (tick, auth)

/-- `srvp9sk1`, where `getRand` returns `rand`. -/
def srvp9sk1 (des : Des) (rand : Block) (a : Npsrvauth) (msg : List UInt8) (resplen : Nat) :
    Served :=
  match a.state with
  | 0 =>
    if msg.length ≠ 0 then (err (cstr "botch") EINVAL, a)
    else (.ok [], { a with state := 1 })
  | 1 =>
    if sized : msg.length = 8 then
      let a := { a with chc := ⟨msg, sized⟩, chs := rand }
      if resplen < 141 then (err (cstr "internal error") EINVAL, a)
      else
        match orErr (encTicketReq
            { type := AuthTreq, ids := a.ids, dom := a.dom, ch := a.chs, idc := cstr "",
              idr := cstr "" }) (cstr "internal error") EINVAL with
        | .error trouble => (.error trouble, a)
        | .ok resp => (.ok resp, { a with state := 2 })
    else (err (cstr "botch") EINVAL, a)
  | 2 =>
    if msg.length ≠ 85 then (err (cstr "botch") EINVAL, a)
    else
      match orErr (openTicket des a msg) (cstr "bad auth") EPERM with
      | .error trouble => (.error trouble, a)
      | .ok (tick, _) =>
        let a := { a with idc := some tick.idc, idr := some tick.idr }
        if resplen < 13 then (err (cstr "internal error") EINVAL, a)
        else
          match orErr (encAuth des { type := AuthAs, ch := a.chc, gen := a.gen } tick.key)
              (cstr "internal error") EINVAL with
          | .error trouble => (.error trouble, a)
          | .ok resp => (.ok resp, { a with state := 3, done := true })
  | _ => (err (cstr "botch") EINVAL, a)

/-- The answer of `srvp9any` to the protocol that the client chose. -/
def chosen (a : Npsrvauth) (msg : List UInt8) (resplen : Nat) : Attempt (List UInt8) :=
  let (proto, rest) := getWord 0x20 (CStr.at msg).bytes
  let (dom, _) := getWord 0 rest
  if msg.length = 0 ∨ (CStr.at msg).strlen ≠ msg.length - 1 ∨ dom ≠ a.dom.bytes then
    err (cstr "botch") EINVAL
  else if proto ≠ (cstr "p9sk1").bytes then
    err (cstr "unsupported") EPROTONOSUPPORT
  else if resplen < 32 then
    err (cstr "internal error") EINVAL
  else
    return (cstr "OK").bytes ++ [0]

/-- `srvp9any`. -/
def srvp9any (des : Des) (rand : Block) (a : Npsrvauth) (msg : List UInt8) (resplen : Nat) :
    Served :=
  match a.state with
  | 0 =>
    if msg.length ≠ 0 ∨ resplen < a.dom.strlen + 32 then
      (err (cstr "internal error") EINVAL, a)
    else
      (.ok ((cstr "v.2 p9sk1@").bytes ++ a.dom.bytes ++ [0]), { a with state := 1 })
  | 1 =>
    match chosen a msg resplen with
    | .error trouble => (.error trouble, a)
    | .ok resp => (.ok resp, { a with state := 2 })
  | state + 2 =>
    -- the states of `srvp9sk1` from 1 on are those from 2 on
    let (r, a) := srvp9sk1 des rand { a with state := state + 1 } msg resplen
    (r, { a with state := a.state + 1 })

/-- `struct authstate`, with the part of `readbuf` that `readcnt` counts. -/
structure Authstate where
  state : Npsrvauth
  readbuf : List UInt8
  readcnt : Int

/-- `newAuthState(srvp9any)`.  A failure of the server function leaves a `readcnt` of `-1`. -/
def newAuthState (des : Des) (ids dom : CStr) (key : Key) : Authstate :=
  let zeros : Block := List.Vector.replicate 8 0
  let a : Npsrvauth :=
    { state := 0, gen := 0, done := false, chc := zeros, chs := zeros, ids, dom, key, idc := none,
      idr := none }
  match srvp9any des zeros a [] 256 with
  | (.error _, a) => { state := a, readbuf := [], readcnt := -1 }
  | (.ok resp, a) => { state := a, readbuf := resp, readcnt := resp.length }

/-- `readauth`.  The comparison of `cnt` with `readcnt` is unsigned. -/
def readauth (cnt : UInt32) (a : Authstate) : Attempt (List UInt8) × Authstate :=
  if a.readcnt = 0 ∨ (cnt.toNat : Int) < a.readcnt % 2 ^ 32 then (err (cstr "botch") EIO, a)
  else (.ok a.readbuf, { a with readcnt := 0 })

/-- `writeauth`.  When the server function fails, the error that it has set replaces the reply. -/
def writeauth (des : Des) (rand : Block) (data : List UInt8) (a : Authstate) :
    Attempt Nat × Authstate :=
  if a.state.done ∨ 0 < a.readcnt then (err (cstr "botch") EIO, a)
  else
    match srvp9any des rand a.state data 256 with
    | (.error trouble, state) => (.error trouble, { a with state })
    | (.ok resp, state) => (.ok data.length, { state, readbuf := resp, readcnt := resp.length })

/-! ## The ticket server -/

/-- `struct ident`, with the key that `initUsers` has made of the password. -/
structure Ident where
  user : CStr
  key : Key

/-- `findUser`. -/
def findUser (users : List Ident) (user : CStr) : Option Ident := users.find? (·.user = user)

/-- `getKey`, where `garbage` is sent for an unknown user. -/
def getKey (users : List Ident) (garbage : Key) (user : CStr) : Key :=
  match findUser users user with
  | some u => u.key
  | none => garbage

/-- What `getRand` returns to the parties of an exchange. -/
structure Rands where
  /-- The challenge of the client. -/
  chc : Block
  /-- The challenge of the server. -/
  chs : Block
  /-- The nonce key. -/
  kn : Key
  /-- The keys of unknown users. -/
  kc : Key
  ks : Key

/-- The bytes that `serv1` writes for those that it reads. -/
def serv1 (des : Des) (users : List Ident) (dom : CStr) (r : Rands) (treqbuf : List UInt8) :
    Attempt (List UInt8) := do
  let treq ← decTicketReq treqbuf
  if treq.type ≠ AuthTreq ∨ treq.dom ≠ dom ∨ treq.idc ≠ treq.idr then
    minusOne
  else
    let ctick ← encTicket des
      { type := AuthTc, ch := treq.ch, idc := treq.idc, idr := treq.idr, key := r.kn }
      (getKey users r.kc treq.idc)
    let stick ← encTicket des
      { type := AuthTs, ch := treq.ch, idc := treq.idc, idr := treq.idr, key := r.kn }
      (getKey users r.ks treq.ids)
    return AuthOK :: (ctick ++ stick)

/-! ## The client -/

/-- The parties and what they share. -/
structure Parties where
  /-- `user->uname`. -/
  uname : CStr
  /-- `srvid`. -/
  ids : CStr
  /-- `srvdom`. -/
  dom : CStr
  /-- `srvkey`. -/
  key : Key
  /-- The users of the ticket server. -/
  users : List Ident
  /-- The domain of the ticket server. -/
  authdom : CStr
  /-- The `msize` of the connection. -/
  msize : UInt32

/-- `struct npcauth`. -/
structure Npcauth where
  key : Key
  gen : Int32
  deriving DecidableEq

/-- A part of the client, which reads and writes the auth fid of a server. -/
def Exchange (α : Type) : Type := Authstate → Attempt α × Authstate

namespace Exchange

instance : Monad Exchange where
  pure result := fun s => (.ok result, s)
  bind first rest := fun s =>
    match first s with
    | (.ok result, s) => rest result s
    | (.error trouble, s) => (.error trouble, s)

/-- A computation of the client alone. -/
def lift {α : Type} (attempt : Attempt α) : Exchange α := fun s => (attempt, s)

/-- `return err(msg, no)` when a part of the client has failed. -/
def orErr {α : Type} (exchange : Exchange α) (msg : CStr) (no : UInt32) : Exchange α := fun s =>
  (P9sk1.orErr (exchange s).1 msg no, (exchange s).2)

end Exchange

open P9sk1.Exchange hiding orErr

section Client

variable (des : Des) (p : Parties) (r : Rands)

/-- `npc_read` of the auth fid: a `Tread` that `np_read` gives to `readauth`. -/
def npcRead (count : UInt32) : Exchange (List UInt8) := fun s =>
  let count := if count > p.msize - IOHDRSZ then p.msize - IOHDRSZ else count
  if count + IOHDRSZ > p.msize then (err Etoolarge EIO, s)
  else readauth count s

/-- `npc_write` of the auth fid: a `Twrite` that `np_write` gives to `writeauth`. -/
def npcWrite (data : List UInt8) : Exchange Nat := fun s =>
  let count := UInt32.ofNat data.length
  let count := if count > p.msize - IOHDRSZ then p.msize - IOHDRSZ else count
  writeauth des r.chs (data.take count.toNat) s

/-- `get`. -/
def get (sz : Nat) : Exchange (List UInt8) := do
  let buf ← npcRead p (UInt32.ofNat sz)
  if 0 < buf.length ∧ buf.length ≠ sz then lift minusOne else return buf

/-- `getline0`: the line without its terminator. -/
def getline0 (sz : Nat) : Exchange (List UInt8) := do
  let buf ← npcRead p (UInt32.ofNat sz)
  if buf.length = 0 ∨ (CStr.at buf).strlen ≠ buf.length - 1 then lift minusOne
  else return (CStr.at buf).bytes

/-- `put`. -/
def put (buf : List UInt8) : Exchange Nat := do
  let n ← npcWrite des p r buf
  if n ≠ buf.length then lift minusOne else return n

/-- `putline0` of a line, which has a buffer of 128 bytes. -/
def putline0 (line : List UInt8) : Exchange Nat :=
  if 127 ≤ line.length then lift minusOne else put des p r (line ++ [0])

/-- A result of zero bytes is a failure too. -/
def positive (exchange : Exchange Nat) : Exchange Unit := do
  let n ← exchange
  if n = 0 then lift minusOne else return ()

/-- `getTicket`: the ticket of the client and that of the server. -/
def getTicket (treq : Ticketreq) : Attempt (List UInt8 × List UInt8) :=
  orErr (do
    let treqbuf ← encTicketReq treq
    let reply ← serv1 des p.users p.authdom r treqbuf
    if reply.head? ≠ some AuthOK ∨ reply.length ≠ 145 then
      minusOne
    else
      return ((reply.drop 1).take 72, reply.drop 73)) (cstr "botch") EINVAL

/-- The client sends its challenge. -/
def putChallenge : Exchange Unit :=
  Exchange.orErr (positive (put des p r r.chc.toList)) (cstr "botch") EINVAL

/-- The client reads the ticket request of the server. -/
def getTicketReq : Exchange Ticketreq :=
  Exchange.orErr (do
    let treqbuf ← get p 141
    if treqbuf.length = 0 then lift minusOne
    else
      let treq ← lift (decTicketReq treqbuf)
      if treq.type ≠ AuthTreq then lift minusOne else return treq) (cstr "botch") EINVAL

/-- The client sends the ticket of the server and its authenticator, and keeps what it has sent. -/
def putAuth (stickbuf : List UInt8) (auth : Auth) (key : Key) : Exchange (List UInt8) :=
  Exchange.orErr (do
    let sealed ← lift (encAuth des auth key)
    let _ ← put des p r (stickbuf ++ sealed)
    return stickbuf ++ sealed) (cstr "botch") EINVAL

/-- The client reads the authenticator of the server, over the beginning of what it has sent. -/
def getAuth (authbuf : List UInt8) (key : Key) : Exchange Auth :=
  Exchange.orErr (do
    let buf ← get p 13
    lift (decAuth des ((buf ++ authbuf.drop buf.length).take 13) key)) (cstr "botch") EINVAL

/-- The end of `authp9sk1`: the authenticators are exchanged under the key of the tickets. -/
def authenticate (a : Npcauth) (stickbuf : List UInt8) (chs : Block) (key : Key) :
    Exchange Npcauth := do
  let authbuf ← putAuth des p r stickbuf { type := AuthAc, ch := chs, gen := a.gen } key
  let auth ← getAuth des p authbuf key
  if auth.type ≠ AuthAs ∨ auth.ch ≠ r.chc ∨ auth.gen ≠ a.gen then
    lift (err (cstr "bad server") EPERM)
  else
    return { a with gen := a.gen + 1 }

/-- `authp9sk1`. -/
def authp9sk1 (a : Npcauth) : Exchange Npcauth := do
  putChallenge des p r
  let treq ← getTicketReq p
  let treq := { treq with idc := p.uname, idr := p.uname }
  let tickets ← lift (getTicket des p r treq)
  let ctick ← lift (orErr (decTicket des tickets.1 a.key) (cstr "botch") EINVAL)
  if treq.ch ≠ ctick.ch then
    lift (err (cstr "bad auth") EPERM)
  else
    authenticate des p r a tickets.2 treq.ch ctick.key

/-- The protocol and the domain that `authp9any` takes from the line of the server.  Its search
compares the name in `authprotos`, not the word of the line, with `p9sk1`, so the first word is
taken. -/
def firstProto (p : List UInt8) : Option (List UInt8 × List UInt8) :=
  if p = [] then none
  else
    let (word, _) := getWord 0x20 p
    let (proto, rest) := getWord 0x40 word
    let (dom, _) := getWord 0 rest
    some (proto, dom)

/-- `authp9any`. -/
def authp9any (a : Npcauth) : Exchange Npcauth := do
  let buf ← Exchange.orErr (getline0 p 128) (cstr "botch") EINVAL
  let v2 := (cstr "v.2 ").bytes.isPrefixOf buf
  match firstProto (if v2 then buf.drop 4 else buf) with
  | none => lift (err (cstr "unsupported") EPROTONOSUPPORT)
  | some (proto, dom) =>
    Exchange.orErr (positive (putline0 des p r (proto ++ 0x20 :: dom))) (cstr "botch") EINVAL
    if v2 then
      let buf ← Exchange.orErr (getline0 p 128) (cstr "botch") EINVAL
      if buf ≠ (cstr "OK").bytes then lift (err (cstr "botch") EINVAL)
    authp9sk1 des p r a

/-- An authentication with a new auth fid: what the client returns, and the state of the server. -/
def authentication (a : Npcauth) : Attempt Npcauth × Authstate :=
  authp9any des p r a (newAuthState des p.ids p.dom p.key)

end Client

/-- Consecutive authentications with one `Npcauth`. -/
def authentications (des : Des) (p : Parties) :
    List Rands → Npcauth → List (Attempt Npcauth × Authstate)
  | [], _ => []
  | r :: rs, a =>
    let out := authentication des p r a
    out :: authentications des p rs (match out.1 with | .ok a => a | .error _ => a)

end Npfs.P9sk1
