import Npfs.Transition
import Npfs.UfsDotl
import Npfs.Session

/-!
# Runs of a server of `libufs`

A connection to the server that `ufs_start` makes: the functions of `libufs` are run against the
fids of the connection and the files of the host, and requests are served one after another.
-/

namespace Npfs

namespace Ufs

open Program

/-- The state of a connection, of the request that is served and of the host. -/
abbrev State := Session Fid Host

/-- What the operations of `libnpfs` need of their environment. The callbacks are not run here. -/
def env : Env Fid Host where
  answer callback _ host := ⟨callback.silence, none, false, none, host⟩
  malloc host := (host.next.1.heap, host.next.2)
  flush _ host := (host.next.1.error.isNone, host.next.2)
  reset _ host := host

/-- Perform an operation of `libufs`. -/
def execOp (u : Ufssrv) : (op : Op) → State → op.Reply × State
  | .sys call, s => ((s.world.exec call).1, { s with world := (s.world.exec call).2 })
  | .aux fid, s => s.load fid (·.aux) none
  | .setAux fid aux, s => ((), s.modify fid fun f => { f with aux := some aux })
  | .np op, s => Npfs.exec env op s
  | .ufs, s => (u, s)

/-- Perform an operation of a request. -/
def exec (u : Ufssrv) : (op : Npfs.Op) → State → op.Reply × State
  | .call callback, s => (ufsStart callback).run (execOp u) s
  | op, s => Npfs.exec env op s

/-- A new connection to a server. -/
def State.start (msize : UInt32) (host : Host) : State where
  srv := { msize, dotu := true, dotl := true, auth := none, fiddestroy := true }
  conn := { msize, dotu := true, dotl := true }
  fids := Cells.empty
  pool := fun _ => none
  users := fun _ => 0
  error := none
  reqFid := none
  world := host
  fault := false

/-- A request is received. -/
def State.receive (s : State) : State := { s with reqFid := none }

/-- Serve a request. -/
def State.step (u : Ufssrv) (npErrnoToLinux : UInt32 → UInt32) (s : State) (tc : Npfcall) :
    Option State :=
  some ((serve npErrnoToLinux tc none).run (exec u) s.receive).2

/-- What the requests of a connection lead to. -/
abbrev State.Reached (u : Ufssrv) (npErrnoToLinux : UInt32 → UInt32) (msize : UInt32) (host : Host)
    (s : State) : Prop :=
  Transition.Reaches (State.step u npErrnoToLinux) (fun _ _ => True) (.start msize host) s

/-! ## A small server -/

/-- A server with the mapped id model whose users and groups are unknown. -/
def Ufssrv.unknowing : Ufssrv where
  mapped := true
  sameuser := true
  treeaux := cstr "/"
  uid _ := 0
  uname _ := cstr ""
  uname2user _ := none
  uid2user _ := none
  gname2group _ := none
  gid2group _ := none
  scanFid _ := none
  scanDevice _ := none
  printDevice _ _ _ := cstr ""
  strerror _ := cstr ""
  turns := 1

/-- A server whose files are not mapped, with one user. -/
def Ufssrv.single : Ufssrv :=
  { Ufssrv.unknowing with
    mapped := false
    uname2user := fun _ => some 0
    uid2user := fun _ => some 0 }

/-- A call that succeeds with nothing. -/
def Fate.empty : Fate where
  error := none
  returned := default
  stat := default
  names _ := none
  labels := ∅
  unlabelled _ member := absurd member (AList.notMem_empty _)
  heap := ⟨default, fun _ => 0⟩

/-- A host with one file, which every path names. -/
def hostSingle : Host := ⟨Cells.empty.push ∅, fun _ => some 0, fun _ => Fate.empty⟩

/-- The first request of a client. -/
def attaching : Npfcall :=
  { (default : Npfcall) with type := MsgType.tattach.code, fid := 1, afid := NOFID }

/-- A request for an attribute with a value of `asize` bytes. -/
def describing (asize : UInt64) : Npfcall :=
  { (default : Npfcall) with type := MsgType.txattrcreate.code, fid := 1, asize }

/-- A request leads to a state. -/
def State.after (s : State) (tc : Npfcall) : State :=
  ((serve id tc none).run (exec .single) s.receive).2

end Ufs

end Npfs
