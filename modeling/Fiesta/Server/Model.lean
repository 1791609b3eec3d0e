import Mathlib.Logic.Function.Basic
import Fiesta.Lib.Runs
import Fiesta.Lib.Slots

/-!
# The relay server (main/server.cc)

One iteration of the `while (true)` loop of `main` is `iteration env w`: the reaping pass
(`reap`), the accept (`accept`), and, when `socketSelector.wait` says so, one pass over the slots
(`poll`) that receives from every ready socket and fans each message out to all of them
(`onReady`, `fanOut`, `sendLoop`).

A socket is the number of the accept that made it, so no two sockets of a run share a name.
What the operating system answers in one iteration is an `Env`:

* `localPortZero`  the sockets whose `getLocalPort()` reads 0 in the reaping pass;
* `acceptDone`     `listener.accept` reports `Done`;
* `arrivals`       the bytes each peer has written since the last iteration;
* `wait`, `ready`  the result of `socketSelector.wait` and the sockets it found ready;
* `recv`           the answer to the receive on a ready socket (`done n`: up to `n` bytes);
* `send`           the answers to the successive send calls for a message, by sender and recipient.

`World` holds the variables of `main` (`sockets`, `socketSelector`), the sockets' handles, the
bytes not read yet (`incoming`) and the bytes each socket has accepted for its peer (`out`).  The
rest is history that the program never reads: `accepted` counts the accepts, `wrote` is all a peer
has written, `relayed` lists the messages received in processing order, `since` is the length of
`relayed` when the socket was accepted, and `ended` lists the sockets whose receive has reported
`Disconnected` or a terminal `Error`.

`iteration` is `none` when a resend loop does not end: the answers of the recipient's socket are
used up and the last one was still `Partial`.
-/

namespace Relay

abbrev Byte := UInt8

/-- the number of the accept that made the socket -/
abbrev SocketId := Nat

/-- `MAX_MESSAGE_LENGTH` (const.h) -/
def maxMessageLength : Nat := 150

/-! ## answers of the sockets -/

/-- status of one `TcpSocket::send` call, with `sentDataCount` where the call sets it -/
inductive SendResult where
  | done
  | partialSent (sentDataCount : Nat)
  | notReady
  | disconnected
  | error
deriving DecidableEq

/-- the bytes of `data` that the call accepted -/
def SendResult.accepted (data : List Byte) : SendResult → List Byte
  | .done => data
  | .partialSent k => data.take k
  | .notReady => []
  | .disconnected => []
  | .error => []

def SendResult.isPartial : SendResult → Bool
  | .partialSent _ => true
  | _ => false

/-- status of one `TcpSocket::receive` call -/
inductive RecvResult where
  | done (n : Nat)
  | partialReceived
  | notReady
  | disconnected
  | error (terminal : Bool)
deriving DecidableEq

structure Env where
  localPortZero : SocketId → Bool
  acceptDone : Bool
  arrivals : SocketId → List Byte
  wait : Bool
  ready : SocketId → Bool
  recv : SocketId → RecvResult
  send : SocketId → SocketId → List SendResult

/-! ## the state of the loop -/

structure World where
  sockets : Slots SocketId
  socketSelector : List SocketId
  accepted : Nat
  fresh : ∀ s ∈ sockets, s < accepted
  handle : SocketId → Bool
  incoming : SocketId → List Byte
  wrote : SocketId → List Byte
  out : SocketId → List Byte
  relayed : List (SocketId × List Byte)
  since : SocketId → Nat
  ended : List SocketId

def start : World where
  sockets := Slots.empty
  socketSelector := []
  accepted := 0
  fresh := fun s hs => absurd hs (Slots.not_mem_empty s)
  handle := fun _ => false
  incoming := fun _ => []
  wrote := fun _ => []
  out := fun _ => []
  relayed := []
  since := fun _ => 0
  ended := []

/-! ## reaping and accepting -/

/-- lines 35-43: `socket = nullptr` where `getLocalPort()` reads 0 -/
def reap (env : Env) (w : World) : World :=
  { w with
    sockets := w.sockets.clear env.localPortZero
    fresh := fun s hs => w.fresh s ((Slots.mem_clear _ _ s).mp hs).1
    handle := fun s => w.handle s && !(decide (s ∈ w.sockets) && env.localPortZero s) }

theorem accepted_not_mem (w : World) : w.accepted ∉ w.sockets :=
  fun h => Nat.lt_irrefl _ (w.fresh _ h)

/-- lines 44-65: register the new socket and put it into the first null slot or at the end -/
def accept (env : Env) (w : World) : World :=
  if env.acceptDone then
    { w with
      socketSelector := w.socketSelector ++ [w.accepted]
      sockets := w.sockets.put w.accepted (accepted_not_mem w)
      accepted := w.accepted + 1
      fresh := fun s hs => by
        rcases (Slots.mem_put _ _ _ s).mp hs with rfl | h
        · exact Nat.lt_succ_self _
        · exact Nat.lt_succ_of_lt (w.fresh s h)
      handle := Function.update w.handle w.accepted true
      since := Function.update w.since w.accepted w.relayed.length }
  else w

/-- the peers' bytes reach the sockets -/
def arrive (env : Env) (w : World) : World :=
  { w with
    incoming := fun s => w.incoming s ++ env.arrivals s
    wrote := fun s => w.wrote s ++ env.arrivals s }

/-! ## the fan-out -/

/-- lines 92-95: `do send(data) while (Partial)`.  Every round passes the same `data`. -/
def sendLoop (data : List Byte) : List SendResult → List Byte → Option (List Byte)
  | [], _ => none
  | r :: rs, stream =>
    if r.isPartial then sendLoop data rs (stream ++ r.accepted data)
    else some (stream ++ r.accepted data)

/-- lines 84-96: the message goes to every non-null slot, the sender's included -/
def fanOut (data : List Byte) (send : SocketId → List SendResult) :
    List (Option SocketId) → (SocketId → List Byte) → Option (SocketId → List Byte)
  | [], out => some out
  | none :: cells, out => fanOut data send cells out
  | some r :: cells, out =>
    (sendLoop data (send r) (out r)).bind fun stream =>
      fanOut data send cells (Function.update out r stream)

/-- `message.resize(MAX_MESSAGE_LENGTH, 0)` with the received bytes written over its beginning -/
def messageBuffer (received : List Byte) : List Byte :=
  received ++ List.replicate (maxMessageLength - received.length) 0

/-- what `receive` with room for `MAX_MESSAGE_LENGTH` bytes takes from the stream -/
def received (w : World) (s : SocketId) (n : Nat) : List Byte :=
  (w.incoming s).take (min n maxMessageLength)

/-- lines 74-115: the body of `if (socketSelector.isReady(*socket))` -/
def onReady (env : Env) (s : SocketId) (w : World) : Option World :=
  match env.recv s with
  | .done n =>
    -- a receive that gets no byte is not `Done`
    if received w s n = [] then some w
    else
      let actualLength := (received w s n).length
      (fanOut ((messageBuffer (received w s n)).take actualLength) (env.send s)
        w.sockets.cells w.out).map fun out =>
        { w with
          incoming := Function.update w.incoming s ((w.incoming s).drop actualLength)
          relayed := w.relayed ++ [(s, received w s n)]
          out := out }
  | .partialReceived => some w
  | .notReady => some w
  -- `Error` prints; `Disconnected` has no case in the switch
  | .disconnected => some { w with ended := w.ended ++ [s] }
  | .error terminal => some (if terminal then { w with ended := w.ended ++ [s] } else w)

/-- the selector only reports registered sockets -/
def isReady (env : Env) (w : World) (s : SocketId) : Bool :=
  decide (s ∈ w.socketSelector) && env.ready s

/-- lines 68-117: one pass over the slots -/
def poll (env : Env) : List (Option SocketId) → World → Option World
  | [], w => some w
  | none :: cells, w => poll env cells w
  | some s :: cells, w =>
    if isReady env w s then (onReady env s w).bind (poll env cells) else poll env cells w

/-- the state at `socketSelector.wait` -/
def beforeSelect (env : Env) (w : World) : World := arrive env (accept env (reap env w))

/-- one round of `while (true)` -/
def iteration (w : World) (env : Env) : Option World :=
  if env.wait then poll env (beforeSelect env w).sockets.cells (beforeSelect env w)
  else some (beforeSelect env w)

/-- the loop from the empty table -/
def serve (envs : List Env) : Option World := Runs.exec iteration start envs

end Relay
