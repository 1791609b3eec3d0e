import Fiesta.LoadBalancing.Wire

/-!
# The protocol of the load balancing client

What an app may count on, whatever servers the client talks to on the way.

* `Phase`                  where the app stands;
* `Phase.Permits`          the calls an app makes in a phase;
* `Join.Asks`              what the game server is asked for, for the sake of a call of the app;
* `Phase.Next`             how the phases follow each other.
-/

namespace LoadBalancing

open Photon

/-! ## phases -/

/-- What the app waits for in a room that it has asked for. -/
inductive Entry where
  | join (join : Join)
  | rejoin

/-- `entering` carries the name of the room once the master has answered, `refused` what the game
server said. -/
inductive Phase where
  | offline
  | connecting
  | choosingRegion
  | authenticationStep
  | ready
  | joiningLobby
  | leavingLobby
  | entering (entry : Entry) (name : Option JString)
  | refused (entry : Entry) (errorCode : Int) (errorString : JString)
  | inRoom
  | leaving
  | closing

def Join.type : Join → JoinType
  | .createRoom _ _ _ => .createRoom
  | .joinOrCreateRoom _ _ _ _ => .joinOrCreateRoom
  | .joinRandomOrCreateRoom _ _ _ _ => .joinRandomOrCreateRoom
  | .joinRoom _ _ _ _ => .joinRoom
  | .joinRandomRoom _ _ => .joinRandomRoom

def Entry.type : Entry → JoinType
  | .join j => j.type
  | .rejoin => .joinRoom

/-- An app asks for rooms and lobbies when nothing else is under way, chooses a region when it is
asked to, and connects when it is not connected. -/
def Phase.Permits (p : Phase) : Call → Prop
  | .connect _ => p = .offline ∨ p = .closing
  | .reconnectAndRejoin => p = .offline ∨ p = .closing
  | .selectRegion _ => p = .choosingRegion
  | .opJoinLobby _ _ => p = .ready ∨ p = .inRoom ∨ p = .offline ∨ p = .closing
  | .opLeaveLobby => p = .ready ∨ p = .inRoom ∨ p = .offline ∨ p = .closing
  | .join _ => p = .ready ∨ p = .inRoom ∨ p = .offline ∨ p = .closing
  | _ => True

/-! ## what is asked for -/

/-- The operation by which the master is asked. -/
def Join.operationCode : Join → OperationCode
  | .createRoom _ _ _ => .createRoom
  | .joinOrCreateRoom _ _ _ _ => .joinRoom
  | .joinRandomOrCreateRoom _ _ _ _ => .joinRandomRoom
  | .joinRoom _ _ _ _ => .joinRoom
  | .joinRandomRoom _ _ => .joinRandomRoom

/-- The name of the room, when the master has answered. -/
def Join.named (r : OperationResponse) : Join → JString
  | .createRoom gameID _ _ => if r.roomName.isEmpty then gameID else r.roomName
  | .joinOrCreateRoom gameID _ _ _ => gameID
  | .joinRandomOrCreateRoom _ _ _ _ => r.roomName
  | .joinRoom gameID _ _ _ => gameID
  | .joinRandomRoom _ _ => r.roomName

/-- The request by which the game server is asked for the room of that name. -/
def Join.Asks (name : JString) (request : Request) : Join → Prop
  | .createRoom _ options expectedUsers =>
    ∃ sent, options.Alike sent ∧ request = .createRoom name sent expectedUsers
  | .joinOrCreateRoom _ options cacheSliceIndex expectedUsers =>
    ∃ sent, options.Alike sent
      ∧ request = .joinRoom name (some sent) false cacheSliceIndex expectedUsers
  | .joinRandomOrCreateRoom _ options _ expectedUsers =>
    ∃ sent, options.Alike sent ∧ request = .joinRoom name (some sent) false 0 expectedUsers
  | .joinRoom _ rejoin cacheSliceIndex expectedUsers =>
    request = .joinRoom name none rejoin cacheSliceIndex expectedUsers
  | .joinRandomRoom _ expectedUsers => request = .joinRoom name none false 0 expectedUsers

def Request.enters : Request → Bool
  | .createRoom _ _ _ => true
  | .joinRoom _ _ _ _ _ => true
  | .joinRandomRoom _ _ _ _ => true
  | _ => false

/-- What the client may ask for on its way into a room. -/
def Entry.Asks (entry : Entry) (name : Option JString) (request : Request) : Prop :=
  match entry, name with
  | .join j, some name => j.Asks name request
  | .join _, none => False
  | .rejoin, _ => ∃ name slice users, request = .joinRoom name none true slice users

/-- The client has been told where the room is. -/
def Entry.Placed (entry : Entry) (name : Option JString) : Prop := entry = .rejoin ∨ name ≠ none

/-! ## what is seen -/

def Out.callback : Out → Option Callback
  | .app (.onSecretReceival _) => none
  | .app callback => some callback
  | _ => none

def Out.entering : Out → Option Request
  | .peer (.request request) => if request.enters then some request else none
  | _ => none

/-- The calls of the listener, less those that pass a secret on. -/
def Seen.callbacks (seen : Seen) : List Callback := seen.outs.filterMap Out.callback

/-- The requests for a room. -/
def Seen.requests (seen : Seen) : List Request := seen.outs.filterMap Out.entering

/-- The error that an input brings, if it is one that stops a client on its way. -/
def Input.failure : Input → Option (Int × JString)
  | .encryptionFailedToEstablish =>
    some (ENCRYPTION_FAILED_TO_ESTABLISH, Client.ENCRYPTION_FAILED)
  | .response r =>
    if r.returnCode = 0 then none
    else
      match r.operationCode with
      | .authenticate => some (r.returnCode, r.debugMessage)
      | .createRoom => some (r.returnCode, r.debugMessage)
      | .joinRoom => some (r.returnCode, r.debugMessage)
      | .joinRandomRoom => some (r.returnCode, r.debugMessage)
      | _ => none
  | _ => none

/-- The master has let the client in, or into its lobby: for a lobby the return code does not
matter. -/
def Input.arrives : Input → Bool
  | .response r =>
    (r.operationCode == .authenticate && r.returnCode == 0) || r.operationCode == .joinLobby
  | _ => false

/-! ## the protocol -/

/-- A call that the client does not refuse, and where it leads. -/
inductive Phase.Accepts : Phase → Call → Phase → Prop where
  | connect {p} (hp : p = .offline ∨ p = .closing) (options) :
    Accepts p (.connect options) .connecting
  | reconnectAndRejoin {p} (hp : p = .offline ∨ p = .closing) :
    Accepts p .reconnectAndRejoin (.entering .rejoin none)
  | setAutoJoinLobby (p b) : Accepts p (.setAutoJoinLobby b) p
  | getCurrentlyJoinedRoom (p) : Accepts p .getCurrentlyJoinedRoom p
  | stayOffline : Accepts .offline .disconnect .offline
  | disconnect {p} (h : p ≠ .offline) : Accepts p .disconnect .closing
  | selectRegion (r) : Accepts .choosingRegion (.selectRegion r) .connecting
  | customAuthentication (s) :
    Accepts .authenticationStep (.opCustomAuthenticationSendNextStepData s) .connecting
  | joinLobby (name type) : Accepts .ready (.opJoinLobby name type) .joiningLobby
  | leaveLobby : Accepts .ready .opLeaveLobby .leavingLobby
  | join (j) : Accepts .ready (.join j) (.entering (.join j) none)
  | leaveRoom (b b') : Accepts .inRoom (.opLeaveRoom b b') .leaving
  | raiseEvent (r) : Accepts .inRoom (.opRaiseEvent r) .inRoom

/-- What the listener is told on an input, and where it leads. -/
inductive Phase.Tells : Phase → Input → List Callback → Phase → Prop where
  | silent {p i} (h : i.failure = none) : Tells p i [] p
  | found {r : OperationResponse} (j : Join) (hop : r.operationCode = j.operationCode)
      (h : r.returnCode = 0) :
    Tells (.entering (.join j) none) (.response r) [] (.entering (.join j) (some (j.named r)))
  | refusedOnGameServer {i code text entry name} (hplaced : Entry.Placed entry name)
      (h : i.failure = some (code, text)) :
    Tells (.entering entry name) i [] (.refused entry code text)
  | refusedOnMaster {i code text} (j : Join) (h : i.failure = some (code, text)) :
    Tells (.entering (.join j) none) i [.joinReturn j.type 0 code text] .ready
  | entered {r : OperationResponse} {entry : Entry} {name} (hplaced : entry.Placed name)
      (hop : r.operationCode = .createRoom ∨ r.operationCode = .joinRoom) (h : r.returnCode = 0) :
    Tells (.entering entry name) (.response r)
      [.joinReturn entry.type r.playerNr 0 r.debugMessage] .inRoom
  | backOnMaster {i} (entry : Entry) (code text) (h : i.arrives) :
    Tells (.refused entry code text) i [.joinReturn entry.type 0 code text] .ready
  | left {i} (h : i.arrives) : Tells .leaving i [.leaveRoomReturn 0 []] .ready
  | connected {i} (h : i.arrives) (region cluster) :
    Tells .connecting i [.connectReturn 0 [] region cluster] .ready
  | connectFailed {p i code text} (h : i.failure = some (code, text))
      (hp : p = .connecting ∨ p = .leaving ∨ ∃ entry c t, p = .refused entry c t) :
    Tells p i [.connectReturn code text [] []] .closing
  | joinedLobby {r : OperationResponse} (hop : r.operationCode = .joinLobby) :
    Tells .joiningLobby (.response r) [.joinLobbyReturn] .ready
  | leftLobby {r : OperationResponse} (hop : r.operationCode = .leaveLobby) :
    Tells .leavingLobby (.response r) [.leaveLobbyReturn] .ready
  | regions {r : OperationResponse} (hop : r.operationCode = .getRegions) (h : r.returnCode = 0) :
    Tells .connecting (.response r) [.onAvailableRegions r.regions r.servers] .choosingRegion
  | authenticationStep {r : OperationResponse} (hop : r.operationCode = .authenticate)
      (h : r.returnCode = 0) (hdata : r.data = true) :
    Tells .connecting (.response r) [.onCustomAuthenticationIntermediateStep] .authenticationStep
  | broken (p error peerState) :
    Tells p (.connectionError error peerState) [.connectionErrorReturn error.statusCode] .closing
  | closed : Tells .closing .disconnect [.disconnectReturn] .offline

/-- What the game server is asked for. -/
def Phase.Asks : Phase → List Request → Prop
  | .entering entry name, requests => ∀ request ∈ requests, entry.Asks name request
  | _, requests => requests = []

/-- One event: a call that is refused changes nothing for the app, and calls no listener. -/
inductive Phase.Next : Phase → Event → Seen → Phase → Prop where
  | refuses {p call ok seen} (hresult : seen.result = false) (hcb : seen.callbacks = []) :
    Next p (.call call ok) seen p
  | accepts {p call ok seen p'} (hresult : seen.result = true) (hcb : seen.callbacks = [])
      (h : p.Accepts call p') : Next p (.call call ok) seen p'
  | tells {p input ok seen p'} (h : p.Tells input seen.callbacks p') (hasks : p.Asks seen.requests) :
    Next p (.input input ok) seen p'

end LoadBalancing
