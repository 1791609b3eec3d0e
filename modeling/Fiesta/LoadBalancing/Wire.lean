import Fiesta.LoadBalancing.Client

/-!
# What the client may count on

The peer is a library that is not here.  `Wire` writes down what its documentation promises: when a
connection opens and closes, and that nothing is answered that was not asked.

* `Call`, `Input`, `Event`     what reaches the client from the app and from the peer;
* `Client.react`               the client, one event at a time;
* `Wire`, `Wire.Admits`        the state of the peer, and the events that fit to it;
* `System`, `System.step`      client and wire together.
-/

namespace LoadBalancing

open Photon

/-! ## events -/

/-- The operations that ask for a room. -/
inductive Join where
  | createRoom (gameID : JString) (options : RoomOptions) (expectedUsers : List JString)
  | joinOrCreateRoom (gameID : JString) (options : RoomOptions) (cacheSliceIndex : Int)
      (expectedUsers : List JString)
  | joinRandomOrCreateRoom (gameID : JString) (options : RoomOptions) (filter : Matchmaking)
      (expectedUsers : List JString)
  | joinRoom (gameID : JString) (rejoin : Bool) (cacheSliceIndex : Int)
      (expectedUsers : List JString)
  | joinRandomRoom (filter : Matchmaking) (expectedUsers : List JString)

inductive Call where
  | connect (options : Client.ConnectOptions)
  | disconnect
  | reconnectAndRejoin
  | selectRegion (selectedRegion : JString)
  | opCustomAuthenticationSendNextStepData (secret : JString)
  | setAutoJoinLobby (autoJoinLobby : Bool)
  | getCurrentlyJoinedRoom
  | opJoinLobby (lobbyName : JString) (lobbyType : NByte)
  | opLeaveLobby
  | join (join : Join)
  | opLeaveRoom (willComeBack sendAuthCookie : Bool)
  | opRaiseEvent (raised : Raised)

/-- What the peer reports; `peerState` is the state it is in when it reports an error. -/
inductive Input where
  | connect
  | disconnect
  | encryptionEstablished
  | encryptionFailedToEstablish
  | connectionError (error : ConnectionError) (peerState : PeerState)
  | secret (secret : JString)
  | bestRegion (regionWithBestPing : JString)
  | response (response : OperationResponse)

/-- `ok` is what the peer returns to a call that it may refuse. -/
inductive Event where
  | call (call : Call) (ok : Bool)
  | input (input : Input) (ok : Bool)

/-- What an event makes the client do, and what the app gets back from a call. -/
structure Seen where
  outs : List Out
  result : Bool

namespace Client

def opJoin (c : Client) (ok : Bool) : Join → Client × List Out × Bool
  | .createRoom gameID options expectedUsers => c.opCreateRoom ok gameID options expectedUsers
  | .joinOrCreateRoom gameID options cacheSliceIndex expectedUsers =>
    c.opJoinOrCreateRoom ok gameID options cacheSliceIndex expectedUsers
  | .joinRandomOrCreateRoom gameID options filter expectedUsers =>
    c.opJoinRandomOrCreateRoom ok gameID options filter expectedUsers
  | .joinRoom gameID rejoin cacheSliceIndex expectedUsers =>
    c.opJoinRoom ok gameID rejoin cacheSliceIndex expectedUsers
  | .joinRandomRoom filter expectedUsers => c.opJoinRandomRoom ok filter expectedUsers

def onCall (c : Client) (ok : Bool) : Call → Client × List Out × Bool
  | .connect options => c.connect ok options
  | .disconnect => (c.disconnect.1, c.disconnect.2, true)
  | .reconnectAndRejoin => c.reconnectAndRejoin ok
  | .selectRegion selectedRegion => c.selectRegion ok selectedRegion
  | .opCustomAuthenticationSendNextStepData secret =>
    c.opCustomAuthenticationSendNextStepData ok secret
  | .setAutoJoinLobby autoJoinLobby => ({ c with mAutoJoinLobby := autoJoinLobby }, [], true)
  | .getCurrentlyJoinedRoom => (c.getCurrentlyJoinedRoom.1, [], true)
  | .opJoinLobby lobbyName lobbyType => c.opJoinLobby ok lobbyName lobbyType
  | .opLeaveLobby => c.opLeaveLobby ok
  | .join join => c.opJoin ok join
  | .opLeaveRoom willComeBack sendAuthCookie => c.opLeaveRoom ok willComeBack sendAuthCookie
  | .opRaiseEvent raised => c.opRaiseEvent ok raised

def onInput (c : Client) (ok : Bool) : Input → Client × List Out
  | .connect => c.onConnect
  | .disconnect => c.onDisconnect
  | .encryptionEstablished => c.onEncryptionEstablished
  | .encryptionFailedToEstablish => c.onEncryptionFailed
  | .connectionError error peerState => c.onConnectionError error peerState
  | .secret secret => c.setSecret secret
  | .bestRegion regionWithBestPing => c.onBestRegion regionWithBestPing
  | .response response => c.onOperationResponse ok response

def react (c : Client) : Event → Client × Seen
  | .call call ok => ((c.onCall ok call).1, ⟨(c.onCall ok call).2.1, (c.onCall ok call).2.2⟩)
  | .input input ok => ((c.onInput ok input).1, ⟨(c.onInput ok input).2, true⟩)

end Client

/-! ## the peer -/

/-- What the client has asked for and not heard of yet. -/
inductive Awaited where
  | encryption
  | pings
  | response (operationCode : OperationCode)
  deriving DecidableEq

def Request.awaited : Request → List Awaited
  | .establishEncryption => [.encryption]
  | .getRegions _ => [.response .getRegions]
  | .authenticate _ _ _ => [.response .authenticate]
  | .joinLobby _ _ => [.response .joinLobby]
  | .leaveLobby => [.response .leaveLobby]
  | .createRoom _ _ _ => [.response .createRoom]
  | .joinRoom _ _ _ _ _ => [.response .joinRoom]
  | .joinRandomRoom _ _ _ _ => [.response .joinRandomRoom]
  | .leave _ _ => [.response .leave]
  | .raiseEvent _ => []

/-- `token`: the connection that is being opened carries a secret, by which the server will
authenticate the client without being asked. -/
structure Wire where
  state : PeerState
  awaited : List Awaited
  token : Bool

namespace Wire

def new : Wire := ⟨.disconnected, [], false⟩

/-- What an input says about the peer. -/
def hear (w : Wire) : Input → Wire
  | .connect => ⟨.connected, if w.token then [.response .authenticate] else [], false⟩
  | .disconnect => ⟨.disconnected, [], false⟩
  | .encryptionEstablished => { w with awaited := w.awaited.erase .encryption }
  | .encryptionFailedToEstablish => { w with awaited := w.awaited.erase .encryption }
  | .connectionError _ peerState =>
    if peerState = .disconnected ∨ peerState = .disconnecting then ⟨peerState, [], false⟩ else w
  | .secret _ => w
  | .bestRegion _ => { w with awaited := w.awaited.erase .pings }
  | .response response =>
    { w with awaited := w.awaited.erase (.response response.operationCode) }

/-- What a call of the client does to the peer, when the peer returns `ok`. -/
def take (ok : Bool) (w : Wire) : Out → Wire
  | .peer (.connect _ customData) =>
    if ok then ⟨.connecting, [], !customData.isEmpty⟩ else w
  | .peer .disconnect =>
    match w.state with
    | .connecting => ⟨.disconnecting, [], false⟩
    | .connected => ⟨.disconnecting, [], false⟩
    | _ => w
  | .peer (.pingServers _) => { w with awaited := w.awaited ++ [.pings] }
  | .peer (.request request) =>
    if ok then { w with awaited := w.awaited ++ request.awaited } else w
  | .app _ => w
  | .nullDereference => w

def takeAll (ok : Bool) (w : Wire) (outs : List Out) : Wire := outs.foldl (take ok) w

/-- An input that fits to what the peer is doing: a connection opens only while it is opening and
closes only while it is closing, an answer comes once for each request and on its connection. -/
def AdmitsInput (w : Wire) : Input → Prop
  | .connect => w.state = .connecting
  | .disconnect => w.state = .disconnecting
  | .encryptionEstablished => w.state = .connected ∧ .encryption ∈ w.awaited
  | .encryptionFailedToEstablish => w.state = .connected ∧ .encryption ∈ w.awaited
  | .connectionError _ peerState =>
    peerState = w.state ∨ peerState = .disconnected
      ∨ peerState = .disconnecting ∧ w.state ≠ .disconnected
  | .secret _ => w.state = .connected
  | .bestRegion _ => w.state = .connected ∧ .pings ∈ w.awaited
  | .response response =>
    w.state = .connected ∧ .response response.operationCode ∈ w.awaited

/-- A disconnected peer accepts nothing but `connect`, and only it accepts `connect`. -/
def AdmitsCall (w : Wire) (ok : Bool) : Call → Prop
  | .connect _ => ok = true → w.state = .disconnected
  | .reconnectAndRejoin => ok = true → w.state = .disconnected
  | .disconnect => True
  | .setAutoJoinLobby _ => True
  | .getCurrentlyJoinedRoom => True
  | _ => ok = true → w.state = .connected

def Admits (w : Wire) : Event → Prop
  | .call call ok => w.AdmitsCall ok call
  | .input input _ => w.AdmitsInput input

end Wire

/-! ## client and peer -/

structure System where
  client : Client
  wire : Wire

namespace System

def step (s : System) (e : Event) : System × Seen :=
  match e with
  | .call call ok =>
    let r := s.client.react (.call call ok)
    (⟨r.1, s.wire.takeAll ok r.2.outs⟩, r.2)
  | .input input ok =>
    let r := s.client.react (.input input ok)
    (⟨r.1, (s.wire.hear input).takeAll ok r.2.outs⟩, r.2)

end System

end LoadBalancing
