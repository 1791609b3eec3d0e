import Fiesta.Photon.MutableRoom

/-!
# The load balancing client

One client talks to a name server, a master server and a game server in turn, over one peer.
Joining a room takes it from the master to the game server, leaving takes it back.

* `PeerStates`, `Client`       where the client is, and what it remembers on the way;
* `PeerCall`, `Callback`       what it calls: the peer, and the listener of the app;
* `onStatusChanged`            connections that open, close and break;
* `onOperationResponse`        the answers of the servers;
* `opCreateRoom` … `connect`   what the app calls.

A handler returns the new client and what it has called, in that order.  `ok` is what the peer
returned to the one call of the handler that may be refused.  Statuses that only warn, the alternative
ports and the user data of the local player are left out.
-/

namespace LoadBalancing

open Photon

/-! ## data -/

inductive PeerStates where
  | uninitialized
  | peerCreated
  | connectingToNameserver
  | connectedToNameserver
  | disconnectingFromNameserver
  | connecting
  | connected
  | waitingForCustomAuthenticationNextStepCall
  | authenticated
  | joinedLobby
  | disconnectingFromMasterserver
  | connectingToGameserver
  | connectedToGameserver
  | authenticatedOnGameServer
  | joining
  | joined
  | leaving
  | left
  | disconnectingFromGameserver
  | connectingToMasterserver
  | connectedComingFromGameserver
  | authenticatedComingFromGameserver
  | disconnecting
  | disconnected
  deriving DecidableEq

/-- The numbers of the states: some guards of the source compare them. -/
def PeerStates.value (state : PeerStates) : Nat := state.ctorIdx

/-- `PeerState` of the peer: `INITIALIZING_APPLICATION` is a part of connecting. -/
inductive PeerState where
  | disconnected
  | connecting
  | connected
  | disconnecting
  deriving DecidableEq

inductive JoinType where
  | createRoom
  | joinOrCreateRoom
  | joinRandomOrCreateRoom
  | joinRoom
  | joinRandomRoom
  deriving DecidableEq

inductive LobbyJoinType where
  | autoJoinLobby
  | explicitJoinLobby
  deriving DecidableEq

inductive RegionSelectionMode where
  | default
  | select
  | best
  deriving DecidableEq

inductive ServerType where
  | nameServer
  | masterServer
  deriving DecidableEq

inductive OperationCode where
  | authenticate
  | getRegions
  | joinLobby
  | leaveLobby
  | createRoom
  | joinRoom
  | joinRandomRoom
  | leave
  deriving DecidableEq

/-- The statuses that end a connection. -/
inductive ConnectionError where
  | exceptionOnConnect
  | exception
  | internalReceiveException
  | timeoutDisconnect
  | disconnectByServer
  | disconnectByServerUserLimit
  | disconnectByServerLogic
  deriving DecidableEq

def ConnectionError.statusCode : ConnectionError → Int
  | .exceptionOnConnect => 1023
  | .exception => 1026
  | .internalReceiveException => 1039
  | .timeoutDisconnect => 1040
  | .disconnectByServer => 1041
  | .disconnectByServerUserLimit => 1042
  | .disconnectByServerLogic => 1043

def ENCRYPTION_FAILED_TO_ESTABLISH : Int := 1049

namespace ErrorCode

def OK : Int := 0

end ErrorCode

/-- What narrows a random match. -/
structure Matchmaking where
  customRoomProperties : Properties
  maxPlayers : NByte
  matchmakingMode : NByte
  lobbyName : JString
  lobbyType : NByte
  sqlLobbyFilter : JString

/-- What is handed to the peer to be sent; `options` of a join is the null pointer when the room is
not to be created. -/
inductive Request where
  | establishEncryption
  | getRegions (encrypted : Bool)
  | authenticate (once : Bool) (secret regionCode : JString)
  | joinLobby (lobbyName : JString) (lobbyType : NByte)
  | leaveLobby
  | createRoom (gameID : JString) (options : RoomOptions) (expectedUsers : List JString)
  | joinRoom (gameID : JString) (options : Option RoomOptions) (rejoin : Bool)
      (cacheSliceIndex : Int) (expectedUsers : List JString)
  | joinRandomRoom (gameID : JString) (options : Option RoomOptions) (filter : Matchmaking)
      (expectedUsers : List JString)
  | leave (willComeBack sendAuthCookie : Bool)
  | raiseEvent (raised : Raised)

inductive PeerCall where
  | connect (address customData : JString)
  | disconnect
  | pingServers (addresses : List JString)
  | request (request : Request)

/-- The calls of the listener.  `joinReturn` stands for `createRoomReturn`, `joinOrCreateRoomReturn`
and so on, one for each type of joining. -/
inductive Callback where
  | connectReturn (errorCode : Int) (errorString region cluster : JString)
  | disconnectReturn
  | joinReturn (type : JoinType) (localPlayerNr errorCode : Int) (errorString : JString)
  | leaveRoomReturn (errorCode : Int) (errorString : JString)
  | joinLobbyReturn
  | leaveLobbyReturn
  | connectionErrorReturn (errorCode : Int)
  | onAvailableRegions (regions servers : List JString)
  | onCustomAuthenticationIntermediateStep
  | onSecretReceival (secret : JString)

/-- `nullDereference`: the handler used `mpCurrentlyJoinedRoom` without a room. -/
inductive Out where
  | peer (call : PeerCall)
  | app (callback : Callback)
  | nullDereference

structure OperationResponse where
  operationCode : OperationCode
  returnCode : Int
  debugMessage : JString
  secret : Option JString
  address : JString
  roomName : JString
  playerNr : Int
  cluster : Option JString
  data : Bool
  regions : List JString
  servers : List JString

structure Client where
  mState : PeerStates
  mLastJoinType : Option JoinType
  mLastLobbyJoinType : Option LobbyJoinType
  mLastJoinWasRejoin : Bool
  mLastCacheSliceIndex : Int
  mRoomName : JString
  mGameserver : JString
  mMasterserver : JString
  mCluster : JString
  mpCurrentlyJoinedRoom : Option MutableRoom
  mCachedErrorCodeFromGameServer : Int
  mCachedErrorStringFromGameServer : JString
  mAutoJoinLobby : Bool
  mSecret : JString
  mUseAuthOnce : Bool
  mSelectedRegion : JString
  mRegionWithBestPing : JString
  mAvailableRegions : List JString
  mAvailableRegionServers : List JString
  M_REGION_SELECTION_MODE : RegionSelectionMode
  M_IS_WEB_SOCKET : Bool

def Client.new (mode : RegionSelectionMode) (isWebSocket : Bool) : Client where
  mState := .uninitialized
  mLastJoinType := none
  mLastLobbyJoinType := none
  mLastJoinWasRejoin := false
  mLastCacheSliceIndex := 0
  mRoomName := []
  mGameserver := []
  mMasterserver := []
  mCluster := []
  mpCurrentlyJoinedRoom := none
  mCachedErrorCodeFromGameServer := ErrorCode.OK
  mCachedErrorStringFromGameServer := []
  mAutoJoinLobby := true
  mSecret := []
  mUseAuthOnce := false
  mSelectedRegion := []
  mRegionWithBestPing := []
  mAvailableRegions := []
  mAvailableRegionServers := []
  M_REGION_SELECTION_MODE := mode
  M_IS_WEB_SOCKET := isWebSocket

namespace Client

def getIsInGameRoom (c : Client) : Bool := c.mState == .joined

def getIsInLobby (c : Client) : Bool := c.mState == .joinedLobby

def getIsInRoom (c : Client) : Bool := c.getIsInLobby || c.getIsInGameRoom

def getIsOnGameServer (c : Client) : Bool :=
  decide (c.mState.value ≥ PeerStates.connectingToGameserver.value)
    && decide (c.mState.value < PeerStates.connectingToMasterserver.value)

/-! ## small helpers -/

def authenticate (c : Client) : Out :=
  .peer (.request (.authenticate c.mUseAuthOnce c.mSecret c.mSelectedRegion))

def callPeerConnect (c : Client) (address : JString) : Out :=
  .peer (.connect address (if c.mUseAuthOnce then c.mSecret else []))

/-- What the app gets to see of `mSelectedRegion`. -/
def region (c : Client) : JString := c.mSelectedRegion.takeWhile (· ≠ '/')

/-- `RoomOptions(options).set…`: the master gets neither custom properties nor the list of those
that the lobby shows. -/
def optionsFor (c : Client) (options : RoomOptions) : RoomOptions :=
  if c.getIsOnGameServer then options
  else { options with customRoomProperties := Parallel.empty, propsListedInLobby := [] }

def lobbyRefused (lobbyName : JString) (lobbyType : NByte) : Bool :=
  lobbyName.isEmpty && lobbyType != LobbyType.DEFAULT

/-- `if(mState != PeerStates::Joining) mLastJoinType = …` -/
def lastJoinType (c : Client) (type : JoinType) : Option JoinType :=
  if c.mState ≠ .joining then some type else c.mLastJoinType

/-- An app that asks for the room before there is one gets an empty one. -/
def getCurrentlyJoinedRoom (c : Client) : Client × MutableRoom :=
  match c.mpCurrentlyJoinedRoom with
  | some room => (c, room)
  | none =>
    let room := MutableRoom.create [] Parallel.empty [] 0 0 false none false []
    ({ c with mpCurrentlyJoinedRoom := some room }, room)

/-! ## operations -/

def opJoinLobby (c : Client) (ok : Bool) (lobbyName : JString) (lobbyType : NByte) :
    Client × List Out × Bool :=
  if c.getIsInRoom then (c, [], false)
  else
    let c := { c with mLastLobbyJoinType := some .explicitJoinLobby }
    if lobbyRefused lobbyName lobbyType then (c, [], false)
    else (c, [.peer (.request (.joinLobby lobbyName lobbyType))], ok)

def opLeaveLobby (c : Client) (ok : Bool) : Client × List Out × Bool :=
  if !c.getIsInLobby then (c, [], false) else (c, [.peer (.request .leaveLobby)], ok)

def opCreateRoom (c : Client) (ok : Bool) (gameID : JString) (options : RoomOptions)
    (expectedUsers : List JString) : Client × List Out × Bool :=
  if c.getIsInGameRoom then (c, [], false)
  else if lobbyRefused options.lobbyName options.lobbyType then (c, [], false)
  else
    let c := { c with mRoomName := gameID }
    let out := [.peer (.request (.createRoom gameID (c.optionsFor options) expectedUsers))]
    if !ok then (c, out, false)
    else
      ({ c with
          mpCurrentlyJoinedRoom := some (MutableRoom.ofOptions gameID options expectedUsers)
          mLastJoinType := c.lastJoinType .createRoom }, out, true)

def opJoinOrCreateRoom (c : Client) (ok : Bool) (gameID : JString) (options : RoomOptions)
    (cacheSliceIndex : Int) (expectedUsers : List JString) : Client × List Out × Bool :=
  if c.getIsInGameRoom then (c, [], false)
  else if lobbyRefused options.lobbyName options.lobbyType then (c, [], false)
  else
    let sliceIndex := if c.getIsOnGameServer then cacheSliceIndex else 0
    let c := { c with mRoomName := gameID }
    if gameID.isEmpty then (c, [], false)
    else
      let out := [.peer (.request
        (.joinRoom gameID (some (c.optionsFor options)) false sliceIndex expectedUsers))]
      if !ok then (c, out, false)
      else
        ({ c with
            mpCurrentlyJoinedRoom := some (MutableRoom.ofOptions gameID options expectedUsers)
            mLastCacheSliceIndex := cacheSliceIndex
            mLastJoinType := c.lastJoinType .joinOrCreateRoom }, out, true)

def opJoinRandomOrCreateRoom (c : Client) (ok : Bool) (gameID : JString) (options : RoomOptions)
    (filter : Matchmaking) (expectedUsers : List JString) : Client × List Out × Bool :=
  if c.getIsInGameRoom then (c, [], false)
  else if lobbyRefused options.lobbyName options.lobbyType
      || lobbyRefused filter.lobbyName filter.lobbyType then (c, [], false)
  else
    let c := { c with mRoomName := gameID }
    let sent := { options with customRoomProperties := Parallel.empty, propsListedInLobby := [] }
    let out := [.peer (.request (.joinRandomRoom gameID (some sent) filter expectedUsers))]
    if !ok then (c, out, false)
    else
      ({ c with
          mpCurrentlyJoinedRoom := some (MutableRoom.ofOptions gameID options expectedUsers)
          mLastJoinType := c.lastJoinType .joinRandomOrCreateRoom }, out, true)

def opJoinRoom (c : Client) (ok : Bool) (gameID : JString) (rejoin : Bool) (cacheSliceIndex : Int)
    (expectedUsers : List JString) : Client × List Out × Bool :=
  if c.getIsInGameRoom then (c, [], false)
  else
    let sliceIndex := if c.getIsOnGameServer then cacheSliceIndex else 0
    let c := { c with mRoomName := gameID }
    if gameID.isEmpty then (c, [], false)
    else
      let out := [.peer (.request (.joinRoom gameID none rejoin sliceIndex expectedUsers))]
      if !ok then (c, out, false)
      else
        ({ c with
            mpCurrentlyJoinedRoom := some (MutableRoom.ofName gameID Parallel.empty expectedUsers)
            mLastJoinWasRejoin := rejoin
            mLastCacheSliceIndex := cacheSliceIndex
            mLastJoinType := c.lastJoinType .joinRoom }, out, true)

def opJoinRandomRoom (c : Client) (ok : Bool) (filter : Matchmaking)
    (expectedUsers : List JString) : Client × List Out × Bool :=
  if c.getIsInGameRoom then (c, [], false)
  else if lobbyRefused filter.lobbyName filter.lobbyType then (c, [], false)
  else
    let out := [.peer (.request (.joinRandomRoom [] none filter expectedUsers))]
    if !ok then (c, out, false)
    else
      let properties := stripToCustomProperties filter.customRoomProperties
      ({ c with
          mpCurrentlyJoinedRoom := some (MutableRoom.ofName [] properties expectedUsers)
          mLastJoinType := c.lastJoinType .joinRandomRoom }, out, true)

def opLeaveRoom (c : Client) (ok : Bool) (willComeBack sendAuthCookie : Bool) :
    Client × List Out × Bool :=
  if !c.getIsInGameRoom then (c, [], false)
  else
    let out := [.peer (.request (.leave willComeBack sendAuthCookie))]
    if !ok then (c, out, false) else ({ c with mState := .leaving }, out, true)

def opRaiseEvent (c : Client) (ok : Bool) (raised : Raised) : Client × List Out × Bool :=
  if !c.getIsInGameRoom then (c, [], false)
  else (c, [.peer (.request (.raiseEvent raised))], ok)

/-! ## connecting -/

structure ConnectOptions where
  serverAddress : JString
  serverType : ServerType
  secret : JString

/-- The guard compares with `PeerState::DISCONNECTED`, which is 0. -/
def connect (c : Client) (ok : Bool) (options : ConnectOptions) : Client × List Out × Bool :=
  if c.mState.value > PeerStates.peerCreated.value ∧ c.mState.value < PeerState.disconnected.ctorIdx
  then (c, [], false)
  else
    let c := { c with
      mUseAuthOnce := !c.M_IS_WEB_SOCKET && options.serverType == .nameServer }
    let out := [.peer (.connect options.serverAddress [])]
    if !ok then (c, out, false)
    else
      ({ c with
          mSecret := options.secret
          mMasterserver :=
            if options.serverType = .masterServer then options.serverAddress else c.mMasterserver
          mState :=
            if options.serverType = .nameServer then .connectingToNameserver else .connecting },
        out, true)

def disconnect (c : Client) : Client × List Out :=
  ({ c with mState := .disconnecting }, [.peer .disconnect])

def selectRegion (c : Client) (ok : Bool) (selectedRegion : JString) : Client × List Out × Bool :=
  if c.M_REGION_SELECTION_MODE ≠ .select then (c, [], false)
  else
    let c := { c with mSelectedRegion := selectedRegion }
    (c, [c.authenticate], ok)

def opCustomAuthenticationSendNextStepData (c : Client) (ok : Bool) (secret : JString) :
    Client × List Out × Bool :=
  if c.mState ≠ .waitingForCustomAuthenticationNextStepCall then (c, [], false)
  else
    let c := { c with mState := .connectedToNameserver, mSecret := secret }
    (c, [c.authenticate], ok)

def reconnectAndRejoin (c : Client) (ok : Bool) : Client × List Out × Bool :=
  if c.mGameserver.isEmpty then (c, [], false)
  else
    let c := { c with mState := .connectingToGameserver, mLastJoinWasRejoin := true }
    let out := [c.callPeerConnect c.mGameserver]
    if !ok then (c, out, false) else ({ c with mLastJoinType := some .joinRoom }, out, true)

/-! ## steps of the flow -/

def handleConnectionFlowError (c : Client) (oldState : PeerStates) (errorCode : Int)
    (errorString : JString) : Client × List Out :=
  if oldState = .connectedToGameserver ∨ oldState = .authenticatedOnGameServer
      ∨ oldState = .joining then
    ({ c with
        mCachedErrorCodeFromGameServer := errorCode
        mCachedErrorStringFromGameServer := errorString
        mState := .disconnectingFromGameserver }, [.peer .disconnect])
  else
    ({ c with mState := .disconnecting },
      [.peer .disconnect, .app (.connectReturn errorCode errorString [] [])])

def onConnectToMasterFinished (c : Client) (comingFromGameserver : Bool) : Client × List Out :=
  if comingFromGameserver then
    if c.mCachedErrorCodeFromGameServer ≠ ErrorCode.OK then
      ({ c with
          mCachedErrorCodeFromGameServer := ErrorCode.OK
          mCachedErrorStringFromGameServer := [] },
        match c.mLastJoinType with
        | some type =>
          [.app (.joinReturn type 0 c.mCachedErrorCodeFromGameServer
            c.mCachedErrorStringFromGameServer)]
        | none => [])
    else (c, [.app (.leaveRoomReturn 0 [])])
  else (c, [.app (.connectReturn 0 [] c.region c.mCluster)])

/-- The join that the arrival at the game server goes on with. -/
def joinOnGameServer (c : Client) (ok : Bool) (room : MutableRoom) : Client × List Out :=
  match c.mLastJoinType with
  | some .createRoom =>
    let r := c.opCreateRoom ok c.mRoomName room.toOptions room.mExpectedUsers
    (r.1, r.2.1)
  | some .joinOrCreateRoom =>
    let r := c.opJoinOrCreateRoom ok c.mRoomName room.toOptions c.mLastCacheSliceIndex
      room.mExpectedUsers
    (r.1, r.2.1)
  | some .joinRandomOrCreateRoom =>
    let r := c.opJoinOrCreateRoom ok c.mRoomName room.toOptions 0 room.mExpectedUsers
    (r.1, r.2.1)
  | some .joinRoom =>
    let r := c.opJoinRoom ok c.mRoomName c.mLastJoinWasRejoin c.mLastCacheSliceIndex
      room.mExpectedUsers
    (r.1, r.2.1)
  | some .joinRandomRoom =>
    let r := c.opJoinRoom ok c.mRoomName false 0 room.mExpectedUsers
    (r.1, r.2.1)
  | none => (c, [])

def onArrivalAndAuthentication (c : Client) (ok : Bool) : Client × List Out :=
  if c.mState = .connected ∨ c.mState = .connectedComingFromGameserver then
    let c : Client := { c with
      mState :=
        if c.mState = .connected then .authenticated else .authenticatedComingFromGameserver }
    if c.mAutoJoinLobby then
      let r := c.opJoinLobby ok [] LobbyType.DEFAULT
      ({ r.1 with mLastLobbyJoinType := some .autoJoinLobby }, r.2.1)
    else c.onConnectToMasterFinished (c.mState == .authenticatedComingFromGameserver)
  else if c.mState = .connectedToGameserver then
    let c : Client := { c with
      mState := .joining
      mCachedErrorCodeFromGameServer := ErrorCode.OK
      mCachedErrorStringFromGameServer := [] }
    match c.mpCurrentlyJoinedRoom with
    | some room => c.joinOnGameServer ok room
    | none => (c, [.nullDereference])
  else (c, [])

/-! ## the listener of the peer -/

/-- `StatusCode::CONNECT` -/
def onConnect (c : Client) : Client × List Out :=
  let c : Client := { c with
    mState :=
      if c.mState = .connectingToNameserver then .connectedToNameserver
      else if c.mState = .connectingToGameserver then .connectedToGameserver
      else if c.mState = .connecting then .connected
      else .connectedComingFromGameserver }
  if !c.mUseAuthOnce || c.mSecret.isEmpty then (c, [.peer (.request .establishEncryption)])
  else if c.mState = .connectedToNameserver then (c, [.peer (.request (.getRegions false))])
  else if !c.mUseAuthOnce then (c, [c.authenticate])
  else (c, [])

/-- `StatusCode::DISCONNECT` -/
def onDisconnect (c : Client) : Client × List Out :=
  if c.mState = .disconnectingFromNameserver then
    ({ c with mState := .connecting }, [c.callPeerConnect c.mMasterserver])
  else if c.mState = .disconnectingFromMasterserver then
    ({ c with mState := .connectingToGameserver }, [c.callPeerConnect c.mGameserver])
  else if c.mState = .disconnectingFromGameserver then
    ({ c with mState := .connectingToMasterserver }, [c.callPeerConnect c.mMasterserver])
  else ({ c with mState := .peerCreated }, [.app .disconnectReturn])

/-- `StatusCode::ENCRYPTION_ESTABLISHED` -/
def onEncryptionEstablished (c : Client) : Client × List Out :=
  if c.mState = .connectedToNameserver then (c, [.peer (.request (.getRegions true))])
  else (c, [c.authenticate])

/-- `"Encryption failed to establish"` -/
def ENCRYPTION_FAILED : JString := "Encryption failed to establish".toList

/-- `StatusCode::ENCRYPTION_FAILED_TO_ESTABLISH` -/
def onEncryptionFailed (c : Client) : Client × List Out :=
  c.handleConnectionFlowError c.mState ENCRYPTION_FAILED_TO_ESTABLISH ENCRYPTION_FAILED

/-- The statuses that end a connection; `peerState` is what the peer says of itself by then. -/
def onConnectionError (c : Client) (error : ConnectionError) (peerState : PeerState) :
    Client × List Out :=
  if peerState ≠ .disconnected ∧ peerState ≠ .disconnecting then
    let r := c.disconnect
    (r.1, .app (.connectionErrorReturn error.statusCode) :: r.2)
  else
    ({ c with mState := .peerCreated }, [.app (.connectionErrorReturn error.statusCode)])

def setSecret (c : Client) (secret : JString) : Client × List Out :=
  ({ c with mSecret := secret }, [.app (.onSecretReceival secret)])

/-- The end of `onPingResponse`. -/
def onBestRegion (c : Client) (regionWithBestPing : JString) : Client × List Out :=
  let c := { c with
    mRegionWithBestPing := regionWithBestPing
    mSelectedRegion := regionWithBestPing }
  (c, [c.authenticate])

def onAuthenticate (c : Client) (ok : Bool) (r : OperationResponse) : Client × List Out :=
  if r.returnCode ≠ 0 then c.handleConnectionFlowError c.mState r.returnCode r.debugMessage
  else if c.mState = .connectedToNameserver then
    let c := { c with mCluster := r.cluster.getD c.mCluster }
    if r.data then
      ({ c with mState := .waitingForCustomAuthenticationNextStepCall },
        [.app .onCustomAuthenticationIntermediateStep])
    else
      ({ c with mState := .disconnectingFromNameserver, mMasterserver := r.address },
        [.peer .disconnect])
  else c.onArrivalAndAuthentication ok

def onGetRegions (c : Client) (r : OperationResponse) : Client × List Out :=
  if r.returnCode ≠ 0 then (c, [])
  else
    let c := { c with mAvailableRegions := r.regions, mAvailableRegionServers := r.servers }
    match c.M_REGION_SELECTION_MODE with
    | .default =>
      let c := { c with mSelectedRegion := c.mAvailableRegions.headD [] }
      (c, [c.authenticate])
    | .select =>
      (c, [.app (.onAvailableRegions c.mAvailableRegions c.mAvailableRegionServers)])
    | .best =>
      if !c.mRegionWithBestPing.isEmpty then
        let c := { c with mSelectedRegion := c.mRegionWithBestPing }
        (c, [c.authenticate])
      else (c, [.peer (.pingServers c.mAvailableRegionServers)])

/-- An answer of the game server to `CREATE_ROOM` or `JOIN_ROOM` -/
def onEnterOnGameServer (c : Client) (r : OperationResponse) : Client × List Out :=
  if r.returnCode ≠ 0 then c.handleConnectionFlowError c.mState r.returnCode r.debugMessage
  else
    let c := { c with mState := .joined }
    match c.mpCurrentlyJoinedRoom with
    | none => (c, [.nullDereference])
    | some _ =>
      match c.mLastJoinType with
      | some type => (c, [.app (.joinReturn type r.playerNr r.returnCode r.debugMessage)])
      | none => (c, [])

/-- The master has found or made the room. -/
def goToGameServer (c : Client) (address : JString) : Client × List Out :=
  ({ c with mGameserver := address, mState := .disconnectingFromMasterserver },
    [.peer .disconnect])

def onCreateRoom (c : Client) (r : OperationResponse) : Client × List Out :=
  if c.getIsOnGameServer then c.onEnterOnGameServer r
  else if r.returnCode ≠ 0 then
    (c, [.app (.joinReturn .createRoom 0 r.returnCode r.debugMessage)])
  else
    let c := { c with mRoomName := if r.roomName.isEmpty then c.mRoomName else r.roomName }
    c.goToGameServer r.address

def onJoinRoom (c : Client) (r : OperationResponse) : Client × List Out :=
  if c.getIsOnGameServer then c.onEnterOnGameServer r
  else if r.returnCode ≠ 0 then
    match c.mLastJoinType with
    | some .joinOrCreateRoom =>
      (c, [.app (.joinReturn .joinOrCreateRoom 0 r.returnCode r.debugMessage)])
    | some .joinRoom => (c, [.app (.joinReturn .joinRoom 0 r.returnCode r.debugMessage)])
    | _ => (c, [])
  else c.goToGameServer r.address

def onJoinRandomRoom (c : Client) (r : OperationResponse) : Client × List Out :=
  if r.returnCode ≠ 0 then
    match c.mLastJoinType with
    | some .joinRandomOrCreateRoom =>
      (c, [.app (.joinReturn .joinRandomOrCreateRoom 0 r.returnCode r.debugMessage)])
    | some .joinRandomRoom =>
      (c, [.app (.joinReturn .joinRandomRoom 0 r.returnCode r.debugMessage)])
    | _ => (c, [])
  else
    let c := { c with mRoomName := r.roomName }
    c.goToGameServer r.address

/-- Whatever the return code is, the lobby counts as joined. -/
def onJoinLobby (c : Client) : Client × List Out :=
  let oldState := c.mState
  let c := { c with mState := .joinedLobby }
  if c.mLastLobbyJoinType = some .autoJoinLobby then
    c.onConnectToMasterFinished (oldState == .authenticatedComingFromGameserver)
  else (c, [.app .joinLobbyReturn])

def onLeaveLobby (c : Client) : Client × List Out :=
  ({ c with mState := .authenticated }, [.app .leaveLobbyReturn])

def onLeave (c : Client) : Client × List Out :=
  match c.mpCurrentlyJoinedRoom with
  | none => (c, [.nullDereference])
  | some _ => ({ c with mState := .disconnectingFromGameserver }, [.peer .disconnect])

/-- The operation of the response, when its secret has been read. -/
def onOperation (c : Client) (ok : Bool) (r : OperationResponse) : Client × List Out :=
  match r.operationCode with
  | .authenticate => c.onAuthenticate ok r
  | .getRegions => c.onGetRegions r
  | .joinLobby => c.onJoinLobby
  | .leaveLobby => c.onLeaveLobby
  | .createRoom => c.onCreateRoom r
  | .joinRoom => c.onJoinRoom r
  | .joinRandomRoom => c.onJoinRandomRoom r
  | .leave => c.onLeave

def onOperationResponse (c : Client) (ok : Bool) (r : OperationResponse) : Client × List Out :=
  match r.secret with
  | none => c.onOperation ok r
  | some secret =>
    let s := c.setSecret secret
    let o := s.1.onOperation ok r
    (o.1, s.2 ++ o.2)

end Client

end LoadBalancing
