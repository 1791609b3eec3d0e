import Fiesta.LoadBalancing.Master

/-!
# The room the client holds

`mpCurrentlyJoinedRoom` is null until the app joins, and these handlers use it without a check: the
arrival at the game server, its answer to `CREATE_ROOM` or `JOIN_ROOM`, and the answer to `LEAVE`.
It is there whenever one of them uses it.  (The events of a room use it as well; `Photon.Roster` has
them, for a client that has entered.)

* `Roomless`         a client without a room knows no game server, and no answer to come needs a room;
* `Handled`          what every handler keeps of it, and that the mode of choosing a region stays;
* `handled_input`    an input that the wire admits uses no room that is not there;
* `handled_call`     neither does a call;
* `hasRoom_step`     **no step of client and wire uses a room that is not there**, whatever the app
                     calls.
-/

namespace LoadBalancing

open Photon

/-- The client is neither at a game server nor on its way there. -/
def PeerStates.away (state : PeerStates) : Bool :=
  decide (state.value < PeerStates.disconnectingFromMasterserver.value)
    || decide (PeerStates.connectingToMasterserver.value ≤ state.value)

/-- The answers that take the client to a game server or away from it. -/
def Awaited.needsRoom : Awaited → Bool
  | .response .createRoom => true
  | .response .joinRoom => true
  | .response .joinRandomRoom => true
  | .response .leave => true
  | _ => false

def Out.needsRoom : Out → Bool
  | .peer (.request request) => request.awaited.any Awaited.needsRoom
  | _ => false

/-- No answer to come needs a room. -/
def Wire.Roomless (w : Wire) : Prop := ∀ x ∈ w.awaited, x.needsRoom = false

structure Roomless (c : Client) (w : Wire) : Prop where
  server : c.mGameserver = []
  away : c.mState.away = true
  wire : w.Roomless

def HasRoom (c : Client) (w : Wire) : Prop := c.mpCurrentlyJoinedRoom = none → Roomless c w

/-- Nothing that takes a room to be there: no use of it, and no request whose answer needs it, unless
the peer refuses the request. -/
def Plain (ok : Bool) (outs : List Out) : Prop :=
  .nullDereference ∉ outs ∧ (ok = true → ∀ out ∈ outs, out.needsRoom = false)

structure Handled (ok : Bool) (c : Client) (r : Client × List Out) : Prop where
  mode : r.1.M_REGION_SELECTION_MODE = c.M_REGION_SELECTION_MODE
  null : .nullDereference ∉ r.2
  room : r.1.mpCurrentlyJoinedRoom = none → c.mpCurrentlyJoinedRoom = none
  roomless : r.1.mpCurrentlyJoinedRoom = none → c.mGameserver = [] → c.mState.away = true →
    r.1.mGameserver = [] ∧ r.1.mState.away = true
      ∧ (ok = true → ∀ out ∈ r.2, out.needsRoom = false)

section
variable {ok : Bool} {c c' : Client} {outs : List Out}

/-- The room and the game server stay, and the client stays away. -/
theorem Handled.of_eq (hserver : c'.mGameserver = c.mGameserver)
    (hroom : c'.mpCurrentlyJoinedRoom = c.mpCurrentlyJoinedRoom)
    (hmode : c'.M_REGION_SELECTION_MODE = c.M_REGION_SELECTION_MODE)
    (haway : c.mState.away = true → c'.mState.away = true) (houts : Plain ok outs) :
    Handled ok c (c', outs) where
  mode := hmode
  null := houts.1
  room h := hroom.symm.trans h
  roomless _ hs ha := ⟨hserver.trans hs, haway ha, houts.2⟩

theorem Handled.of_room (hroom : c'.mpCurrentlyJoinedRoom ≠ none)
    (hmode : c'.M_REGION_SELECTION_MODE = c.M_REGION_SELECTION_MODE)
    (hnull : .nullDereference ∉ outs) : Handled ok c (c', outs) where
  mode := hmode
  null := hnull
  room h := absurd h hroom
  roomless h := absurd h hroom

/-- A handler that starts from a client with the same room, game server and mode. -/
theorem Handled.from_eq {r : Client × List Out} (h : Handled ok c' r)
    (hserver : c'.mGameserver = c.mGameserver)
    (hroom : c'.mpCurrentlyJoinedRoom = c.mpCurrentlyJoinedRoom)
    (hmode : c'.M_REGION_SELECTION_MODE = c.M_REGION_SELECTION_MODE)
    (haway : c.mState.away = true → c'.mState.away = true) : Handled ok c r where
  mode := h.mode.trans hmode
  null := h.null
  room hr := hroom.symm.trans (h.room hr)
  roomless hr hs ha := h.roomless hr (hserver.trans hs) (haway ha)

theorem plain_nil : Plain ok [] :=
  ⟨List.not_mem_nil, fun _ _ h => absurd h List.not_mem_nil⟩

theorem plain_cons {out : Out} (hnull : out ≠ .nullDereference) (hneeds : out.needsRoom = false)
    (h : Plain ok outs) : Plain ok (out :: outs) :=
  ⟨List.not_mem_cons_of_ne_of_not_mem hnull.symm h.1,
    fun hok => List.forall_mem_cons.2 ⟨hneeds, h.2 hok⟩⟩

theorem plain_peer {call : PeerCall} (h : (Out.peer call).needsRoom = false) :
    Plain ok [.peer call] := plain_cons Out.noConfusion h plain_nil

theorem plain_app (callback : Callback) : Plain ok [.app callback] :=
  plain_cons Out.noConfusion rfl plain_nil

theorem not_null_peer (call : PeerCall) : Out.nullDereference ∉ [.peer call] := by simp

/-- A request that the peer refuses. -/
theorem plain_refused (call : PeerCall) : Plain false [.peer call] :=
  ⟨not_null_peer call, fun h => by cases h⟩

end

section
variable (c : Client) (ok : Bool)

/-! ## steps of the flow -/

theorem handled_flowError (errorCode : Int) (errorString : JString) :
    Handled ok c (c.handleConnectionFlowError c.mState errorCode errorString) := by
  unfold Client.handleConnectionFlowError
  split
  · rename_i hserver
    refine .of_eq rfl rfl rfl ?_ (plain_peer rfl)
    intro haway
    obtain h | h | h := hserver <;> rw [h] at haway <;> cases haway
  · exact .of_eq rfl rfl rfl (fun _ => rfl) (plain_cons Out.noConfusion rfl (plain_app _))

theorem handled_finished (comingFromGameserver : Bool) :
    Handled ok c (c.onConnectToMasterFinished comingFromGameserver) := by
  unfold Client.onConnectToMasterFinished
  split
  · split
    · cases c.mLastJoinType with
      | none => exact .of_eq rfl rfl rfl id plain_nil
      | some type => exact .of_eq rfl rfl rfl id (plain_app _)
    · exact .of_eq rfl rfl rfl id (plain_app _)
  · exact .of_eq rfl rfl rfl id (plain_app _)

theorem handled_opJoinLobby (lobbyName : JString) (lobbyType : NByte) :
    Handled ok c ((c.opJoinLobby ok lobbyName lobbyType).1,
      (c.opJoinLobby ok lobbyName lobbyType).2.1) := by
  unfold Client.opJoinLobby
  split
  · exact .of_eq rfl rfl rfl id plain_nil
  · split
    · exact .of_eq rfl rfl rfl id plain_nil
    · exact .of_eq rfl rfl rfl id (plain_peer rfl)

theorem handled_opCreateRoom (gameID : JString) (options : RoomOptions)
    (expectedUsers : List JString) :
    Handled ok c ((c.opCreateRoom ok gameID options expectedUsers).1,
      (c.opCreateRoom ok gameID options expectedUsers).2.1) := by
  unfold Client.opCreateRoom
  split
  · exact .of_eq rfl rfl rfl id plain_nil
  · split
    · exact .of_eq rfl rfl rfl id plain_nil
    · cases ok with
      | false => exact .of_eq rfl rfl rfl id (plain_refused _)
      | true => exact .of_room (Option.some_ne_none _) rfl (not_null_peer _)

theorem handled_opJoinOrCreateRoom (gameID : JString) (options : RoomOptions)
    (cacheSliceIndex : Int) (expectedUsers : List JString) :
    Handled ok c ((c.opJoinOrCreateRoom ok gameID options cacheSliceIndex expectedUsers).1,
      (c.opJoinOrCreateRoom ok gameID options cacheSliceIndex expectedUsers).2.1) := by
  unfold Client.opJoinOrCreateRoom
  split
  · exact .of_eq rfl rfl rfl id plain_nil
  · split
    · exact .of_eq rfl rfl rfl id plain_nil
    · cases gameID with
      | nil => exact .of_eq rfl rfl rfl id plain_nil
      | cons x xs =>
        cases ok with
        | false => exact .of_eq rfl rfl rfl id (plain_refused _)
        | true => exact .of_room (Option.some_ne_none _) rfl (not_null_peer _)

theorem handled_opJoinRandomOrCreateRoom (gameID : JString) (options : RoomOptions)
    (filter : Matchmaking) (expectedUsers : List JString) :
    Handled ok c ((c.opJoinRandomOrCreateRoom ok gameID options filter expectedUsers).1,
      (c.opJoinRandomOrCreateRoom ok gameID options filter expectedUsers).2.1) := by
  unfold Client.opJoinRandomOrCreateRoom
  split
  · exact .of_eq rfl rfl rfl id plain_nil
  · split
    · exact .of_eq rfl rfl rfl id plain_nil
    · cases ok with
      | false => exact .of_eq rfl rfl rfl id (plain_refused _)
      | true => exact .of_room (Option.some_ne_none _) rfl (not_null_peer _)

theorem handled_opJoinRoom (gameID : JString) (rejoin : Bool) (cacheSliceIndex : Int)
    (expectedUsers : List JString) :
    Handled ok c ((c.opJoinRoom ok gameID rejoin cacheSliceIndex expectedUsers).1,
      (c.opJoinRoom ok gameID rejoin cacheSliceIndex expectedUsers).2.1) := by
  unfold Client.opJoinRoom
  split
  · exact .of_eq rfl rfl rfl id plain_nil
  · cases gameID with
    | nil => exact .of_eq rfl rfl rfl id plain_nil
    | cons x xs =>
      cases ok with
      | false => exact .of_eq rfl rfl rfl id (plain_refused _)
      | true => exact .of_room (Option.some_ne_none _) rfl (not_null_peer _)

theorem handled_opJoinRandomRoom (filter : Matchmaking) (expectedUsers : List JString) :
    Handled ok c ((c.opJoinRandomRoom ok filter expectedUsers).1,
      (c.opJoinRandomRoom ok filter expectedUsers).2.1) := by
  unfold Client.opJoinRandomRoom
  split
  · exact .of_eq rfl rfl rfl id plain_nil
  · split
    · exact .of_eq rfl rfl rfl id plain_nil
    · cases ok with
      | false => exact .of_eq rfl rfl rfl id (plain_refused _)
      | true => exact .of_room (Option.some_ne_none _) rfl (not_null_peer _)

theorem handled_joinOnGameServer (room : MutableRoom) :
    Handled ok c (c.joinOnGameServer ok room) := by
  unfold Client.joinOnGameServer
  cases c.mLastJoinType with
  | none => exact .of_eq rfl rfl rfl id plain_nil
  | some type =>
    cases type with
    | createRoom => exact handled_opCreateRoom c ok _ _ _
    | joinOrCreateRoom => exact handled_opJoinOrCreateRoom c ok _ _ _ _
    | joinRandomOrCreateRoom => exact handled_opJoinOrCreateRoom c ok _ _ _ _
    | joinRoom => exact handled_opJoinRoom c ok _ _ _ _
    | joinRandomRoom => exact handled_opJoinRoom c ok _ _ _ _

theorem handled_arrival
    (hroom : c.mState = .connectedToGameserver → c.mpCurrentlyJoinedRoom ≠ none) :
    Handled ok c (c.onArrivalAndAuthentication ok) := by
  unfold Client.onArrivalAndAuthentication
  split
  · generalize hstate : (if c.mState = .connected then PeerStates.authenticated
      else .authenticatedComingFromGameserver) = state
    have haway : state.away = true := by
      rw [← hstate]
      split <;> rfl
    cases hauto : c.mAutoJoinLobby with
    | true =>
      simp only [if_true]
      have hlobby : Handled ok c _ := (handled_opJoinLobby
        { c with mState := state, mAutoJoinLobby := true } ok [] LobbyType.DEFAULT).from_eq
        rfl rfl rfl fun _ => haway
      exact ⟨hlobby.mode, hlobby.null, hlobby.room, hlobby.roomless⟩
    | false =>
      simp only [Bool.false_eq_true, if_false]
      exact (handled_finished _ ok _).from_eq rfl rfl rfl fun _ => haway
  · split
    · rename_i h
      obtain ⟨room, hsome⟩ := Option.ne_none_iff_exists'.1 (hroom h)
      simp only [hsome]
      refine (handled_joinOnGameServer _ ok room).from_eq rfl hsome.symm rfl fun haway => ?_
      rw [h] at haway
      cases haway
    · exact .of_eq rfl rfl rfl id plain_nil

/-! ## responses -/

variable (r : OperationResponse)

theorem handled_authenticate
    (hroom : c.mState = .connectedToGameserver → c.mpCurrentlyJoinedRoom ≠ none) :
    Handled ok c (c.onAuthenticate ok r) := by
  unfold Client.onAuthenticate
  split
  · exact handled_flowError c ok _ _
  · split
    · cases r.data with
      | true => exact .of_eq rfl rfl rfl (fun _ => rfl) (plain_app _)
      | false => exact .of_eq rfl rfl rfl (fun _ => rfl) (plain_peer rfl)
    · exact handled_arrival c ok hroom

theorem handled_regions : Handled ok c (c.onGetRegions r) := by
  unfold Client.onGetRegions
  split
  · exact .of_eq rfl rfl rfl id plain_nil
  · cases hmode : c.M_REGION_SELECTION_MODE with
    | default => exact .of_eq rfl rfl hmode.symm id (plain_peer rfl)
    | select => exact .of_eq rfl rfl hmode.symm id (plain_app _)
    | best =>
      simp only
      split
      · exact .of_eq rfl rfl hmode.symm id (plain_peer rfl)
      · exact .of_eq rfl rfl hmode.symm id (plain_peer rfl)

theorem handled_joinLobby : Handled ok c c.onJoinLobby := by
  unfold Client.onJoinLobby
  simp only
  split
  · exact (handled_finished _ ok _).from_eq rfl rfl rfl fun _ => rfl
  · exact .of_eq rfl rfl rfl (fun _ => rfl) (plain_app _)

theorem handled_entered (hroom : c.mpCurrentlyJoinedRoom ≠ none) :
    Handled ok c (c.onEnterOnGameServer r) := by
  obtain ⟨room, hsome⟩ := Option.ne_none_iff_exists'.1 hroom
  unfold Client.onEnterOnGameServer
  split
  · exact handled_flowError c ok _ _
  · simp only [hsome]
    cases c.mLastJoinType with
    | none => exact .of_room (Option.some_ne_none room) rfl List.not_mem_nil
    | some type => exact .of_room (Option.some_ne_none room) rfl (by simp)

/-- A join that is on its way has its room, on the master and on the game server. -/
theorem handled_join (hroom : c.mpCurrentlyJoinedRoom ≠ none) :
    Handled ok c (c.onCreateRoom r) ∧ Handled ok c (c.onJoinRoom r)
      ∧ Handled ok c (c.onJoinRandomRoom r) := by
  refine ⟨?_, ?_, ?_⟩
  · unfold Client.onCreateRoom
    split
    · exact handled_entered c ok r hroom
    · split
      · exact .of_eq rfl rfl rfl id (plain_app _)
      · exact .of_room hroom rfl (not_null_peer _)
  · unfold Client.onJoinRoom
    split
    · exact handled_entered c ok r hroom
    · split
      · split
        · exact .of_eq rfl rfl rfl id (plain_app _)
        · exact .of_eq rfl rfl rfl id (plain_app _)
        · exact .of_eq rfl rfl rfl id plain_nil
      · exact .of_room hroom rfl (not_null_peer _)
  · unfold Client.onJoinRandomRoom
    split
    · split
      · exact .of_eq rfl rfl rfl id (plain_app _)
      · exact .of_eq rfl rfl rfl id (plain_app _)
      · exact .of_eq rfl rfl rfl id plain_nil
    · exact .of_room hroom rfl (not_null_peer _)

theorem handled_leave (hroom : c.mpCurrentlyJoinedRoom ≠ none) : Handled ok c c.onLeave := by
  obtain ⟨room, hsome⟩ := Option.ne_none_iff_exists'.1 hroom
  unfold Client.onLeave
  simp only [hsome]
  exact .of_room (Option.some_ne_none room) rfl (not_null_peer _)

end

/-! ## inputs -/

section
variable {ok : Bool} {c : Client} {w : Wire}

theorem handled_operation {r : OperationResponse}
    (hneeds : (Awaited.response r.operationCode).needsRoom = true → c.mpCurrentlyJoinedRoom ≠ none)
    (harrival : c.mState = .connectedToGameserver → c.mpCurrentlyJoinedRoom ≠ none) :
    Handled ok c (c.onOperation ok r) := by
  unfold Client.onOperation
  cases hop : r.operationCode with
  | authenticate => exact handled_authenticate c ok r harrival
  | getRegions => exact handled_regions c ok r
  | joinLobby => exact handled_joinLobby c ok
  | leaveLobby => exact .of_eq rfl rfl rfl (fun _ => rfl) (plain_app _)
  | createRoom => exact (handled_join c ok r (hneeds (by rw [hop]; rfl))).1
  | joinRoom => exact (handled_join c ok r (hneeds (by rw [hop]; rfl))).2.1
  | joinRandomRoom => exact (handled_join c ok r (hneeds (by rw [hop]; rfl))).2.2
  | leave => exact handled_leave c ok (hneeds (by rw [hop]; rfl))

theorem away_opened {state : PeerStates} (h : state.away = true) : state.opened.away = true := by
  cases state <;> first | rfl | cases h

/-- **An input that the wire admits uses no room that is not there.** -/
theorem handled_input {i : Input} (h : HasRoom c w) (hw : w.AdmitsInput i) :
    Handled ok c (c.onInput ok i) := by
  cases i with
  | connect =>
    show Handled ok c c.onConnect
    rw [onConnect_eq]
    refine .of_eq rfl rfl rfl away_opened ?_
    split
    · exact plain_peer rfl
    · split
      · exact plain_peer rfl
      · exact plain_nil
  | disconnect =>
    show Handled ok c c.onDisconnect
    unfold Client.onDisconnect
    split
    · exact .of_eq rfl rfl rfl (fun _ => rfl) (plain_peer rfl)
    · split
      · rename_i hstate
        refine .of_eq rfl rfl rfl (fun haway => ?_) (plain_peer rfl)
        rw [hstate] at haway
        cases haway
      · split
        · exact .of_eq rfl rfl rfl (fun _ => rfl) (plain_peer rfl)
        · exact .of_eq rfl rfl rfl (fun _ => rfl) (plain_app _)
  | encryptionEstablished =>
    show Handled ok c c.onEncryptionEstablished
    unfold Client.onEncryptionEstablished
    split
    · exact .of_eq rfl rfl rfl id (plain_peer rfl)
    · exact .of_eq rfl rfl rfl id (plain_peer rfl)
  | encryptionFailedToEstablish => exact handled_flowError c ok _ _
  | connectionError error peerState =>
    show Handled ok c (c.onConnectionError error peerState)
    unfold Client.onConnectionError
    split
    · exact .of_eq rfl rfl rfl (fun _ => rfl) (plain_cons Out.noConfusion rfl (plain_peer rfl))
    · exact .of_eq rfl rfl rfl (fun _ => rfl) (plain_app _)
  | secret secret => exact .of_eq rfl rfl rfl id (plain_app _)
  | bestRegion region => exact .of_eq rfl rfl rfl id (plain_peer rfl)
  | response r =>
    have hneeds (hr : (Awaited.response r.operationCode).needsRoom = true) :
        c.mpCurrentlyJoinedRoom ≠ none := by
      intro hnone
      rw [(h hnone).wire _ hw.2] at hr
      cases hr
    have harrival (hstate : c.mState = .connectedToGameserver) :
        c.mpCurrentlyJoinedRoom ≠ none := by
      intro hnone
      have haway := (h hnone).away
      rw [hstate] at haway
      cases haway
    show Handled ok c (c.onOperationResponse ok r)
    unfold Client.onOperationResponse
    cases r.secret with
    | none => exact handled_operation hneeds harrival
    | some secret =>
      have hsecret : Handled ok { c with mSecret := secret } _ := handled_operation hneeds harrival
      refine ⟨hsecret.mode, ?_, hsecret.room, fun hr hs ha => ?_⟩
      · exact List.not_mem_cons_of_ne_of_not_mem Out.noConfusion hsecret.null
      · obtain ⟨hserver, haway, houts⟩ := hsecret.roomless hr hs ha
        exact ⟨hserver, haway, fun hok => List.forall_mem_cons.2 ⟨rfl, houts hok⟩⟩

/-! ## calls -/

theorem handled_opJoin (c : Client) (ok : Bool) (j : Join) :
    Handled ok c ((c.opJoin ok j).1, (c.opJoin ok j).2.1) := by
  cases j with
  | createRoom gameID options expectedUsers => exact handled_opCreateRoom c ok _ _ _
  | joinOrCreateRoom gameID options slice expectedUsers =>
    exact handled_opJoinOrCreateRoom c ok _ _ _ _
  | joinRandomOrCreateRoom gameID options filter expectedUsers =>
    exact handled_opJoinRandomOrCreateRoom c ok _ _ _ _
  | joinRoom gameID rejoin slice expectedUsers => exact handled_opJoinRoom c ok _ _ _ _
  | joinRandomRoom filter expectedUsers => exact handled_opJoinRandomRoom c ok _ _

/-- Only a client that knows a game server goes back to it. -/
theorem handled_reconnectAndRejoin (c : Client) (ok : Bool) :
    Handled ok c ((c.reconnectAndRejoin ok).1, (c.reconnectAndRejoin ok).2.1) := by
  unfold Client.reconnectAndRejoin
  split
  · exact .of_eq rfl rfl rfl id plain_nil
  · rename_i hserver
    have hknown (hs : c.mGameserver = []) : False := hserver (by rw [hs]; rfl)
    cases ok with
    | false => exact ⟨rfl, not_null_peer _, id, fun _ hs _ => (hknown hs).elim⟩
    | true => exact ⟨rfl, not_null_peer _, id, fun _ hs _ => (hknown hs).elim⟩

/-- Only a client in a room leaves it. -/
theorem handled_opLeaveRoom (c : Client) (ok willComeBack sendAuthCookie : Bool) :
    Handled ok c ((c.opLeaveRoom ok willComeBack sendAuthCookie).1,
      (c.opLeaveRoom ok willComeBack sendAuthCookie).2.1) := by
  unfold Client.opLeaveRoom
  split
  · exact .of_eq rfl rfl rfl id plain_nil
  · rename_i hjoined
    have hin (ha : c.mState.away = true) : False := by
      have hstate : c.mState = .joined := by simpa [Client.getIsInGameRoom] using hjoined
      rw [hstate] at ha
      cases ha
    cases ok with
    | false => exact .of_eq rfl rfl rfl id (plain_refused _)
    | true => exact ⟨rfl, not_null_peer _, id, fun _ _ ha => (hin ha).elim⟩

theorem handled_call (c : Client) (ok : Bool) (call : Call) :
    Handled ok c ((c.onCall ok call).1, (c.onCall ok call).2.1) := by
  cases call with
  | connect options =>
    show Handled ok c ((c.connect ok options).1, (c.connect ok options).2.1)
    unfold Client.connect
    split
    · exact .of_eq rfl rfl rfl id plain_nil
    · cases ok with
      | false => exact .of_eq rfl rfl rfl id (plain_peer rfl)
      | true =>
        refine .of_eq rfl rfl rfl (fun _ => ?_) (plain_peer rfl)
        show PeerStates.away (if _ then _ else _) = true
        split <;> rfl
  | disconnect => exact .of_eq rfl rfl rfl (fun _ => rfl) (plain_peer rfl)
  | reconnectAndRejoin => exact handled_reconnectAndRejoin c ok
  | selectRegion selectedRegion =>
    show Handled ok c ((c.selectRegion ok _).1, (c.selectRegion ok _).2.1)
    unfold Client.selectRegion
    split
    · exact .of_eq rfl rfl rfl id plain_nil
    · exact .of_eq rfl rfl rfl id (plain_peer rfl)
  | opCustomAuthenticationSendNextStepData secret =>
    show Handled ok c ((c.opCustomAuthenticationSendNextStepData ok _).1,
      (c.opCustomAuthenticationSendNextStepData ok _).2.1)
    unfold Client.opCustomAuthenticationSendNextStepData
    split
    · exact .of_eq rfl rfl rfl id plain_nil
    · exact .of_eq rfl rfl rfl (fun _ => rfl) (plain_peer rfl)
  | setAutoJoinLobby autoJoinLobby => exact .of_eq rfl rfl rfl id plain_nil
  | getCurrentlyJoinedRoom =>
    show Handled ok c (c.getCurrentlyJoinedRoom.1, [])
    unfold Client.getCurrentlyJoinedRoom
    cases c.mpCurrentlyJoinedRoom with
    | some room => exact .of_eq rfl rfl rfl id plain_nil
    | none => exact .of_room (Option.some_ne_none _) rfl List.not_mem_nil
  | opJoinLobby lobbyName lobbyType => exact handled_opJoinLobby c ok _ _
  | opLeaveLobby =>
    show Handled ok c ((c.opLeaveLobby ok).1, (c.opLeaveLobby ok).2.1)
    unfold Client.opLeaveLobby
    split
    · exact .of_eq rfl rfl rfl id plain_nil
    · exact .of_eq rfl rfl rfl id (plain_peer rfl)
  | join j => exact handled_opJoin c ok j
  | opLeaveRoom willComeBack sendAuthCookie => exact handled_opLeaveRoom c ok _ _
  | opRaiseEvent raised =>
    show Handled ok c ((c.opRaiseEvent ok _).1, (c.opRaiseEvent ok _).2.1)
    unfold Client.opRaiseEvent
    split
    · exact .of_eq rfl rfl rfl id plain_nil
    · exact .of_eq rfl rfl rfl id (plain_peer rfl)

end

/-! ## runs -/

section
variable {ok : Bool} {w : Wire}

theorem roomless_nil (state : PeerState) (token : Bool) : Wire.Roomless ⟨state, [], token⟩ :=
  fun _ hx => absurd hx List.not_mem_nil

theorem roomless_take {out : Out} (hw : w.Roomless) (hout : ok = true → out.needsRoom = false) :
    (w.take ok out).Roomless := by
  cases out with
  | app callback => exact hw
  | nullDereference => exact hw
  | peer call =>
    cases call with
    | connect address customData =>
      cases ok with
      | false => exact hw
      | true => exact roomless_nil _ _
    | disconnect =>
      obtain ⟨state, awaited, token⟩ := w
      cases state with
      | disconnected => exact hw
      | connecting => exact roomless_nil _ _
      | connected => exact roomless_nil _ _
      | disconnecting => exact hw
    | pingServers addresses =>
      exact List.forall_mem_append.2 ⟨hw, List.forall_mem_singleton.2 rfl⟩
    | request request =>
      cases ok with
      | false => exact hw
      | true => exact List.forall_mem_append.2 ⟨hw, by simpa [Out.needsRoom] using hout rfl⟩

theorem roomless_takeAll {outs : List Out} (hw : w.Roomless)
    (houts : ok = true → ∀ out ∈ outs, out.needsRoom = false) : (w.takeAll ok outs).Roomless := by
  induction outs generalizing w with
  | nil => exact hw
  | cons out outs ih =>
    rw [takeAll_cons]
    exact ih (roomless_take hw fun hok => (List.forall_mem_cons.1 (houts hok)).1)
      fun hok => (List.forall_mem_cons.1 (houts hok)).2

theorem roomless_hear (i : Input) (hw : w.Roomless) : (w.hear i).Roomless := by
  have herase (y : Awaited) : ∀ x ∈ w.awaited.erase y, x.needsRoom = false :=
    fun x hx => hw x (List.mem_of_mem_erase hx)
  cases i with
  | connect =>
    show ∀ x ∈ (if w.token then [Awaited.response .authenticate] else []), x.needsRoom = false
    split
    · exact List.forall_mem_singleton.2 rfl
    · exact fun x hx => absurd hx List.not_mem_nil
  | disconnect => exact roomless_nil _ _
  | encryptionEstablished => exact herase _
  | encryptionFailedToEstablish => exact herase _
  | connectionError error peerState =>
    unfold Wire.hear
    simp only
    split
    · exact roomless_nil _ _
    · exact hw
  | secret secret => exact hw
  | bestRegion region => exact herase _
  | response r => exact herase _

/-- What a handler keeps, with what the wire makes of it. -/
theorem Handled.hasRoom {c : Client} {r : Client × List Out} {w' : Wire} (h : Handled ok c r)
    (hc : HasRoom c w) (hw' : w.Roomless → w'.Roomless) : HasRoom r.1 (w'.takeAll ok r.2) := by
  intro hnone
  obtain ⟨hserver, haway, hwire⟩ := hc (h.room hnone)
  obtain ⟨hserver', haway', houts⟩ := h.roomless hnone hserver haway
  exact ⟨hserver', haway', roomless_takeAll (hw' hwire) houts⟩

end

/-- The step lemma. -/
theorem hasRoom_step {s : System} {e : Event} (h : HasRoom s.client s.wire) (hw : s.wire.Admits e) :
    HasRoom (s.step e).1.client (s.step e).1.wire ∧ .nullDereference ∉ (s.step e).2.outs := by
  cases e with
  | call call ok =>
    have hhandled := handled_call s.client ok call
    exact ⟨hhandled.hasRoom h id, hhandled.null⟩
  | input input ok =>
    have hhandled : Handled ok s.client (s.client.onInput ok input) := handled_input h hw
    exact ⟨hhandled.hasRoom h (roomless_hear input), hhandled.null⟩

theorem hasRoom_new (mode : RegionSelectionMode) (isWebSocket : Bool) :
    HasRoom (.new mode isWebSocket) .new :=
  fun _ => ⟨rfl, rfl, roomless_nil _ _⟩

end LoadBalancing
