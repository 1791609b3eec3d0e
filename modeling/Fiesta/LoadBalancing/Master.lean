import Fiesta.LoadBalancing.Places

/-!
# From the name server to the master

* `Goes`                        an input leads from a place to a place, and tells the app what it may;
* `goes_error`                  every error of the connection leads to `closing`;
* `goes_connect`, `goes_disconnect_hop`   one connection closes and the next one opens;
* `goes_flowError`              an error on the way is told at once, or kept for the return;
* `goes_authenticate_…`         the arrival at a server, and at the master's lobby.
-/

namespace LoadBalancing

open Photon

/-- The handler with this outcome goes on from a phase as the protocol says. -/
def Goes (b : Bool) (p : Phase) (w : Wire) (i : Input) (ok : Bool) (r : Client × List Out) : Prop :=
  ∃ p', p.Tells i (Seen.callbacks ⟨r.2, true⟩) p' ∧ p.Asks (Seen.requests ⟨r.2, true⟩)
    ∧ At b p' r.1 ((w.hear i).takeAll ok r.2)

/-! ## small facts -/

@[simp] theorem takeAll_nil (ok : Bool) (w : Wire) : w.takeAll ok [] = w := rfl

@[simp] theorem takeAll_cons (ok : Bool) (w : Wire) (out : Out) (outs : List Out) :
    w.takeAll ok (out :: outs) = (w.take ok out).takeAll ok outs := rfl

theorem take_request (ok : Bool) (w : Wire) (request : Request) :
    w.take ok (.peer (.request request))
      = { w with awaited := w.awaited ++ if ok then request.awaited else [] } := by
  cases ok with
  | true => rfl
  | false =>
    show w = _
    simp

theorem asked_request (b ok : Bool) {x : Awaited} {xs : List Awaited} (h : x ∈ xs) :
    Asked (b && ok) ([] ++ if ok then [x] else []) xs := by
  cases ok with
  | true => exact .inl ⟨x, h, rfl⟩
  | false => exact .inr ⟨Bool.and_false b, rfl⟩

theorem opening_connect (b ok : Bool) (c : Client) (address : JString) (t : Bool) :
    Opening (b && ok) c (Wire.take ok ⟨.disconnected, [], t⟩ (c.callPeerConnect address)) := by
  cases ok with
  | true =>
    refine .inl ?_
    unfold Client.hasToken
    cases h : c.mUseAuthOnce <;> simp [Wire.take, Client.callPeerConnect, h]
  | false => exact .inr ⟨Bool.and_false b, t, rfl⟩

theorem Opening.congr {b : Bool} {c c' : Client} {w : Wire} (h : Opening b c w)
    (ht : c'.hasToken = c.hasToken) : Opening b c' w := by
  unfold Opening
  rw [ht]
  exact h

theorem asks_nil (p : Phase) : p.Asks [] := by
  cases p with
  | entering entry name =>
    intro request h
    cases h
  | _ => rfl

/-! ## errors and secrets -/

theorem goes_error {b : Bool} {p : Phase} {c : Client} {w : Wire} (error : ConnectionError)
    (peerState : PeerState) (ok : Bool)
    (h : w.AdmitsInput (.connectionError error peerState)) :
    Goes b p w (.connectionError error peerState) ok (c.onConnectionError error peerState) := by
  have hidle : ¬ PeerStates.Hops .peerCreated := by
    rintro (h | h | h) <;> cases h
  have hdis : ¬ PeerStates.Hops .disconnecting := by
    rintro (h | h | h) <;> cases h
  refine ⟨.closing, ?_, ?_, ?_⟩
  · cases peerState <;> exact .broken p error _
  · cases peerState <;> exact asks_nil p
  · cases peerState with
    | disconnected => exact .closed _ _
    | disconnecting => exact .closing hidle _
    | connecting =>
      have hw : w.state = .connecting := by
        obtain h | h | ⟨h, _⟩ := h
        · exact h.symm
        · cases h
        · cases h
      have htake : (w.hear (.connectionError error .connecting)).takeAll ok
          (c.onConnectionError error .connecting).2 = ⟨.disconnecting, [], false⟩ := by
        obtain ⟨s, l, t⟩ := w
        cases hw
        rfl
      rw [htake]
      exact .closing hdis _
    | connected =>
      have hw : w.state = .connected := by
        obtain h | h | ⟨h, _⟩ := h
        · exact h.symm
        · cases h
        · cases h
      have htake : (w.hear (.connectionError error .connected)).takeAll ok
          (c.onConnectionError error .connected).2 = ⟨.disconnecting, [], false⟩ := by
        obtain ⟨s, l, t⟩ := w
        cases hw
        rfl
      rw [htake]
      exact .closing hdis _

/-! ## a connection opens or closes -/

/-- The state after `StatusCode::CONNECT` -/
def PeerStates.opened (state : PeerStates) : PeerStates :=
  if state = .connectingToNameserver then .connectedToNameserver
  else if state = .connectingToGameserver then .connectedToGameserver
  else if state = .connecting then .connected
  else .connectedComingFromGameserver

/-- Without a secret the client asks for encryption; with one the name server is asked for the
regions, and any other server has the secret already. -/
theorem onConnect_eq (c : Client) :
    c.onConnect = ({ c with mState := c.mState.opened },
      if c.hasToken = false then [.peer (.request .establishEncryption)]
      else if c.mState.opened = .connectedToNameserver then
        [.peer (.request (.getRegions false))]
      else []) := by
  have htoken : (!c.mUseAuthOnce || c.mSecret.isEmpty) = !c.hasToken := by
    unfold Client.hasToken
    rw [Bool.not_and, Bool.not_not]
  show (if (!c.mUseAuthOnce || c.mSecret.isEmpty) = true then _
    else if c.mState.opened = .connectedToNameserver then _
    else if (!c.mUseAuthOnce) = true then _ else _) = _
  rw [htoken]
  cases h : c.hasToken with
  | false => rfl
  | true =>
    have hauth : ¬ (!c.mUseAuthOnce) = true := by
      rw [(Bool.and_eq_true_iff.1 h).1]
      exact Bool.false_ne_true
    rw [if_neg (show ¬ (!true) = true from Bool.false_ne_true),
      if_neg (show ¬ true = false by decide)]
    by_cases hname : c.mState.opened = .connectedToNameserver
    · rw [if_pos hname, if_pos hname]
      rfl
    · rw [if_neg hname, if_neg hname, if_neg hauth]
      rfl

theorem opened_hop {state : PeerStates} (h : state ≠ .connectingToNameserver) :
    state.opened ≠ .connectedToNameserver := by
  unfold PeerStates.opened
  rw [if_neg h]
  split
  · exact fun h => by cases h
  · split <;> exact fun h => by cases h

/-- A connection to the master or to a game server opens. -/
theorem goes_connect {b ok : Bool} {p : Phase} {c : Client}
    (hne : c.mState ≠ .connectingToNameserver) (hp : p.Tells .connect [] p)
    (hat : ∀ l t, Asked (b && ok) l [.encryption, .response .authenticate]
      → At (b && ok) p { c with mState := c.mState.opened } ⟨.connected, l, t⟩) :
    Goes (b && ok) p ⟨.connecting, [], c.hasToken⟩ .connect ok c.onConnect := by
  rw [onConnect_eq, if_neg (opened_hop hne)]
  cases ht : c.hasToken with
  | false =>
    refine ⟨p, hp, asks_nil p, ?_⟩
    rw [if_pos rfl, takeAll_cons, take_request]
    exact hat _ _ (asked_request b ok List.mem_cons_self)
  | true =>
    refine ⟨p, hp, asks_nil p, ?_⟩
    exact hat _ _ (.inl ⟨_, List.mem_cons_of_mem _ List.mem_cons_self, rfl⟩)

theorem goes_connect_nameserver {b ok : Bool} {c : Client}
    (h : c.mState = .connectingToNameserver) :
    Goes (b && ok) .connecting ⟨.connecting, [], false⟩ .connect ok c.onConnect := by
  have hopen : c.mState.opened = .connectedToNameserver := by
    rw [h]
    rfl
  have hp : Phase.Tells .connecting .connect [] .connecting := .silent rfl
  rw [onConnect_eq, hopen]
  cases ht : c.hasToken with
  | false =>
    refine ⟨.connecting, hp, rfl, ?_⟩
    rw [if_pos rfl, takeAll_cons, take_request]
    exact .onNameserver rfl (asked_request b ok List.mem_cons_self) _
  | true =>
    refine ⟨.connecting, hp, rfl, ?_⟩
    rw [if_neg (by decide), if_pos rfl, takeAll_cons, take_request]
    exact .onNameserver rfl
      (asked_request b ok (List.mem_cons_of_mem _ (List.mem_cons_of_mem _ List.mem_cons_self))) _

/-- A client on its way to another server connects to it. -/
theorem goes_disconnect_hop {b ok : Bool} {p : Phase} {c : Client} {t : Bool}
    (state : PeerStates) (address : JString)
    (heq : c.onDisconnect = ({ c with mState := state }, [c.callPeerConnect address]))
    (hp : p.Tells .disconnect [] p)
    (hat : ∀ w, Opening (b && ok) c w → At (b && ok) p { c with mState := state } w) :
    Goes (b && ok) p ⟨.disconnecting, [], t⟩ .disconnect ok c.onDisconnect := by
  rw [heq]
  refine ⟨p, hp, asks_nil p, ?_⟩
  exact hat _ (opening_connect b ok c address false)

theorem goes_disconnect_closing {b : Bool} {c : Client} {t : Bool} (ok : Bool)
    (h : ¬ c.mState.Hops) :
    Goes b .closing ⟨.disconnecting, [], t⟩ .disconnect ok c.onDisconnect := by
  have heq : c.onDisconnect = ({ c with mState := .peerCreated }, [.app .disconnectReturn]) := by
    unfold PeerStates.Hops at h
    rw [not_or, not_or] at h
    unfold Client.onDisconnect
    rw [if_neg h.1, if_neg h.2.1, if_neg h.2.2]
  rw [heq]
  exact ⟨.offline, .closed, rfl, .offline _ _⟩

/-! ## encryption -/

theorem goes_encryption {b ok : Bool} {p : Phase} {c : Client} {t : Bool}
    (hne : c.mState ≠ .connectedToNameserver) (hp : p.Tells .encryptionEstablished [] p)
    (hat : ∀ l t, Asked (b && ok) l [.encryption, .response .authenticate]
      → At (b && ok) p c ⟨.connected, l, t⟩) :
    Goes (b && ok) p ⟨.connected, [.encryption], t⟩ .encryptionEstablished ok
      c.onEncryptionEstablished := by
  unfold Client.onEncryptionEstablished
  rw [if_neg hne]
  refine ⟨p, hp, asks_nil p, ?_⟩
  rw [Client.authenticate, takeAll_cons, take_request]
  exact hat _ _ (asked_request b ok (List.mem_cons_of_mem _ List.mem_cons_self))

/-! ## errors on the way -/

/-- On the way from the game server to the master, or before it: the app is told at once. -/
theorem goes_flowError {b : Bool} {p : Phase} {c : Client} {w : Wire} {i : Input} {code : Int}
    {text : JString} {l : List Awaited} {t : Bool} (ok : Bool)
    (hw : w.hear i = ⟨.connected, l, t⟩) (hfail : i.failure = some (code, text))
    (hp : p = .connecting ∨ p = .leaving ∨ ∃ entry c t, p = .refused entry c t)
    (h1 : c.mState ≠ .connectedToGameserver) (h2 : c.mState ≠ .authenticatedOnGameServer)
    (h3 : c.mState ≠ .joining) :
    Goes b p w i ok (c.handleConnectionFlowError c.mState code text) := by
  unfold Client.handleConnectionFlowError
  rw [if_neg (not_or.2 ⟨h1, not_or.2 ⟨h2, h3⟩⟩)]
  refine ⟨.closing, .connectFailed hfail hp, asks_nil p, ?_⟩
  have htake : (w.hear i).takeAll ok [.peer .disconnect, .app (.connectReturn code text [] [])]
      = ⟨.disconnecting, [], false⟩ := by
    rw [hw]
    rfl
  rw [htake]
  refine .closing ?_ _
  rintro (h | h | h) <;> cases h

/-- On the game server: the error is kept for the time after the return. -/
theorem goes_flowError_gameserver {b : Bool} {c : Client} {w : Wire} {i : Input} {entry : Entry}
    {name : Option JString} {code : Int} {text : JString} {l : List Awaited} {t : Bool} (ok : Bool)
    (hw : w.hear i = ⟨.connected, l, t⟩) (hfail : i.failure = some (code, text)) (hcode : code ≠ 0)
    (hplaced : entry.Placed name) (htype : c.mLastJoinType = some entry.type)
    (h : c.mState = .connectedToGameserver ∨ c.mState = .joining) :
    Goes b (.entering entry name) w i ok (c.handleConnectionFlowError c.mState code text) := by
  have hor : c.mState = .connectedToGameserver ∨ c.mState = .authenticatedOnGameServer
      ∨ c.mState = .joining := by
    obtain h | h := h
    · exact .inl h
    · exact .inr (.inr h)
  unfold Client.handleConnectionFlowError
  rw [if_pos hor]
  refine ⟨.refused entry code text, .refusedOnGameServer hplaced hfail, asks_nil _, ?_⟩
  have htake : (w.hear i).takeAll ok [.peer .disconnect] = ⟨.disconnecting, [], false⟩ := by
    rw [hw]
    rfl
  rw [htake]
  refine .offGameserver ?_ rfl _
  exact ⟨rfl, rfl, hcode, htype⟩

/-! ## the master -/

/-- A return code that is not `OK` stops the client on its way. -/
theorem failure_response {r : OperationResponse} (h : r.returnCode ≠ 0)
    (hop : r.operationCode = .authenticate ∨ r.operationCode = .createRoom
      ∨ r.operationCode = .joinRoom ∨ r.operationCode = .joinRandomRoom) :
    Input.failure (.response r) = some (r.returnCode, r.debugMessage) := by
  unfold Input.failure
  simp only [if_neg h]
  obtain hop | hop | hop | hop := hop <;> rw [hop]

theorem failure_ok {r : OperationResponse} (h : r.returnCode = 0) :
    Input.failure (.response r) = none := if_pos h

theorem failure_ne_zero {i : Input} {code : Int} {text : JString}
    (h : i.failure = some (code, text)) : code ≠ 0 := by
  cases i with
  | encryptionFailedToEstablish =>
    obtain ⟨rfl, -⟩ := Prod.mk.inj (Option.some.inj h)
    show (1049 : Int) ≠ 0
    omega
  | response r =>
    unfold Input.failure at h
    by_cases hcode : r.returnCode = 0
    · simp [hcode] at h
    · cases hop : r.operationCode <;> simp [hcode, hop] at h
      all_goals
        obtain ⟨rfl, -⟩ := h
        exact hcode
  | _ => cases h

theorem failure_leave {r : OperationResponse} (hop : r.operationCode = .leave) :
    Input.failure (.response r) = none := by
  unfold Input.failure
  simp only [hop, ite_self]

theorem arrives_authenticate {r : OperationResponse} (hop : r.operationCode = .authenticate)
    (h : r.returnCode = 0) : Input.arrives (.response r) = true := by
  simp [Input.arrives, hop, h]

theorem arrives_joinLobby {r : OperationResponse} (hop : r.operationCode = .joinLobby) :
    Input.arrives (.response r) = true := by
  simp [Input.arrives, hop]

theorem hear_response (r : OperationResponse) {x : OperationCode} (hop : r.operationCode = x)
    (t : Bool) : (Wire.mk .connected [.response x] t).hear (.response r)
      = ⟨.connected, [], t⟩ := by
  simp only [Wire.hear, hop, List.erase_cons_head]

/-- `onNameserver`: the answer to `GET_REGIONS`. -/
theorem goes_regions {b ok : Bool} {c : Client} {r : OperationResponse} {t : Bool}
    (h : c.mState = .connectedToNameserver) (hop : r.operationCode = .getRegions)
    (hb : b = true → r.returnCode = 0) :
    Goes (b && ok) .connecting ⟨.connected, [.response .getRegions], t⟩ (.response r) ok
      (c.onGetRegions r) := by
  have hnothing : Phase.Tells .connecting (.response r) [] .connecting := by
    refine .silent ?_
    unfold Input.failure
    simp only [hop, ite_self]
  have hauth : ∀ c' : Client, c'.mState = .connectedToNameserver →
      Goes (b && ok) .connecting ⟨.connected, [.response .getRegions], t⟩ (.response r) ok
        (c', [c'.authenticate]) := by
    intro c' h'
    refine ⟨.connecting, hnothing, rfl, ?_⟩
    rw [hear_response r hop, Client.authenticate, takeAll_cons, take_request]
    exact .onNameserver h' (asked_request b ok (by simp)) _
  unfold Client.onGetRegions
  by_cases hcode : r.returnCode = 0
  · rw [if_neg (not_not_intro hcode)]
    cases hmode : c.M_REGION_SELECTION_MODE with
    | default =>
      simp only
      exact hauth _ h
    | select =>
      simp only
      refine ⟨.choosingRegion, .regions hop hcode, rfl, ?_⟩
      rw [hear_response r hop]
      refine .choosingRegion ?_ _
      exact h
    | best =>
      simp only
      split
      · exact hauth _ h
      · refine ⟨.connecting, hnothing, rfl, ?_⟩
        rw [hear_response r hop]
        refine .onNameserver ?_ (.inl ⟨.pings, by simp, rfl⟩) _
        exact h
  · rw [if_pos hcode]
    refine ⟨.connecting, hnothing, rfl, ?_⟩
    rw [hear_response r hop]
    have hfalse : b = false := by
      cases b with
      | false => rfl
      | true => exact absurd (hb rfl) hcode
    exact .onNameserver h (.inr ⟨by rw [hfalse, Bool.false_and], rfl⟩) _

/-- `onNameserver`: the answer to `AUTHENTICATE`. -/
theorem goes_authenticate_nameserver {b : Bool} (ok : Bool) {c : Client} {r : OperationResponse}
    {t : Bool} (h : c.mState = .connectedToNameserver) (hop : r.operationCode = .authenticate) :
    Goes b .connecting ⟨.connected, [.response .authenticate], t⟩ (.response r) ok
      (c.onAuthenticate ok r) := by
  have hhear := hear_response r hop t
  unfold Client.onAuthenticate
  by_cases hcode : r.returnCode = 0
  · rw [if_neg (not_not_intro hcode), if_pos h]
    cases hdata : r.data with
    | true =>
      simp only [if_true]
      refine ⟨.authenticationStep, .authenticationStep hop hcode hdata, rfl, ?_⟩
      rw [hhear]
      exact .waitingForStep (.inl rfl) _
    | false =>
      simp only [Bool.false_eq_true, if_false]
      refine ⟨.connecting, .silent (failure_ok hcode), rfl, ?_⟩
      rw [hhear]
      exact .offNameserver rfl _
  · rw [if_pos hcode]
    refine goes_flowError ok hhear (failure_response hcode (.inl hop)) (.inl rfl) ?_ ?_ ?_
      <;> rw [h] <;> exact fun h => by cases h

/-- The return to the master is finished, or the arrival at it. -/
theorem goes_finished {b : Bool} {p : Phase} {c : Client} {w : Wire} {i : Input} {t : Bool}
    (ok : Bool) (hw : w.hear i = ⟨.connected, [], t⟩) (hi : i.arrives) (hidle : c.mState.Idle)
    (hp : p.Returns c) : Goes b p w i ok (c.onConnectToMasterFinished true) := by
  unfold Client.onConnectToMasterFinished
  cases p with
  | refused entry code text =>
    obtain ⟨hcode, htext, hne, htype⟩ := hp
    rw [if_pos rfl, if_pos (by rw [hcode]; exact hne), htype, hcode, htext]
    refine ⟨.ready, .backOnMaster entry code text hi, rfl, ?_⟩
    rw [hw]
    refine .ready ?_ _
    exact hidle
  | leaving =>
    have hcode : c.mCachedErrorCodeFromGameServer = ErrorCode.OK := hp
    rw [if_pos rfl, if_neg (not_not_intro hcode)]
    refine ⟨.ready, .left hi, rfl, ?_⟩
    rw [hw]
    exact .ready hidle _
  | _ => exact hp.elim

theorem goes_finished_connecting {b : Bool} {c : Client} {w : Wire} {i : Input} {t : Bool}
    (ok : Bool) (hw : w.hear i = ⟨.connected, [], t⟩) (hi : i.arrives) (hidle : c.mState.Idle) :
    Goes b .connecting w i ok (c.onConnectToMasterFinished false) := by
  unfold Client.onConnectToMasterFinished
  rw [if_neg Bool.false_ne_true]
  refine ⟨.ready, .connected hi _ _, rfl, ?_⟩
  rw [hw]
  exact .ready hidle _

/-- The client asks for the lobby by itself. -/
theorem autoJoin_eq (c : Client) (ok : Bool) (h : c.getIsInRoom = false) :
    c.opJoinLobby ok [] LobbyType.DEFAULT
      = ({ c with mLastLobbyJoinType := some .explicitJoinLobby },
        [.peer (.request (.joinLobby [] LobbyType.DEFAULT))], ok) := by
  unfold Client.opJoinLobby
  rw [if_neg (by rw [h]; exact Bool.false_ne_true)]
  rfl

/-- `onMaster`: the answer to `AUTHENTICATE`. -/
theorem goes_authenticate_master {b ok : Bool} {c : Client} {r : OperationResponse} {t : Bool}
    (h : c.mState = .connected) (hop : r.operationCode = .authenticate) :
    Goes (b && ok) .connecting ⟨.connected, [.response .authenticate], t⟩ (.response r) ok
      (c.onAuthenticate ok r) := by
  have hhear := hear_response r hop t
  unfold Client.onAuthenticate
  by_cases hcode : r.returnCode = 0
  · rw [if_neg (not_not_intro hcode), if_neg (by rw [h]; exact fun h => by cases h)]
    unfold Client.onArrivalAndAuthentication
    rw [if_pos (.inl h)]
    cases hauto : c.mAutoJoinLobby with
    | true =>
      simp only [h, if_true]
      rw [autoJoin_eq _ _ rfl]
      refine ⟨.connecting, .silent (failure_ok hcode), rfl, ?_⟩
      rw [hhear, takeAll_cons, take_request]
      exact .intoLobby rfl rfl (asked_request b ok List.mem_cons_self) _
    | false =>
      simp only [h, if_true, Bool.false_eq_true, if_false]
      exact goes_finished_connecting ok hhear (arrives_authenticate hop hcode) (.inl rfl)
  · rw [if_pos hcode]
    refine goes_flowError ok hhear (failure_response hcode (.inl hop)) (.inl rfl) ?_ ?_ ?_
      <;> rw [h] <;> exact fun h => by cases h

/-- `backOnMaster`: the answer to `AUTHENTICATE`. -/
theorem goes_authenticate_back {b ok : Bool} {p : Phase} {c : Client} {r : OperationResponse}
    {t : Bool} (hp : p.Returns c) (h : c.mState = .connectedComingFromGameserver)
    (hop : r.operationCode = .authenticate) :
    Goes (b && ok) p ⟨.connected, [.response .authenticate], t⟩ (.response r) ok
      (c.onAuthenticate ok r) := by
  have hhear := hear_response r hop t
  unfold Client.onAuthenticate
  by_cases hcode : r.returnCode = 0
  · rw [if_neg (not_not_intro hcode), if_neg (by rw [h]; exact fun h => by cases h)]
    unfold Client.onArrivalAndAuthentication
    rw [if_pos (.inr h)]
    cases hauto : c.mAutoJoinLobby with
    | true =>
      simp only [h, if_true]
      rw [autoJoin_eq _ _ rfl]
      refine ⟨p, .silent (failure_ok hcode), asks_nil p, ?_⟩
      rw [hhear, takeAll_cons, take_request]
      refine .backIntoLobby ?_ rfl rfl (asked_request b ok List.mem_cons_self) _
      exact hp.of_eq rfl rfl rfl
    | false =>
      simp only [h, Bool.false_eq_true, if_false]
      exact goes_finished ok hhear (arrives_authenticate hop hcode) (.inr (.inr rfl))
        (hp.of_eq rfl rfl rfl)
  · rw [if_pos hcode]
    have hback : p = .connecting ∨ p = .leaving ∨ ∃ entry c t, p = .refused entry c t := by
      cases p with
      | refused entry code text => exact .inr (.inr ⟨entry, code, text, rfl⟩)
      | leaving => exact .inr (.inl rfl)
      | _ => exact hp.elim
    refine goes_flowError ok hhear (failure_response hcode (.inl hop)) hback ?_ ?_ ?_
      <;> rw [h] <;> exact fun h => by cases h

/-! ## lobbies -/

theorem goes_intoLobby {b : Bool} (ok : Bool) {c : Client} {r : OperationResponse} {t : Bool}
    (h : c.mState = .authenticated) (hauto : c.mLastLobbyJoinType = some .autoJoinLobby)
    (hop : r.operationCode = .joinLobby) :
    Goes b .connecting ⟨.connected, [.response .joinLobby], t⟩ (.response r) ok c.onJoinLobby := by
  unfold Client.onJoinLobby
  simp only [h, hauto, if_true]
  exact goes_finished_connecting ok (hear_response r hop t) (arrives_joinLobby hop) (.inr (.inl rfl))

theorem goes_backIntoLobby {b : Bool} (ok : Bool) {p : Phase} {c : Client} {r : OperationResponse}
    {t : Bool} (hp : p.Returns c) (h : c.mState = .authenticatedComingFromGameserver)
    (hauto : c.mLastLobbyJoinType = some .autoJoinLobby) (hop : r.operationCode = .joinLobby) :
    Goes b p ⟨.connected, [.response .joinLobby], t⟩ (.response r) ok c.onJoinLobby := by
  unfold Client.onJoinLobby
  simp only [h, hauto, if_true]
  exact goes_finished ok (hear_response r hop t) (arrives_joinLobby hop) (.inr (.inl rfl))
    (hp.of_eq rfl rfl rfl)

theorem goes_joiningLobby {b : Bool} (ok : Bool) {c : Client} {r : OperationResponse} {t : Bool}
    (h : c.mLastLobbyJoinType = some .explicitJoinLobby) (hop : r.operationCode = .joinLobby) :
    Goes b .joiningLobby ⟨.connected, [.response .joinLobby], t⟩ (.response r) ok
      c.onJoinLobby := by
  unfold Client.onJoinLobby
  rw [if_neg (by rw [h]; exact fun h => by cases h)]
  refine ⟨.ready, .joinedLobby hop, rfl, ?_⟩
  rw [hear_response r hop]
  exact .ready (.inr (.inl rfl)) _

theorem goes_leavingLobby {b : Bool} (ok : Bool) (c : Client) {r : OperationResponse} {t : Bool}
    (hop : r.operationCode = .leaveLobby) :
    Goes b .leavingLobby ⟨.connected, [.response .leaveLobby], t⟩ (.response r) ok
      c.onLeaveLobby := by
  refine ⟨.ready, .leftLobby hop, rfl, ?_⟩
  rw [hear_response r hop]
  exact .ready (.inl rfl) _

end LoadBalancing
