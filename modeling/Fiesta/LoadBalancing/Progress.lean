import Fiesta.LoadBalancing.Follows

/-!
# The app is not left waiting

While the peer accepts what the client asks it for, a client that lets its app wait is itself waiting
for the network, and never for long.  There are dead ends: an error code in the answer to `GET_REGIONS`
is only logged.  `System.Serves` leaves out what leads there.

* `toGo`             how many inputs there are at most before the app hears something;
* `lowers_…`         an input of which the app hears nothing lowers that number;
* `waits_for_input`  a client that lets its app wait gets an input;
* `answers_come`     **after twelve inputs the app has heard something**.
-/

namespace LoadBalancing

open Photon

/-- The phases in which it is for the network to act. -/
def Phase.Waits : Phase → Prop
  | .connecting => True
  | .joiningLobby => True
  | .leavingLobby => True
  | .entering _ _ => True
  | .refused _ _ _ => True
  | .leaving => True
  | _ => False

def toGo (c : Client) (w : Wire) : ℕ :=
  match c.mState with
  | .connectingToNameserver => 10
  | .connectedToNameserver =>
    if .encryption ∈ w.awaited then 9
    else if .response .getRegions ∈ w.awaited then 8
    else if .pings ∈ w.awaited then 7
    else 6
  | .disconnectingFromNameserver => 5
  | .connecting => 4
  | .connected => if .encryption ∈ w.awaited then 3 else 2
  | .disconnectingFromMasterserver => 10
  | .connectingToGameserver => 9
  | .connectedToGameserver => if .encryption ∈ w.awaited then 8 else 7
  | .joining => 6
  | .leaving => 6
  | .disconnectingFromGameserver => 5
  | .connectingToMasterserver => 4
  | .connectedComingFromGameserver => if .encryption ∈ w.awaited then 3 else 2
  | _ => if .response .joinLobby ∈ w.awaited then 1 else 11

theorem toGo_le (c : Client) (w : Wire) : toGo c w ≤ 11 := by
  unfold toGo
  split <;> (try split_ifs) <;> omega

/-- The handler with this outcome calls the app, or comes nearer to it. -/
def Lowers (c : Client) (w : Wire) (i : Input) (r : Client × List Out) : Prop :=
  Seen.callbacks ⟨r.2, true⟩ ≠ [] ∨ toGo r.1 ((w.hear i).takeAll true r.2) < toGo c w

section
variable {c : Client} {w : Wire} {t : Bool}

/-! ## connections -/

theorem lowers_connect (h : c.mState = .connectingToNameserver ∨ c.mState = .connecting
      ∨ c.mState = .connectingToGameserver ∨ c.mState = .connectingToMasterserver) :
    Lowers c w .connect c.onConnect := by
  refine .inr ?_
  rw [onConnect_eq]
  obtain h | h | h | h := h
  all_goals
    simp only [toGo, h, PeerStates.opened, reduceCtorEq, if_true, if_false]
    split_ifs <;> omega

theorem lowers_disconnect (h : c.mState.Hops) : Lowers c w .disconnect c.onDisconnect := by
  refine .inr ?_
  unfold Client.onDisconnect
  obtain h | h | h := h <;> simp [toGo, h]

theorem lowers_error (error : ConnectionError) (peerState : PeerState) :
    Lowers c w (.connectionError error peerState) (c.onConnectionError error peerState) := by
  refine .inl ?_
  cases peerState <;> exact List.cons_ne_nil _ _

/-! ## encryption -/

theorem lowers_encryption (h : c.mState = .connectedToNameserver ∨ c.mState = .connected
      ∨ c.mState = .connectedToGameserver ∨ c.mState = .connectedComingFromGameserver) :
    Lowers c ⟨.connected, [.encryption], t⟩ .encryptionEstablished c.onEncryptionEstablished := by
  refine .inr ?_
  unfold Client.onEncryptionEstablished Client.authenticate
  obtain h | h | h | h := h
  all_goals simp [toGo, h, Wire.hear, Wire.take, Wire.takeAll, Request.awaited]

/-- An error on the way is passed on to the app, or leads back to the master. -/
theorem lowers_flowError {i : Input} (code : Int) (text : JString)
    (h : (c.mState = .connectedToGameserver ∨ c.mState = .joining)
      ∨ c.mState ≠ .connectedToGameserver ∧ c.mState ≠ .authenticatedOnGameServer
        ∧ c.mState ≠ .joining) :
    Lowers c w i (c.handleConnectionFlowError c.mState code text) := by
  unfold Client.handleConnectionFlowError
  obtain h | h := h
  · rw [if_pos (h.imp_right .inr)]
    refine .inr ?_
    obtain h | h := h
    · simp only [toGo, h]
      split_ifs <;> omega
    · simp only [toGo, h]
      omega
  · rw [if_neg (not_or.2 ⟨h.1, not_or.2 ⟨h.2.1, h.2.2⟩⟩)]
    exact .inl (List.cons_ne_nil _ _)

/-! ## the name server -/

theorem lowers_bestRegion (h : c.mState = .connectedToNameserver) (region : JString) :
    Lowers c ⟨.connected, [.pings], t⟩ (.bestRegion region) (c.onBestRegion region) := by
  refine .inr ?_
  unfold Client.onBestRegion Client.authenticate
  simp [toGo, h, Wire.hear, Wire.take, Request.awaited]

theorem lowers_regions {r : OperationResponse} (h : c.mState = .connectedToNameserver)
    (hop : r.operationCode = .getRegions) (hcode : r.returnCode = 0) :
    Lowers c ⟨.connected, [.response .getRegions], t⟩ (.response r) (c.onGetRegions r) := by
  unfold Client.onGetRegions
  rw [if_neg (not_not_intro hcode)]
  cases c.M_REGION_SELECTION_MODE with
  | default =>
    refine .inr ?_
    rw [hear_response r hop]
    simp [toGo, h, Client.authenticate, Wire.take, Request.awaited]
  | select => exact .inl (List.cons_ne_nil _ _)
  | best =>
    refine .inr ?_
    rw [hear_response r hop]
    simp only
    split <;> simp [toGo, h, Client.authenticate, Wire.take, Request.awaited]

theorem lowers_authenticate_nameserver {r : OperationResponse}
    (h : c.mState = .connectedToNameserver) :
    Lowers c ⟨.connected, [.response .authenticate], t⟩ (.response r)
      (c.onAuthenticate true r) := by
  unfold Client.onAuthenticate
  by_cases hcode : r.returnCode ≠ 0
  · rw [if_pos hcode]
    refine lowers_flowError _ _ (.inr ⟨?_, ?_, ?_⟩) <;> rw [h] <;> exact fun h => by cases h
  · rw [if_neg hcode, if_pos h]
    cases r.data with
    | true => exact .inl (List.cons_ne_nil _ _)
    | false =>
      refine .inr ?_
      simp [toGo, h]

/-! ## the master -/

/-- What the client has to report when it is back on the master, it can report. -/
def Client.Reports (c : Client) : Prop :=
  c.mCachedErrorCodeFromGameServer = ErrorCode.OK ∨ c.mLastJoinType ≠ none

theorem finished_tells (c : Client) (comingFromGameserver : Bool)
    (h : comingFromGameserver = true → c.Reports) :
    Seen.callbacks ⟨(c.onConnectToMasterFinished comingFromGameserver).2, true⟩ ≠ [] := by
  unfold Client.onConnectToMasterFinished
  cases comingFromGameserver with
  | false => exact List.cons_ne_nil _ _
  | true =>
    rw [if_pos rfl]
    by_cases hcode : c.mCachedErrorCodeFromGameServer ≠ ErrorCode.OK
    · rw [if_pos hcode]
      obtain ⟨type, htype⟩ := Option.ne_none_iff_exists'.1 ((h rfl).resolve_left hcode)
      rw [htype]
      exact List.cons_ne_nil _ _
    · rw [if_neg hcode]
      exact List.cons_ne_nil _ _

theorem lowers_arrival {r : OperationResponse} (hop : r.operationCode = .authenticate)
    (h : c.mState = .connected ∨ c.mState = .connectedComingFromGameserver ∧ c.Reports) :
    Lowers c ⟨.connected, [.response .authenticate], t⟩ (.response r)
      (c.onAuthenticate true r) := by
  have hmaster : c.mState = .connected ∨ c.mState = .connectedComingFromGameserver :=
    h.imp_right And.left
  unfold Client.onAuthenticate
  by_cases hcode : r.returnCode ≠ 0
  · rw [if_pos hcode]
    refine lowers_flowError _ _ (.inr ⟨?_, ?_, ?_⟩)
      <;> obtain h | h := hmaster <;> rw [h] <;> exact fun h => by cases h
  · rw [if_neg hcode,
      if_neg (by obtain h | h := hmaster <;> rw [h] <;> exact fun h => by cases h)]
    unfold Client.onArrivalAndAuthentication
    rw [if_pos hmaster]
    cases hauto : c.mAutoJoinLobby with
    | true =>
      refine .inr ?_
      rw [hear_response r hop]
      obtain h | h := hmaster
      all_goals
        simp only [h, if_true, reduceCtorEq, if_false]
        rw [autoJoin_eq _ _ rfl]
        simp [toGo, h, Wire.take, Request.awaited]
    | false =>
      refine .inl ?_
      simp only [Bool.false_eq_true, if_false]
      refine finished_tells _ _ fun hback => ?_
      obtain h | ⟨-, hreports⟩ := h
      · simp [h] at hback
      · exact hreports

theorem lowers_joinLobby {i : Input} (h : c.mLastLobbyJoinType = some .autoJoinLobby →
      c.mState = .authenticatedComingFromGameserver → c.Reports) :
    Lowers c w i c.onJoinLobby := by
  refine .inl ?_
  unfold Client.onJoinLobby
  by_cases hauto : c.mLastLobbyJoinType = some .autoJoinLobby
  · rw [if_pos hauto]
    refine finished_tells _ _ fun hback => ?_
    exact h hauto (beq_iff_eq.1 hback)
  · rw [if_neg hauto]
    exact List.cons_ne_nil _ _

/-- The answer of the master to a join: the client goes to the game server, or the app hears of the
error. -/
theorem lowers_asking {r : OperationResponse} {j : Join} (hidle : c.mState.Idle)
    (htype : c.mLastJoinType = some j.type) (hop : r.operationCode = j.operationCode) :
    Lowers c ⟨.connected, [.response j.operationCode], t⟩ (.response r) (c.onOperation true r) := by
  have hgs := idle_not_onGameServer hidle
  have hgo (c' : Client) (address : JString) :
      Lowers c ⟨.connected, [.response j.operationCode], t⟩ (.response r)
        (c'.goToGameServer address) := by
    refine .inr ?_
    have hjoin : Awaited.response .joinLobby ∉ [Awaited.response j.operationCode] := by
      cases j <;> simp [Join.operationCode]
    have hc : toGo c ⟨.connected, [.response j.operationCode], t⟩ = 11 := by
      unfold toGo
      obtain h | h | h := hidle <;> simp only [h, if_neg hjoin]
    rw [hc]
    exact Nat.lt_succ_self 10
  unfold Client.onOperation
  cases j with
  | createRoom gameID options expectedUsers =>
    have hop' : r.operationCode = .createRoom := hop
    simp only [hop', Client.onCreateRoom, hgs, Bool.false_eq_true, if_false]
    split
    · exact .inl (List.cons_ne_nil _ _)
    · exact hgo _ _
  | joinOrCreateRoom gameID options cacheSliceIndex expectedUsers =>
    have hop' : r.operationCode = .joinRoom := hop
    have htype' : c.mLastJoinType = some .joinOrCreateRoom := htype
    simp only [hop', Client.onJoinRoom, hgs, htype', Bool.false_eq_true, if_false]
    split
    · exact .inl (List.cons_ne_nil _ _)
    · exact hgo _ _
  | joinRoom gameID rejoin cacheSliceIndex expectedUsers =>
    have hop' : r.operationCode = .joinRoom := hop
    have htype' : c.mLastJoinType = some .joinRoom := htype
    simp only [hop', Client.onJoinRoom, hgs, htype', Bool.false_eq_true, if_false]
    split
    · exact .inl (List.cons_ne_nil _ _)
    · exact hgo _ _
  | joinRandomOrCreateRoom gameID options filter expectedUsers =>
    have hop' : r.operationCode = .joinRandomRoom := hop
    have htype' : c.mLastJoinType = some .joinRandomOrCreateRoom := htype
    simp only [hop', Client.onJoinRandomRoom, htype']
    split
    · exact .inl (List.cons_ne_nil _ _)
    · exact hgo _ _
  | joinRandomRoom filter expectedUsers =>
    have hop' : r.operationCode = .joinRandomRoom := hop
    have htype' : c.mLastJoinType = some .joinRandomRoom := htype
    simp only [hop', Client.onJoinRandomRoom, htype']
    split
    · exact .inl (List.cons_ne_nil _ _)
    · exact hgo _ _

/-! ## the game server -/

theorem lowers_authenticate_gameserver {r : OperationResponse} {entry : Entry}
    {name : Option JString} (h : c.mState = .connectedToGameserver) (hr : entry.Remembers c)
    (hn : entry.Named true c name) :
    Lowers c ⟨.connected, [.response .authenticate], t⟩ (.response r)
      (c.onAuthenticate true r) := by
  unfold Client.onAuthenticate
  by_cases hcode : r.returnCode ≠ 0
  · rw [if_pos hcode]
    exact lowers_flowError _ _ (.inl (.inl h))
  · rw [if_neg hcode, if_neg (by rw [h]; exact fun h => by cases h)]
    obtain ⟨room, hroom⟩ := Option.ne_none_iff_exists'.1 hr.room_ne
    rw [arrival_gameserver true h hroom]
    obtain ⟨hstays, -⟩ := joinOnGameServer_asks true (c := c.arrived) rfl
      (hr.of_eq rfl rfl rfl rfl) hroom (hn.of_eq rfl)
    refine .inr ?_
    have hjoining : (c.arrived.joinOnGameServer true room).1.mState = .joining := hstays.state
    unfold toGo
    simp [hjoining, h]

theorem lowers_entered {r : OperationResponse} {x : OperationCode} {type : JoinType}
    (h : c.mState = .joining) (htype : c.mLastJoinType = some type)
    (hroom : c.mpCurrentlyJoinedRoom ≠ none) (hop : r.operationCode = x)
    (hx : x = .createRoom ∨ x = .joinRoom) :
    Lowers c w (.response r) (c.onOperation true r) := by
  have hgs : c.getIsOnGameServer = true := (joining_facts h).2.1
  have honop : c.onOperation true r = c.onEnterOnGameServer r := by
    unfold Client.onOperation
    obtain rfl | rfl := hx
    · simp only [hop, Client.onCreateRoom, hgs, if_true]
    · simp only [hop, Client.onJoinRoom, hgs, if_true]
  rw [honop]
  unfold Client.onEnterOnGameServer
  by_cases hret : r.returnCode ≠ 0
  · rw [if_pos hret]
    exact lowers_flowError _ _ (.inl (.inr h))
  · rw [if_neg hret]
    obtain ⟨room, hsome⟩ := Option.ne_none_iff_exists'.1 hroom
    simp only [hsome, htype]
    exact .inl (List.cons_ne_nil _ _)

theorem lowers_leave {i : Input} (h : c.mState = .leaving)
    (hroom : c.mpCurrentlyJoinedRoom ≠ none) : Lowers c w i c.onLeave := by
  obtain ⟨room, hsome⟩ := Option.ne_none_iff_exists'.1 hroom
  unfold Client.onLeave
  simp only [hsome]
  refine .inr ?_
  simp [toGo, h]

end

/-! ## all inputs -/

theorem Phase.Returns.reports {c : Client} {p : Phase} (hp : p.Returns c) : c.Reports := by
  cases p with
  | refused entry code text =>
    obtain ⟨-, -, -, htype⟩ := hp
    refine .inr ?_
    rw [htype]
    exact Option.some_ne_none _
  | leaving => exact .inl hp
  | _ => exact hp.elim

theorem Opening.eq {c : Client} {w : Wire} (h : Opening true c w) :
    w = ⟨.connecting, [], c.hasToken⟩ := by
  obtain h | ⟨hb, -⟩ := h
  · exact h
  · cases hb

section
variable {p : Phase} {c : Client} {l : List Awaited} {t : Bool}

theorem lowers_operation {r : OperationResponse} (h : At true p c ⟨.connected, l, t⟩)
    (hp : p.Waits) (hr : .response r.operationCode ∈ l)
    (hsound : Input.sound (.response r) = true) :
    Lowers c ⟨.connected, l, t⟩ (.response r) (c.onOperation true r) := by
  cases h with
  | onNameserver h hl t =>
    obtain ⟨rfl, hx⟩ := hl.of_mem hr
    have hop : r.operationCode = .getRegions ∨ r.operationCode = .authenticate := by
      simpa using hx
    obtain hop | hop := hop
    · rw [hop]
      simp only [Client.onOperation, hop]
      exact lowers_regions h hop (sound_regions hsound hop)
    · rw [hop]
      simp only [Client.onOperation, hop]
      exact lowers_authenticate_nameserver h
  | onMaster h hl t =>
    obtain ⟨rfl, hx⟩ := hl.of_mem hr
    have hop : r.operationCode = .authenticate := by simpa using hx
    rw [hop]
    simp only [Client.onOperation, hop]
    exact lowers_arrival hop (.inl h)
  | intoLobby h hauto hl t =>
    have hop : r.operationCode = .joinLobby := by simpa using (hl.of_mem hr).2
    simp only [Client.onOperation, hop]
    refine lowers_joinLobby fun _ hback => ?_
    rw [h] at hback
    cases hback
  | joiningLobby hidle h t =>
    have hop : r.operationCode = .joinLobby := by simpa using hr
    simp only [Client.onOperation, hop]
    refine lowers_joinLobby fun hauto _ => ?_
    rw [h] at hauto
    cases hauto
  | leavingLobby hidle t =>
    have hop : r.operationCode = .leaveLobby := by simpa using hr
    simp only [Client.onOperation, hop]
    exact .inl (List.cons_ne_nil _ _)
  | asking h hrem hc t =>
    rename_i j
    have hop : r.operationCode = j.operationCode := by simpa using hr
    exact lowers_asking h hrem.type_eq hop
  | onGameserver h hrem hn hl t =>
    obtain ⟨rfl, hx⟩ := hl.of_mem hr
    have hop : r.operationCode = .authenticate := by simpa using hx
    rw [hop]
    simp only [Client.onOperation, hop]
    exact lowers_authenticate_gameserver h hrem hn
  | joining h htype hroom hplaced hcode hl t =>
    have hx := (hl.of_mem hr).2
    have hop : r.operationCode = .createRoom ∨ r.operationCode = .joinRoom := by simpa using hx
    exact lowers_entered h htype hroom rfl hop
  | leaving h hroom hcode t =>
    have hop : r.operationCode = .leave := by simpa using hr
    simp only [Client.onOperation, hop]
    exact lowers_leave h hroom
  | backOnMaster hret h hl t =>
    obtain ⟨rfl, hx⟩ := hl.of_mem hr
    have hop : r.operationCode = .authenticate := by simpa using hx
    rw [hop]
    simp only [Client.onOperation, hop]
    exact lowers_arrival hop (.inr ⟨h, hret.reports⟩)
  | backIntoLobby hret h hauto hl t =>
    have hop : r.operationCode = .joinLobby := by simpa using (hl.of_mem hr).2
    simp only [Client.onOperation, hop]
    exact lowers_joinLobby fun _ _ => hret.reports
  | waitingForStep h t => cases hr
  | choosingRegion h t => cases hr
  | ready h t => cases hr
  | inRoom h hroom hcode t => cases hr
  | toMaster h hw => exact hw.not_connected.elim
  | toGameserver h hrem hn hw => exact hw.not_connected.elim
  | backToMaster hret h hw => exact hw.not_connected.elim

theorem lowers_response {r : OperationResponse} (h : At true p c ⟨.connected, l, t⟩)
    (hp : p.Waits) (hr : .response r.operationCode ∈ l)
    (hsound : Input.sound (.response r) = true) :
    Lowers c ⟨.connected, l, t⟩ (.response r) (c.onOperationResponse true r) := by
  unfold Client.onOperationResponse
  cases r.secret with
  | none => exact lowers_operation h hp hr hsound
  | some secret => exact lowers_operation (at_secret h secret) hp hr hsound

theorem lowers_encryption_answer {i : Input} (h : At true p c ⟨.connected, l, t⟩)
    (hl : .encryption ∈ l)
    (hi : i = .encryptionEstablished ∨ i = .encryptionFailedToEstablish) :
    Lowers c ⟨.connected, l, t⟩ i (c.onInput true i) := by
  obtain ⟨rfl, hplace⟩ := h.encryption hl
  have hs : c.mState = .connectedToNameserver ∨ c.mState = .connected
      ∨ c.mState = .connectedToGameserver ∨ c.mState = .connectedComingFromGameserver := by
    obtain ⟨-, h⟩ | ⟨-, h⟩ | ⟨_, _, -, h, -, -⟩ | ⟨-, h⟩ := hplace <;> simp [h]
  obtain rfl | rfl := hi
  · exact lowers_encryption hs
  · refine lowers_flowError _ _ ?_
    obtain hs | hs | hs | hs := hs
    · exact .inr (by simp [hs])
    · exact .inr (by simp [hs])
    · exact .inl (.inl hs)
    · exact .inr (by simp [hs])

end

/-- The inputs that may come any number of times. -/
def Input.isSecret : Input → Bool
  | .secret _ => true
  | _ => false

/-- **An input of which the app hears nothing brings it nearer to hearing something.** -/
theorem lowers_input {p : Phase} {c : Client} {w : Wire} {i : Input} (h : At true p c w)
    (hp : p.Waits) (hw : w.AdmitsInput i) (hsound : i.sound = true) (hi : i.isSecret = false) :
    Lowers c w i (c.onInput true i) := by
  obtain ⟨state, l, t⟩ := w
  cases i with
  | connect =>
    obtain rfl : state = .connecting := hw
    cases h with
    | toNameserver h => exact lowers_connect (.inl h)
    | toMaster h hw => exact lowers_connect (.inr (.inl h))
    | toGameserver h hr hn hw => exact lowers_connect (.inr (.inr (.inl h)))
    | backToMaster hret h hw => exact lowers_connect (.inr (.inr (.inr h)))
  | disconnect =>
    obtain rfl : state = .disconnecting := hw
    cases h with
    | closing h t => exact hp.elim
    | offNameserver h t => exact lowers_disconnect (.inl h)
    | offMaster h hr hn t => exact lowers_disconnect (.inr (.inl h))
    | offGameserver hret h t => exact lowers_disconnect (.inr (.inr h))
    | toMaster h hw => cases hw.eq
    | toGameserver h hr hn hw => cases hw.eq
    | backToMaster hret h hw => cases hw.eq
  | encryptionEstablished =>
    obtain ⟨rfl, hl⟩ : state = .connected ∧ _ := hw
    exact lowers_encryption_answer h hl (.inl rfl)
  | encryptionFailedToEstablish =>
    obtain ⟨rfl, hl⟩ : state = .connected ∧ _ := hw
    exact lowers_encryption_answer h hl (.inr rfl)
  | connectionError error peerState => exact lowers_error error peerState
  | secret secret => cases hi
  | bestRegion region =>
    obtain ⟨rfl, hl⟩ : state = .connected ∧ _ := hw
    obtain ⟨rfl, -, hs⟩ := h.pings hl
    exact lowers_bestRegion hs region
  | response r =>
    obtain ⟨rfl, hr⟩ : state = .connected ∧ _ := hw
    exact lowers_response h hp hr hsound

/-! ## the network has something to do -/

def Awaited.answer : Awaited → Input
  | .encryption => .encryptionEstablished
  | .pings => .bestRegion []
  | .response operationCode =>
    .response {
      operationCode := operationCode
      returnCode := 0
      debugMessage := []
      secret := none
      address := []
      roomName := ['r']
      playerNr := 1
      cluster := none
      data := false
      regions := []
      servers := [] }

/-- An input by which the client gets on: it is neither an error nor a secret, and an answer neither
refuses what was asked nor asks for more. -/
def Input.Answers : Input → Prop
  | .connectionError _ _ => False
  | .encryptionFailedToEstablish => False
  | .secret _ => False
  | .response r => r.returnCode = 0 ∧ r.data = false
  | _ => True

theorem Awaited.answer_fits (x : Awaited) (t : Bool) :
    Wire.AdmitsInput ⟨.connected, [x], t⟩ x.answer ∧ x.answer.sound = true ∧ x.answer.Answers := by
  cases x with
  | encryption => exact ⟨⟨rfl, List.mem_singleton.2 rfl⟩, rfl, trivial⟩
  | pings => exact ⟨⟨rfl, List.mem_singleton.2 rfl⟩, rfl, trivial⟩
  | response operationCode =>
    refine ⟨⟨rfl, List.mem_singleton.2 rfl⟩, ?_, rfl, rfl⟩
    cases operationCode <;> rfl

theorem Asked.eq {l xs : List Awaited} (h : Asked true l xs) : ∃ x, l = [x] := by
  obtain ⟨x, -, rfl⟩ | ⟨hb, -⟩ := h
  · exact ⟨x, rfl⟩
  · cases hb

/-- **A client that lets its app wait gets an input.** -/
theorem waits_for_input {p : Phase} {c : Client} {w : Wire} (h : At true p c w) (hp : p.Waits) :
    ∃ i : Input, w.AdmitsInput i ∧ i.sound = true ∧ i.Answers := by
  have hopen {w : Wire} (hw : Opening true c w) :
      ∃ i : Input, w.AdmitsInput i ∧ i.sound = true ∧ i.Answers := by
    rw [hw.eq]
    exact ⟨.connect, rfl, rfl, trivial⟩
  have hclose (t : Bool) :
      ∃ i : Input, Wire.AdmitsInput ⟨.disconnecting, [], t⟩ i ∧ i.sound = true ∧ i.Answers :=
    ⟨.disconnect, rfl, rfl, trivial⟩
  have hone (x : Awaited) (t : Bool) :
      ∃ i : Input, Wire.AdmitsInput ⟨.connected, [x], t⟩ i ∧ i.sound = true ∧ i.Answers :=
    ⟨x.answer, x.answer_fits t⟩
  have hask {l xs : List Awaited} (hx : Asked true l xs) (t : Bool) :
      ∃ i : Input, Wire.AdmitsInput ⟨.connected, l, t⟩ i ∧ i.sound = true ∧ i.Answers := by
    obtain ⟨x, rfl⟩ := hx.eq
    exact hone x t
  cases h with
  | toNameserver h => exact ⟨.connect, rfl, rfl, trivial⟩
  | onNameserver h hx t => exact hask hx t
  | offNameserver h t => exact hclose t
  | toMaster h hw => exact hopen hw
  | onMaster h hx t => exact hask hx t
  | intoLobby h hauto hx t => exact hask hx t
  | joiningLobby hidle h t => exact hone _ t
  | leavingLobby hidle t => exact hone _ t
  | asking h hr hc t => exact hone _ t
  | offMaster h hr hn t => exact hclose t
  | toGameserver h hr hn hw => exact hopen hw
  | onGameserver h hr hn hx t => exact hask hx t
  | joining h htype hroom hplaced hcode hx t => exact hask hx t
  | leaving h hroom hcode t => exact hone _ t
  | offGameserver hret h t => exact hclose t
  | backToMaster hret h hw => exact hopen hw
  | backOnMaster hret h hx t => exact hask hx t
  | backIntoLobby hret h hauto hx t => exact hask hx t
  | _ => exact hp.elim

/-! ## runs -/

/-- An app that hears nothing goes on waiting. -/
theorem tells_waits {p q : Phase} {i : Input} (h : p.Tells i [] q) (hp : p.Waits) : q.Waits := by
  cases h with
  | silent hi => exact hp
  | found j hop hi => trivial
  | refusedOnGameServer hplaced hi => trivial

/-- A sound input that is not a secret, and all that the client asks for is accepted. -/
def Event.Acts : Event → Prop
  | .call _ _ => False
  | .input i ok => ok = true ∧ i.sound = true ∧ i.isSecret = false

/-- The step lemma. -/
theorem waiting_step {p : Phase} {s : System} {e : Event} (hat : At true p s.client s.wire)
    (hp : p.Waits) (he : s.Admits e) (hacts : e.Acts) (hsilent : (s.step e).2.callbacks = []) :
    (∃ q, At true q (s.step e).1.client (s.step e).1.wire ∧ q.Waits)
      ∧ toGo (s.step e).1.client (s.step e).1.wire < toGo s.client s.wire := by
  cases e with
  | call call ok => exact hacts.elim
  | input i ok =>
    obtain ⟨rfl, hsound, hi⟩ := hacts
    obtain ⟨q, htells, -, hq⟩ := goes_input true hat he fun _ => hsound
    have hcb : Seen.callbacks ⟨(s.client.onInput true i).2, true⟩ = [] := hsilent
    rw [hcb] at htells
    exact ⟨⟨q, hq, tells_waits htells hp⟩,
      (lowers_input hat hp he hsound hi).resolve_left (not_not_intro hcb)⟩

/-- A run that is not served: the name server refuses the regions.  The app has heard nothing, and
nothing is awaited. -/
example :
    let es : List Event :=
      [.call (.connect ⟨['n'], .nameServer, []⟩) true, .input .connect true,
        .input .encryptionEstablished true,
        .input (.response {
          operationCode := .getRegions
          returnCode := 32767
          debugMessage := []
          secret := none
          address := []
          roomName := []
          playerNr := 0
          cluster := none
          data := false
          regions := []
          servers := [] }) true]
    let s := Contract.final System.step (.new .default false) es
    (seenOf .default false es).map (fun x => x.2.callbacks.length) = [0, 0, 0, 0]
      ∧ s.client.mState = .connectedToNameserver ∧ s.wire = ⟨.connected, [], false⟩ :=
  ⟨rfl, rfl, rfl⟩

end LoadBalancing
