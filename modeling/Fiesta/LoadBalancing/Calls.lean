import Fiesta.LoadBalancing.Inputs

/-!
# What a call does

* `Moves`          a call leads from a place to a place, and is refused or accepted as it may be;
* `moves_…`        one lemma for each call;
* `moves_call`     **a call that the protocol permits leads from a place to a place**.
-/

namespace LoadBalancing

open Photon

/-- The call with this outcome goes on from a phase as the protocol says; the Boolean is that of the
place it leads to. -/
def Moves (b : Bool) (p : Phase) (w : Wire) (call : Call) (ok : Bool)
    (r : Client × List Out × Bool) : Prop :=
  ∃ p', p.Next (.call call ok) ⟨r.2.1, r.2.2⟩ p' ∧ At b p' r.1 (w.takeAll ok r.2.1)

section
variable {b ok : Bool} {p : Phase} {c : Client} {w : Wire} {call : Call}

/-! ## refused calls -/

theorem moves_refused {r : Client × List Out × Bool} (hresult : r.2.2 = false)
    (hcb : Seen.callbacks ⟨r.2.1, r.2.2⟩ = []) (hat : At b p r.1 (w.takeAll ok r.2.1)) :
    Moves b p w call ok r :=
  ⟨p, .refuses hresult hcb, hat⟩

/-- An app that is not connected keeps its place, whatever the client notes down. -/
theorem At.unconnected {c' : Client} (h : At b p c w) (hp : p = .offline ∨ p = .closing)
    (hs : c'.mState = c.mState ∨ ¬ c'.mState.Hops) : At b p c' w := by
  have hclosing (h : ¬ c.mState.Hops) : ¬ c'.mState.Hops := by
    obtain hs | hs := hs
    · rwa [hs]
    · exact hs
  cases h with
  | offline t => exact .offline _ _
  | closing h t => exact .closing (hclosing h) _
  | closed t => exact .closed _ _
  | offGameserver hr h t => obtain rfl | rfl := hp <;> exact hr.elim
  | backToMaster hr h hw => obtain rfl | rfl := hp <;> exact hr.elim
  | backOnMaster hr h hl t => obtain rfl | rfl := hp <;> exact hr.elim
  | backIntoLobby hr h hauto hl t => obtain rfl | rfl := hp <;> exact hr.elim
  | _ => obtain hp | hp := hp <;> cases hp

theorem At.unconnected_state (h : At b p c w) (hp : p = .offline ∨ p = .closing) :
    w.state ≠ .connected := by
  cases h with
  | offline t => exact fun h => by cases h
  | closing h t => exact fun h => by cases h
  | closed t => exact fun h => by cases h
  | offGameserver hr h t => obtain rfl | rfl := hp <;> exact hr.elim
  | backToMaster hr h hw => obtain rfl | rfl := hp <;> exact hr.elim
  | backOnMaster hr h hl t => obtain rfl | rfl := hp <;> exact hr.elim
  | backIntoLobby hr h hauto hl t => obtain rfl | rfl := hp <;> exact hr.elim
  | _ => obtain hp | hp := hp <;> cases hp

/-- A peer that connects or closes has nothing to answer. -/
theorem At.awaited_nil (h : At b p c w) (hs : w.state = .disconnected ∨ w.state = .disconnecting) :
    w.awaited = [] := by
  have hopen (hw : Opening b c w) : w.awaited = [] := by
    obtain rfl | ⟨_, t, rfl⟩ := hw <;> rfl
  cases h with
  | offline t => rfl
  | closing h t => rfl
  | closed t => rfl
  | offNameserver h t => rfl
  | offMaster h hr hn t => rfl
  | offGameserver hp h t => rfl
  | toMaster h hw => exact hopen hw
  | toGameserver h hr hn hw => exact hopen hw
  | backToMaster hp h hw => exact hopen hw
  | _ => obtain hs | hs := hs <;> cases hs

/-! ## connecting -/

theorem moves_connect (options : Client.ConnectOptions) (h : At b p c w)
    (hp : p = .offline ∨ p = .closing) (hw : ok = true → w.state = .disconnected) :
    Moves b p w (.connect options) ok (c.connect ok options) := by
  have hguard : ¬ (c.mState.value > PeerStates.peerCreated.value
      ∧ c.mState.value < PeerState.disconnected.ctorIdx) := by
    rintro ⟨_, hlt⟩
    exact Nat.not_lt_zero _ hlt
  unfold Client.connect
  rw [if_neg hguard]
  cases ok with
  | false => exact moves_refused rfl rfl (h.unconnected hp (.inl rfl))
  | true =>
    refine ⟨.connecting, .accepts rfl rfl (.connect hp options), ?_⟩
    cases htype : options.serverType with
    | nameServer => exact .toNameserver rfl
    | masterServer =>
      have hauth : (ServerType.masterServer == .nameServer) = false := rfl
      refine .toMaster rfl (.inl ?_)
      simp [Client.hasToken, Wire.take, hauth]

theorem moves_disconnect (h : At b p c w) :
    Moves b p w .disconnect ok (c.disconnect.1, c.disconnect.2, true) := by
  have hhops : ¬ PeerStates.Hops .disconnecting := by
    rintro (h | h | h) <;> cases h
  have hnil := h.awaited_nil
  by_cases hp : p = .offline
  · subst hp
    refine ⟨.offline, .accepts rfl rfl .stayOffline, ?_⟩
    cases h with
    | offline t => exact .offline _ _
    | offGameserver hr h t => exact hr.elim
    | backToMaster hr h hw => exact hr.elim
    | backOnMaster hr h hl t => exact hr.elim
    | backIntoLobby hr h hauto hl t => exact hr.elim
  · refine ⟨.closing, .accepts rfl rfl (.disconnect hp), ?_⟩
    obtain ⟨state, l, t⟩ := w
    cases state with
    | disconnected =>
      obtain rfl : l = [] := hnil (.inl rfl)
      exact .closed _ _
    | connecting => exact .closing hhops _
    | connected => exact .closing hhops _
    | disconnecting =>
      obtain rfl : l = [] := hnil (.inr rfl)
      exact .closing hhops _

theorem moves_reconnectAndRejoin (h : At b p c w) (hp : p = .offline ∨ p = .closing)
    (hw : ok = true → w.state = .disconnected)
    (hroom : c.mGameserver ≠ [] → c.mpCurrentlyJoinedRoom ≠ none) :
    Moves (b && !c.mRoomName.isEmpty) p w .reconnectAndRejoin ok (c.reconnectAndRejoin ok) := by
  have hhops : ¬ PeerStates.Hops .connectingToGameserver := by
    rintro (h | h | h) <;> cases h
  unfold Client.reconnectAndRejoin
  cases hempty : c.mGameserver.isEmpty with
  | true =>
    rw [if_pos rfl]
    exact moves_refused rfl rfl (h.weaken _)
  | false =>
    rw [if_neg Bool.false_ne_true]
    have hserver : c.mGameserver ≠ [] := by
      rintro hnil
      rw [hnil] at hempty
      cases hempty
    cases ok with
    | false => exact moves_refused rfl rfl ((h.weaken _).unconnected hp (.inr hhops))
    | true =>
      refine ⟨.entering .rejoin none, .accepts rfl rfl (.reconnectAndRejoin hp), ?_⟩
      refine .toGameserver rfl ⟨hroom hserver, rfl, rfl⟩ ⟨.inl rfl, ?_⟩ ?_
      · intro hb
        have hname := (Bool.and_eq_true_iff.1 hb).2
        refine .inl ?_
        rintro hnil
        rw [show c.mRoomName = [] from hnil] at hname
        cases hname
      · obtain ⟨state, l, t⟩ := w
        obtain rfl : state = .disconnected := hw rfl
        obtain rfl : l = [] := h.awaited_nil (.inl rfl)
        have hopen := opening_connect (b && !c.mRoomName.isEmpty) true c c.mGameserver t
        rw [Bool.and_true] at hopen
        exact hopen.congr rfl

/-- A call that the peer refuses leaves the client where it is. -/
theorem moves_selectRegion (selectedRegion : JString) (h : At b p c w)
    (hp : p = .choosingRegion) :
    Moves b p w (.selectRegion selectedRegion) ok (c.selectRegion ok selectedRegion) := by
  subst hp
  unfold Client.selectRegion
  by_cases hmode : c.M_REGION_SELECTION_MODE ≠ .select
  · rw [if_pos hmode]
    exact moves_refused rfl rfl h
  · rw [if_neg hmode]
    cases h with
    | choosingRegion h t =>
      cases ok with
      | false =>
        refine moves_refused rfl rfl (.choosingRegion ?_ _)
        exact h
      | true =>
        refine ⟨.connecting, .accepts rfl rfl (.selectRegion _), ?_⟩
        refine .onNameserver ?_ (.inl ⟨.response .authenticate, by simp, rfl⟩) _
        exact h
    | offGameserver hr h t => exact hr.elim
    | backToMaster hr h hw => exact hr.elim
    | backOnMaster hr h hl t => exact hr.elim
    | backIntoLobby hr h hauto hl t => exact hr.elim

/-- Only a client that is asked for another step of the authentication waits for one. -/
theorem At.waiting (h : At b p c w) (hs : c.mState = .waitingForCustomAuthenticationNextStepCall) :
    (p = .offline ∨ p = .closing) ∨ p = .authenticationStep ∧ ∃ t, w = ⟨.connected, [], t⟩ := by
  have hidle (h : c.mState.Idle) : False := by
    rw [hs] at h
    obtain h | h | h := h <;> cases h
  cases h with
  | offline t => exact .inl (.inl rfl)
  | closing h t => exact .inl (.inr rfl)
  | closed t => exact .inl (.inr rfl)
  | waitingForStep h t => exact .inr ⟨rfl, t, rfl⟩
  | ready h t => exact (hidle h).elim
  | joiningLobby h _ t => exact (hidle h).elim
  | leavingLobby h t => exact (hidle h).elim
  | asking h hr hc t => exact (hidle h).elim
  | _ => simp_all

theorem moves_customAuthentication (secret : JString) (h : At b p c w)
    (hw : ok = true → w.state = .connected) :
    Moves (b && ok) p w (.opCustomAuthenticationSendNextStepData secret) ok
      (c.opCustomAuthenticationSendNextStepData ok secret) := by
  have hhops : ¬ PeerStates.Hops .connectedToNameserver := by
    intro h
    obtain h | h | h := h <;> cases h
  unfold Client.opCustomAuthenticationSendNextStepData
  by_cases hs : c.mState = .waitingForCustomAuthenticationNextStepCall
  · rw [if_neg (not_not_intro hs)]
    obtain hp | ⟨rfl, t, rfl⟩ := h.waiting hs
    · cases ok with
      | true => exact absurd (hw rfl) (h.unconnected_state hp)
      | false => exact moves_refused rfl rfl ((h.weaken _).unconnected hp (.inr hhops))
    · cases ok with
      | true =>
        refine ⟨.connecting, .accepts rfl rfl (.customAuthentication _), ?_⟩
        exact .onNameserver rfl (.inl ⟨.response .authenticate, by simp, rfl⟩) _
      | false =>
        refine moves_refused rfl rfl ?_
        exact .waitingForStep (.inr ⟨Bool.and_false b, rfl⟩) _
  · rw [if_pos hs]
    exact moves_refused rfl rfl (h.weaken _)

/-! ## lobbies -/

theorem At.ready_iff (h : At b .ready c w) : c.mState.Idle ∧ ∃ t, w = ⟨.connected, [], t⟩ := by
  cases h with
  | ready h t => exact ⟨h, t, rfl⟩
  | offGameserver hr h t => exact hr.elim
  | backToMaster hr h hw => exact hr.elim
  | backOnMaster hr h hl t => exact hr.elim
  | backIntoLobby hr h hauto hl t => exact hr.elim

theorem At.inRoom_state (h : At b .inRoom c w) :
    c.mState = .joined ∧ c.mpCurrentlyJoinedRoom ≠ none
      ∧ c.mCachedErrorCodeFromGameServer = ErrorCode.OK ∧ ∃ t, w = ⟨.connected, [], t⟩ := by
  cases h with
  | inRoom h hroom hcode t => exact ⟨h, hroom, hcode, t, rfl⟩
  | offGameserver hr h t => exact hr.elim
  | backToMaster hr h hw => exact hr.elim
  | backOnMaster hr h hl t => exact hr.elim
  | backIntoLobby hr h hauto hl t => exact hr.elim

theorem moves_joinLobby (lobbyName : JString) (lobbyType : NByte) (h : At b p c w)
    (hp : p = .ready ∨ p = .inRoom ∨ p = .offline ∨ p = .closing)
    (hw : ok = true → w.state = .connected) :
    Moves b p w (.opJoinLobby lobbyName lobbyType) ok (c.opJoinLobby ok lobbyName lobbyType) := by
  unfold Client.opJoinLobby
  cases hin : c.getIsInRoom with
  | true =>
    rw [if_pos rfl]
    exact moves_refused rfl rfl h
  | false =>
    rw [if_neg Bool.false_ne_true]
    obtain rfl | rfl | hp := hp
    · obtain ⟨hidle, t, rfl⟩ := h.ready_iff
      cases hlobby : Client.lobbyRefused lobbyName lobbyType with
      | true =>
        refine moves_refused rfl rfl (.ready ?_ _)
        exact hidle
      | false =>
        cases ok with
        | false =>
          refine moves_refused rfl rfl (.ready ?_ _)
          exact hidle
        | true =>
          refine ⟨.joiningLobby, .accepts rfl rfl (.joinLobby _ _), .joiningLobby ?_ rfl _⟩
          exact hidle
    · have hjoined : c.getIsInRoom = true := by
        unfold Client.getIsInRoom Client.getIsInGameRoom
        rw [h.inRoom_state.1]
        exact Bool.or_true _
      rw [hin] at hjoined
      cases hjoined
    · cases ok with
      | true => exact absurd (hw rfl) (h.unconnected_state hp)
      | false =>
        cases hlobby : Client.lobbyRefused lobbyName lobbyType with
        | true => exact moves_refused rfl rfl (h.unconnected hp (.inl rfl))
        | false => exact moves_refused rfl rfl (h.unconnected hp (.inl rfl))

theorem moves_leaveLobby (h : At b p c w)
    (hp : p = .ready ∨ p = .inRoom ∨ p = .offline ∨ p = .closing)
    (hw : ok = true → w.state = .connected) :
    Moves b p w .opLeaveLobby ok (c.opLeaveLobby ok) := by
  unfold Client.opLeaveLobby
  cases hin : c.getIsInLobby with
  | false =>
    rw [if_pos (show (!false) = true from rfl)]
    exact moves_refused rfl rfl h
  | true =>
    rw [if_neg (show ¬ (!true) = true from Bool.false_ne_true)]
    obtain rfl | rfl | hp := hp
    · obtain ⟨hidle, t, rfl⟩ := h.ready_iff
      cases ok with
      | false => exact moves_refused rfl rfl h
      | true => exact ⟨.leavingLobby, .accepts rfl rfl .leaveLobby, .leavingLobby hidle _⟩
    · unfold Client.getIsInLobby at hin
      rw [h.inRoom_state.1] at hin
      cases hin
    · cases ok with
      | true => exact absurd (hw rfl) (h.unconnected_state hp)
      | false => exact moves_refused rfl rfl h

/-! ## rooms -/

/-- A join that comes back with `false`. -/
structure Refuses (c : Client) (r : Client × List Out × Bool) : Prop where
  result : r.2.2 = false
  callbacks : Seen.callbacks ⟨r.2.1, r.2.2⟩ = []
  state : r.1.mState = c.mState
  wire : ∀ w : Wire, w.takeAll false r.2.1 = w

/-- A join that comes back with `true`. -/
structure Starts (c : Client) (j : Join) (r : Client × List Out × Bool) : Prop where
  result : r.2.2 = true
  callbacks : Seen.callbacks ⟨r.2.1, r.2.2⟩ = []
  state : r.1.mState = c.mState
  wire : ∀ t, Wire.takeAll true ⟨.connected, [], t⟩ r.2.1
    = ⟨.connected, [.response j.operationCode], t⟩
  remembers : Entry.Remembers r.1 (.join j)
  called : j.Called r.1

theorem opJoin_inRoom (j : Join) (h : c.getIsInGameRoom = true) :
    c.opJoin ok j = (c, [], false) := by
  cases j <;> exact if_pos h

/-- The join is refused, or handed to the peer; the client itself refuses without asking the peer. -/
def Outcome (c : Client) (ok : Bool) (j : Join) (r : Client × List Out × Bool) : Prop :=
  Refuses c r ∧ (ok = true → r.2.1 = []) ∨ ok = true ∧ Starts c j r

theorem outcome_refused {j : Join} {c' : Client} (h : c'.mState = c.mState) :
    Outcome c ok j (c', [], false) :=
  .inl ⟨⟨rfl, rfl, h, fun _ => rfl⟩, fun _ => rfl⟩

theorem opJoin_cases (ok : Bool) (j : Join) (h : c.getIsInGameRoom = false)
    (hidle : ok = true → c.mState ≠ .joining) : Outcome c ok j (c.opJoin ok j) := by
  have hnot : ¬ c.getIsInGameRoom = true := by
    rw [h]
    exact Bool.false_ne_true
  have htype (hok : ok = true) (type : JoinType) : c.lastJoinType type = some type :=
    if_pos (hidle hok)
  cases j with
  | createRoom gameID options expectedUsers =>
    show Outcome c ok _ (c.opCreateRoom ok gameID options expectedUsers)
    unfold Client.opCreateRoom
    rw [if_neg hnot]
    split
    · exact outcome_refused rfl
    · cases ok with
      | false => exact .inl ⟨⟨rfl, rfl, rfl, fun _ => rfl⟩, fun h => by cases h⟩
      | true =>
        exact .inr ⟨rfl, rfl, rfl, rfl, fun _ => rfl, ⟨rfl, htype rfl _, trivial⟩, rfl⟩
  | joinOrCreateRoom gameID options cacheSliceIndex expectedUsers =>
    show Outcome c ok _ (c.opJoinOrCreateRoom ok gameID options cacheSliceIndex expectedUsers)
    unfold Client.opJoinOrCreateRoom
    rw [if_neg hnot]
    split
    · exact outcome_refused rfl
    · cases gameID with
      | nil => exact outcome_refused rfl
      | cons x xs =>
        cases ok with
        | false => exact .inl ⟨⟨rfl, rfl, rfl, fun _ => rfl⟩, fun h => by cases h⟩
        | true =>
          exact .inr ⟨rfl, rfl, rfl, rfl, fun _ => rfl, ⟨rfl, htype rfl _, rfl⟩, rfl,
            List.cons_ne_nil _ _⟩
  | joinRandomOrCreateRoom gameID options filter expectedUsers =>
    show Outcome c ok _ (c.opJoinRandomOrCreateRoom ok gameID options filter expectedUsers)
    unfold Client.opJoinRandomOrCreateRoom
    rw [if_neg hnot]
    split
    · exact outcome_refused rfl
    · cases ok with
      | false => exact .inl ⟨⟨rfl, rfl, rfl, fun _ => rfl⟩, fun h => by cases h⟩
      | true =>
        exact .inr ⟨rfl, rfl, rfl, rfl, fun _ => rfl, ⟨rfl, htype rfl _, trivial⟩, trivial⟩
  | joinRoom gameID rejoin cacheSliceIndex expectedUsers =>
    show Outcome c ok _ (c.opJoinRoom ok gameID rejoin cacheSliceIndex expectedUsers)
    unfold Client.opJoinRoom
    rw [if_neg hnot]
    cases gameID with
    | nil => exact outcome_refused rfl
    | cons x xs =>
      cases ok with
      | false => exact .inl ⟨⟨rfl, rfl, rfl, fun _ => rfl⟩, fun h => by cases h⟩
      | true =>
        exact .inr ⟨rfl, rfl, rfl, rfl, fun _ => rfl, ⟨rfl, htype rfl _, rfl, rfl⟩, rfl,
          List.cons_ne_nil _ _⟩
  | joinRandomRoom filter expectedUsers =>
    show Outcome c ok _ (c.opJoinRandomRoom ok filter expectedUsers)
    unfold Client.opJoinRandomRoom
    rw [if_neg hnot]
    split
    · exact outcome_refused rfl
    · cases ok with
      | false => exact .inl ⟨⟨rfl, rfl, rfl, fun _ => rfl⟩, fun h => by cases h⟩
      | true =>
        exact .inr ⟨rfl, rfl, rfl, rfl, fun _ => rfl, ⟨rfl, htype rfl _, trivial⟩, trivial⟩

/-- Nothing of a refused call reaches the peer. -/
theorem Refuses.takeAll {r : Client × List Out × Bool} (hr : Refuses c r)
    (hout : ok = true → r.2.1 = []) (w : Wire) : w.takeAll ok r.2.1 = w := by
  cases ok with
  | false => exact hr.wire w
  | true =>
    rw [hout rfl]
    rfl

theorem moves_join (j : Join) (h : At b p c w)
    (hp : p = .ready ∨ p = .inRoom ∨ p = .offline ∨ p = .closing)
    (hw : ok = true → w.state = .connected) :
    Moves b p w (.join j) ok (c.opJoin ok j) := by
  cases hin : c.getIsInGameRoom with
  | true =>
    rw [opJoin_inRoom j hin]
    exact moves_refused rfl rfl h
  | false =>
    obtain rfl | rfl | hp := hp
    · obtain ⟨hidle, t, rfl⟩ := h.ready_iff
      have hjoining : c.mState ≠ .joining := by
        intro hs
        rw [hs] at hidle
        obtain h | h | h := hidle <;> cases h
      obtain ⟨hr, hout⟩ | ⟨rfl, hs⟩ := opJoin_cases ok j hin fun _ => hjoining
      · refine moves_refused hr.result hr.callbacks ?_
        rw [hr.takeAll hout]
        exact .ready (by rwa [hr.state]) _
      · refine ⟨.entering (.join j) none, .accepts hs.result hs.callbacks (.join j), ?_⟩
        rw [hs.wire]
        exact .asking (by rwa [hs.state]) hs.remembers hs.called _
    · unfold Client.getIsInGameRoom at hin
      rw [h.inRoom_state.1] at hin
      cases hin
    · cases ok with
      | true => exact absurd (hw rfl) (h.unconnected_state hp)
      | false =>
        obtain ⟨hr, _⟩ | ⟨hok, _⟩ := opJoin_cases false j hin fun h => by cases h
        · refine moves_refused hr.result hr.callbacks ?_
          rw [hr.wire]
          exact h.unconnected hp (.inl hr.state)
        · cases hok

/-- Only a client in a room is in the state `Joined`. -/
theorem At.joined (h : At b p c w) (hs : c.mState = .joined) :
    (p = .offline ∨ p = .closing) ∨ p = .inRoom := by
  have hidle (h : c.mState.Idle) : False := by
    rw [hs] at h
    obtain h | h | h := h <;> cases h
  cases h with
  | offline t => exact .inl (.inl rfl)
  | closing h t => exact .inl (.inr rfl)
  | closed t => exact .inl (.inr rfl)
  | inRoom h hroom hcode t => exact .inr rfl
  | ready h t => exact (hidle h).elim
  | joiningLobby h _ t => exact (hidle h).elim
  | leavingLobby h t => exact (hidle h).elim
  | asking h hr hc t => exact (hidle h).elim
  | _ => simp_all

theorem moves_leaveRoom (willComeBack sendAuthCookie : Bool) (h : At b p c w)
    (hw : ok = true → w.state = .connected) :
    Moves b p w (.opLeaveRoom willComeBack sendAuthCookie) ok
      (c.opLeaveRoom ok willComeBack sendAuthCookie) := by
  unfold Client.opLeaveRoom
  cases hin : c.getIsInGameRoom with
  | false =>
    rw [if_pos (show (!false) = true from rfl)]
    exact moves_refused rfl rfl h
  | true =>
    rw [if_neg (show ¬ (!true) = true from Bool.false_ne_true)]
    cases ok with
    | false => exact moves_refused rfl rfl h
    | true =>
      obtain hp | rfl := h.joined (beq_iff_eq.1 hin)
      · exact absurd (hw rfl) (h.unconnected_state hp)
      · obtain ⟨_, hroom, hcode, t, rfl⟩ := h.inRoom_state
        refine ⟨.leaving, .accepts rfl rfl (.leaveRoom _ _), .leaving rfl ?_ ?_ _⟩
        · exact hroom
        · exact hcode

theorem moves_raiseEvent (raised : Raised) (h : At b p c w)
    (hw : ok = true → w.state = .connected) :
    Moves b p w (.opRaiseEvent raised) ok (c.opRaiseEvent ok raised) := by
  unfold Client.opRaiseEvent
  cases hin : c.getIsInGameRoom with
  | false =>
    rw [if_pos (show (!false) = true from rfl)]
    exact moves_refused rfl rfl h
  | true =>
    rw [if_neg (show ¬ (!true) = true from Bool.false_ne_true)]
    cases ok with
    | false => exact moves_refused rfl rfl h
    | true =>
      obtain hp | rfl := h.joined (beq_iff_eq.1 hin)
      · exact absurd (hw rfl) (h.unconnected_state hp)
      · obtain ⟨_, _, _, t, rfl⟩ := h.inRoom_state
        exact ⟨.inRoom, .accepts rfl rfl (.raiseEvent _), h⟩

/-! ## all calls -/

/-- The calls after which a client may wait for nothing: a step of the authentication that the peer
refuses, and a return to a room without a name. -/
def Call.sound (c : Client) (ok : Bool) : Call → Bool
  | .opCustomAuthenticationSendNextStepData _ => ok
  | .reconnectAndRejoin => !c.mRoomName.isEmpty
  | _ => true

theorem moves_call (h : At b p c w) (hp : p.Permits call) (hw : w.AdmitsCall ok call)
    (hroom : c.mGameserver ≠ [] → c.mpCurrentlyJoinedRoom ≠ none) :
    Moves (b && call.sound c ok) p w call ok (c.onCall ok call) := by
  have hat := h.weaken (call.sound c ok)
  cases call with
  | connect options => exact moves_connect options hat hp hw
  | disconnect => exact moves_disconnect hat
  | reconnectAndRejoin => exact moves_reconnectAndRejoin h hp hw hroom
  | selectRegion selectedRegion => exact moves_selectRegion selectedRegion hat hp
  | opCustomAuthenticationSendNextStepData secret => exact moves_customAuthentication secret h hw
  | setAutoJoinLobby autoJoinLobby =>
    refine ⟨p, .accepts rfl rfl (.setAutoJoinLobby p _), ?_⟩
    exact hat.of_alike ⟨rfl, rfl, rfl, rfl, rfl, rfl, fun _ => rfl, rfl, rfl⟩ (.inr rfl)
  | getCurrentlyJoinedRoom =>
    exact ⟨p, .accepts rfl rfl (.getCurrentlyJoinedRoom p), hat.getCurrentlyJoinedRoom⟩
  | opJoinLobby lobbyName lobbyType => exact moves_joinLobby lobbyName lobbyType hat hp hw
  | opLeaveLobby => exact moves_leaveLobby hat hp hw
  | join j => exact moves_join j hat hp hw
  | opLeaveRoom willComeBack sendAuthCookie =>
    exact moves_leaveRoom willComeBack sendAuthCookie hat hw
  | opRaiseEvent raised => exact moves_raiseEvent raised hat hw

end

end LoadBalancing
