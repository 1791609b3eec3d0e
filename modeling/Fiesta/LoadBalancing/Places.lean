import Fiesta.LoadBalancing.Protocol

/-!
# Where a client can be

A phase of the app is a stretch of the way of the client.  `At` lists the places of that way, each
with the state of the client, of the peer, and what is awaited.

* `Entry.Remembers`    what the client keeps of a call on its way to the room;
* `At`                 the places, phase by phase;
* `at_secret`          a new secret changes the place only while a connection is opened.

The Boolean of a place says that the peer has accepted every call so far: a client whose call was
refused on the way waits for nothing.
-/

namespace LoadBalancing

open Photon

/-! ## what the client keeps -/

def Join.room : Join → MutableRoom
  | .createRoom gameID options expectedUsers => .ofOptions gameID options expectedUsers
  | .joinOrCreateRoom gameID options _ expectedUsers => .ofOptions gameID options expectedUsers
  | .joinRandomOrCreateRoom gameID options _ expectedUsers =>
    .ofOptions gameID options expectedUsers
  | .joinRoom gameID _ _ expectedUsers => .ofName gameID Parallel.empty expectedUsers
  | .joinRandomRoom filter expectedUsers =>
    .ofName [] (stripToCustomProperties filter.customRoomProperties) expectedUsers

/-- The arguments of a join that are kept beside the room. -/
def Join.Kept (c : Client) : Join → Prop
  | .joinOrCreateRoom _ _ cacheSliceIndex _ => c.mLastCacheSliceIndex = cacheSliceIndex
  | .joinRoom _ rejoin cacheSliceIndex _ =>
    c.mLastJoinWasRejoin = rejoin ∧ c.mLastCacheSliceIndex = cacheSliceIndex
  | _ => True

def Entry.Remembers (c : Client) : Entry → Prop
  | .join j =>
    c.mpCurrentlyJoinedRoom = some j.room ∧ c.mLastJoinType = some j.type ∧ j.Kept c
  | .rejoin =>
    c.mpCurrentlyJoinedRoom ≠ none ∧ c.mLastJoinType = some .joinRoom
      ∧ c.mLastJoinWasRejoin = true

/-- The name that was asked for, where one was. -/
def Join.Called (c : Client) : Join → Prop
  | .createRoom gameID _ _ => c.mRoomName = gameID
  | .joinOrCreateRoom gameID _ _ _ => c.mRoomName = gameID ∧ gameID ≠ []
  | .joinRoom gameID _ _ _ => c.mRoomName = gameID ∧ gameID ≠ []
  | _ => True

/-- The name of the room to go to; only a room that is to be created needs none. -/
def Entry.Named (b : Bool) (c : Client) (entry : Entry) (name : Option JString) : Prop :=
  (entry = .rejoin ∨ name = some c.mRoomName)
    ∧ (b = true → c.mRoomName ≠ [] ∨ entry.type = .createRoom)

/-- What the client has to report when it is back on the master. -/
def Phase.Returns (c : Client) : Phase → Prop
  | .refused entry code text =>
    c.mCachedErrorCodeFromGameServer = code ∧ c.mCachedErrorStringFromGameServer = text
      ∧ code ≠ 0 ∧ c.mLastJoinType = some entry.type
  | .leaving => c.mCachedErrorCodeFromGameServer = ErrorCode.OK
  | _ => False

/-- Two clients that differ only in what no place looks at: the addresses, the regions, the secret,
and the room where there has been none. -/
structure Client.Alike (c c' : Client) : Prop where
  state : c'.mState = c.mState
  joinType : c'.mLastJoinType = c.mLastJoinType
  lobbyJoinType : c'.mLastLobbyJoinType = c.mLastLobbyJoinType
  rejoin : c'.mLastJoinWasRejoin = c.mLastJoinWasRejoin
  slice : c'.mLastCacheSliceIndex = c.mLastCacheSliceIndex
  name : c'.mRoomName = c.mRoomName
  room : c.mpCurrentlyJoinedRoom ≠ none → c'.mpCurrentlyJoinedRoom = c.mpCurrentlyJoinedRoom
  code : c'.mCachedErrorCodeFromGameServer = c.mCachedErrorCodeFromGameServer
  text : c'.mCachedErrorStringFromGameServer = c.mCachedErrorStringFromGameServer

section
variable {c c' : Client}

theorem Entry.Remembers.of_eq {entry : Entry} (h : entry.Remembers c)
    (hroom : c'.mpCurrentlyJoinedRoom = c.mpCurrentlyJoinedRoom)
    (htype : c'.mLastJoinType = c.mLastJoinType)
    (hrejoin : c'.mLastJoinWasRejoin = c.mLastJoinWasRejoin)
    (hslice : c'.mLastCacheSliceIndex = c.mLastCacheSliceIndex) : entry.Remembers c' := by
  cases entry with
  | rejoin =>
    unfold Entry.Remembers
    rw [hroom, htype, hrejoin]
    exact h
  | join j =>
    unfold Entry.Remembers at h ⊢
    rw [hroom, htype]
    refine ⟨h.1, h.2.1, ?_⟩
    have hkept := h.2.2
    cases j <;> simp only [Join.Kept, hrejoin, hslice] at hkept ⊢ <;> exact hkept

theorem Entry.Remembers.room_ne {entry : Entry} (h : entry.Remembers c) :
    c.mpCurrentlyJoinedRoom ≠ none := by
  cases entry with
  | rejoin => exact h.1
  | join j =>
    rw [h.1]
    exact Option.some_ne_none _

theorem Entry.Remembers.type_eq {entry : Entry} (h : entry.Remembers c) :
    c.mLastJoinType = some entry.type := by
  cases entry with
  | rejoin => exact h.2.1
  | join j => exact h.2.1

theorem Phase.Returns.of_eq {p : Phase} (h : p.Returns c)
    (hcode : c'.mCachedErrorCodeFromGameServer = c.mCachedErrorCodeFromGameServer)
    (htext : c'.mCachedErrorStringFromGameServer = c.mCachedErrorStringFromGameServer)
    (htype : c'.mLastJoinType = c.mLastJoinType) : p.Returns c' := by
  cases p with
  | refused entry code text =>
    unfold Phase.Returns
    rw [hcode, htext, htype]
    exact h
  | leaving =>
    unfold Phase.Returns
    rw [hcode]
    exact h
  | _ => exact h.elim

theorem Join.Called.of_eq {j : Join} (h : j.Called c) (hname : c'.mRoomName = c.mRoomName) :
    j.Called c' := by
  cases j <;> simp only [Join.Called, hname] at h ⊢ <;> exact h

theorem Entry.Named.placed {b : Bool} {entry : Entry} {name : Option JString}
    (h : entry.Named b c name) : entry.Placed name := by
  refine h.1.imp_right fun hname => ?_
  rw [hname]
  exact Option.some_ne_none _

theorem Entry.Named.of_eq {b : Bool} {entry : Entry} {name : Option JString}
    (h : entry.Named b c name) (hname : c'.mRoomName = c.mRoomName) : entry.Named b c' name := by
  unfold Entry.Named
  rw [hname]
  exact h

end

/-! ## places -/

namespace PeerStates

/-- On the master, with nothing under way. -/
def Idle (state : PeerStates) : Prop :=
  state = .authenticated ∨ state = .joinedLobby ∨ state = .authenticatedComingFromGameserver

/-- On the way from one server to another. -/
def Hops (state : PeerStates) : Prop :=
  state = .disconnectingFromNameserver ∨ state = .disconnectingFromMasterserver
    ∨ state = .disconnectingFromGameserver

end PeerStates

def Client.hasToken (c : Client) : Bool := c.mUseAuthOnce && !c.mSecret.isEmpty

/-- One of some requests is awaited; nothing is, if the peer has refused it. -/
def Asked (b : Bool) (l xs : List Awaited) : Prop :=
  (∃ x ∈ xs, l = [x]) ∨ b = false ∧ l = []

/-- A connection is being opened with the secret, if there is one to be passed on. -/
def Opening (b : Bool) (c : Client) (w : Wire) : Prop :=
  w = ⟨.connecting, [], c.hasToken⟩ ∨ b = false ∧ ∃ t, w = ⟨.disconnected, [], t⟩

inductive At (b : Bool) : Phase → Client → Wire → Prop where
  | offline (c t) : At b .offline c ⟨.disconnected, [], t⟩
  | closing {c : Client} (h : ¬ c.mState.Hops) (t) : At b .closing c ⟨.disconnecting, [], t⟩
  | closed (c t) : At b .closing c ⟨.disconnected, [], t⟩
  -- from the name server to the master
  | toNameserver {c : Client} (h : c.mState = .connectingToNameserver) :
    At b .connecting c ⟨.connecting, [], false⟩
  | onNameserver {c : Client} {l} (h : c.mState = .connectedToNameserver)
      (hl : Asked b l [.encryption, .pings, .response .getRegions, .response .authenticate]) (t) :
    At b .connecting c ⟨.connected, l, t⟩
  | waitingForStep {c : Client} (h : c.mState = .waitingForCustomAuthenticationNextStepCall
        ∨ b = false ∧ c.mState = .connectedToNameserver) (t) :
    At b .authenticationStep c ⟨.connected, [], t⟩
  | choosingRegion {c : Client} (h : c.mState = .connectedToNameserver) (t) :
    At b .choosingRegion c ⟨.connected, [], t⟩
  | offNameserver {c : Client} (h : c.mState = .disconnectingFromNameserver) (t) :
    At b .connecting c ⟨.disconnecting, [], t⟩
  | toMaster {c : Client} {w} (h : c.mState = .connecting) (hw : Opening b c w) :
    At b .connecting c w
  | onMaster {c : Client} {l} (h : c.mState = .connected)
      (hl : Asked b l [.encryption, .response .authenticate]) (t) :
    At b .connecting c ⟨.connected, l, t⟩
  | intoLobby {c : Client} {l} (h : c.mState = .authenticated)
      (hauto : c.mLastLobbyJoinType = some .autoJoinLobby)
      (hl : Asked b l [.response .joinLobby]) (t) :
    At b .connecting c ⟨.connected, l, t⟩
  -- on the master
  | ready {c : Client} (h : c.mState.Idle) (t) : At b .ready c ⟨.connected, [], t⟩
  | joiningLobby {c : Client} (hidle : c.mState.Idle)
      (h : c.mLastLobbyJoinType = some .explicitJoinLobby) (t) :
    At b .joiningLobby c ⟨.connected, [.response .joinLobby], t⟩
  | leavingLobby {c : Client} (hidle : c.mState.Idle) (t) :
    At b .leavingLobby c ⟨.connected, [.response .leaveLobby], t⟩
  -- from the master to the game server
  | asking {c : Client} {j} (h : c.mState.Idle) (hr : Entry.Remembers c (.join j))
      (hc : j.Called c) (t) :
    At b (.entering (.join j) none) c ⟨.connected, [.response j.operationCode], t⟩
  | offMaster {c : Client} {entry name} (h : c.mState = .disconnectingFromMasterserver)
      (hr : Entry.Remembers c entry) (hn : entry.Named b c name) (t) :
    At b (.entering entry name) c ⟨.disconnecting, [], t⟩
  | toGameserver {c : Client} {w entry name} (h : c.mState = .connectingToGameserver)
      (hr : Entry.Remembers c entry) (hn : entry.Named b c name) (hw : Opening b c w) :
    At b (.entering entry name) c w
  | onGameserver {c : Client} {l entry name} (h : c.mState = .connectedToGameserver)
      (hr : Entry.Remembers c entry) (hn : entry.Named b c name)
      (hl : Asked b l [.encryption, .response .authenticate]) (t) :
    At b (.entering entry name) c ⟨.connected, l, t⟩
  | joining {c : Client} {l entry name} (h : c.mState = .joining)
      (htype : c.mLastJoinType = some entry.type) (hroom : c.mpCurrentlyJoinedRoom ≠ none)
      (hplaced : entry.Placed name) (hcode : c.mCachedErrorCodeFromGameServer = ErrorCode.OK)
      (hl : Asked b l [.response .createRoom, .response .joinRoom]) (t) :
    At b (.entering entry name) c ⟨.connected, l, t⟩
  | inRoom {c : Client} (h : c.mState = .joined) (hroom : c.mpCurrentlyJoinedRoom ≠ none)
      (hcode : c.mCachedErrorCodeFromGameServer = ErrorCode.OK) (t) :
    At b .inRoom c ⟨.connected, [], t⟩
  -- from the game server back to the master
  | leaving {c : Client} (h : c.mState = .leaving) (hroom : c.mpCurrentlyJoinedRoom ≠ none)
      (hcode : c.mCachedErrorCodeFromGameServer = ErrorCode.OK) (t) :
    At b .leaving c ⟨.connected, [.response .leave], t⟩
  | offGameserver {c : Client} {p} (hp : p.Returns c)
      (h : c.mState = .disconnectingFromGameserver) (t) : At b p c ⟨.disconnecting, [], t⟩
  | backToMaster {c : Client} {p w} (hp : p.Returns c) (h : c.mState = .connectingToMasterserver)
      (hw : Opening b c w) : At b p c w
  | backOnMaster {c : Client} {p l} (hp : p.Returns c)
      (h : c.mState = .connectedComingFromGameserver)
      (hl : Asked b l [.encryption, .response .authenticate]) (t) :
    At b p c ⟨.connected, l, t⟩
  | backIntoLobby {c : Client} {p l} (hp : p.Returns c)
      (h : c.mState = .authenticatedComingFromGameserver)
      (hauto : c.mLastLobbyJoinType = some .autoJoinLobby)
      (hl : Asked b l [.response .joinLobby]) (t) :
    At b p c ⟨.connected, l, t⟩

/-! ## fewer promises -/

theorem Asked.weaken {b : Bool} {l xs : List Awaited} (h : Asked b l xs) (ok : Bool) :
    Asked (b && ok) l xs := by
  obtain h | ⟨hb, h⟩ := h
  · exact .inl h
  · exact .inr ⟨by rw [hb, Bool.false_and], h⟩

theorem Opening.weaken {b : Bool} {c : Client} {w : Wire} (h : Opening b c w) (ok : Bool) :
    Opening (b && ok) c w := by
  obtain h | ⟨hb, h⟩ := h
  · exact .inl h
  · exact .inr ⟨by rw [hb, Bool.false_and], h⟩

theorem Entry.Named.weaken {b : Bool} {c : Client} {entry : Entry} {name : Option JString}
    (h : entry.Named b c name) (ok : Bool) : entry.Named (b && ok) c name :=
  ⟨h.1, fun hb => h.2 (Bool.and_eq_true_iff.1 hb).1⟩

theorem At.weaken {b : Bool} {p : Phase} {c : Client} {w : Wire} (h : At b p c w) (ok : Bool) :
    At (b && ok) p c w := by
  cases h with
  | offline t => exact .offline _ _
  | closing h t => exact .closing h _
  | closed t => exact .closed _ _
  | toNameserver h => exact .toNameserver h
  | onNameserver h hl t => exact .onNameserver h (hl.weaken ok) _
  | waitingForStep h t =>
    exact .waitingForStep (h.imp_right fun h => ⟨by rw [h.1, Bool.false_and], h.2⟩) _
  | choosingRegion h t => exact .choosingRegion h _
  | offNameserver h t => exact .offNameserver h _
  | toMaster h hw => exact .toMaster h (hw.weaken ok)
  | onMaster h hl t => exact .onMaster h (hl.weaken ok) _
  | intoLobby h hauto hl t => exact .intoLobby h hauto (hl.weaken ok) _
  | ready h t => exact .ready h _
  | joiningLobby hidle h t => exact .joiningLobby hidle h _
  | leavingLobby hidle t => exact .leavingLobby hidle _
  | asking h hr hc t => exact .asking h hr hc _
  | offMaster h hr hn t => exact .offMaster h hr (hn.weaken ok) _
  | toGameserver h hr hn hw => exact .toGameserver h hr (hn.weaken ok) (hw.weaken ok)
  | onGameserver h hr hn hl t => exact .onGameserver h hr (hn.weaken ok) (hl.weaken ok) _
  | joining h htype hroom hplaced hcode hl t =>
    exact .joining h htype hroom hplaced hcode (hl.weaken ok) _
  | inRoom h hroom hcode t => exact .inRoom h hroom hcode _
  | leaving h hroom hcode t => exact .leaving h hroom hcode _
  | offGameserver hp h t => exact .offGameserver hp h _
  | backToMaster hp h hw => exact .backToMaster hp h (hw.weaken ok)
  | backOnMaster hp h hl t => exact .backOnMaster hp h (hl.weaken ok) _
  | backIntoLobby hp h hauto hl t => exact .backIntoLobby hp h hauto (hl.weaken ok) _

/-! ## changes that no place looks at -/

theorem Opening.not_connected {b : Bool} {c : Client} {l : List Awaited} {t : Bool}
    (h : Opening b c ⟨.connected, l, t⟩) : False := by
  obtain h | ⟨_, t', h⟩ := h <;> cases h

theorem Opening.of_token {b : Bool} {c c' : Client} {w : Wire} (h : Opening b c w)
    (ht : w.state = .connected ∨ c'.hasToken = c.hasToken) : Opening b c' w := by
  obtain ht | ht := ht
  · obtain ⟨s, l, t⟩ := w
    cases ht
    exact h.not_connected.elim
  · unfold Opening
    rw [ht]
    exact h

/-- The token counts only while a connection is being opened. -/
theorem At.of_alike {b : Bool} {p : Phase} {c c' : Client} {w : Wire} (h : At b p c w)
    (ha : c.Alike c') (ht : w.state = .connected ∨ c'.hasToken = c.hasToken) : At b p c' w := by
  have hs := ha.state
  have hr {entry : Entry} (h : entry.Remembers c) : entry.Remembers c' :=
    h.of_eq (ha.room h.room_ne) ha.joinType ha.rejoin ha.slice
  have hret {p : Phase} (h : p.Returns c) : p.Returns c' := h.of_eq ha.code ha.text ha.joinType
  cases h with
  | offline t => exact .offline _ _
  | closing h t => exact .closing (by rwa [hs]) _
  | closed t => exact .closed _ _
  | toNameserver h => exact .toNameserver (hs.trans h)
  | onNameserver h hl t => exact .onNameserver (hs.trans h) hl _
  | waitingForStep h t => exact .waitingForStep (by rwa [hs]) _
  | choosingRegion h t => exact .choosingRegion (hs.trans h) _
  | offNameserver h t => exact .offNameserver (hs.trans h) _
  | toMaster h hw => exact .toMaster (hs.trans h) (hw.of_token ht)
  | onMaster h hl t => exact .onMaster (hs.trans h) hl _
  | intoLobby h hauto hl t => exact .intoLobby (hs.trans h) (ha.lobbyJoinType.trans hauto) hl _
  | ready h t => exact .ready (by rwa [hs]) _
  | joiningLobby hidle h t =>
    exact .joiningLobby (by rwa [hs]) (ha.lobbyJoinType.trans h) _
  | leavingLobby hidle t => exact .leavingLobby (by rwa [hs]) _
  | asking h hrem hc t => exact .asking (by rwa [hs]) (hr hrem) (hc.of_eq ha.name) _
  | offMaster h hrem hn t => exact .offMaster (hs.trans h) (hr hrem) (hn.of_eq ha.name) _
  | toGameserver h hrem hn hw =>
    exact .toGameserver (hs.trans h) (hr hrem) (hn.of_eq ha.name) (hw.of_token ht)
  | onGameserver h hrem hn hl t =>
    exact .onGameserver (hs.trans h) (hr hrem) (hn.of_eq ha.name) hl _
  | joining h htype hroom hplaced hcode hl t =>
    exact .joining (hs.trans h) (ha.joinType.trans htype) (by rwa [ha.room hroom]) hplaced
      (ha.code.trans hcode) hl _
  | inRoom h hroom hcode t =>
    exact .inRoom (hs.trans h) (by rwa [ha.room hroom]) (ha.code.trans hcode) _
  | leaving h hroom hcode t =>
    exact .leaving (hs.trans h) (by rwa [ha.room hroom]) (ha.code.trans hcode) _
  | offGameserver hp h t => exact .offGameserver (hret hp) (hs.trans h) _
  | backToMaster hp h hw => exact .backToMaster (hret hp) (hs.trans h) (hw.of_token ht)
  | backOnMaster hp h hl t => exact .backOnMaster (hret hp) (hs.trans h) hl _
  | backIntoLobby hp h hauto hl t =>
    exact .backIntoLobby (hret hp) (hs.trans h) (ha.lobbyJoinType.trans hauto) hl _

theorem At.getCurrentlyJoinedRoom {b : Bool} {p : Phase} {c : Client} {w : Wire} (h : At b p c w) :
    At b p c.getCurrentlyJoinedRoom.1 w := by
  unfold Client.getCurrentlyJoinedRoom
  cases hroom : c.mpCurrentlyJoinedRoom with
  | some room => exact h
  | none =>
    exact h.of_alike ⟨rfl, rfl, rfl, rfl, rfl, rfl, (absurd hroom ·), rfl, rfl⟩ (.inr rfl)

theorem at_secret {b : Bool} {p : Phase} {c : Client} {l : List Awaited} {t : Bool}
    (h : At b p c ⟨.connected, l, t⟩) (secret : JString) :
    At b p { c with mSecret := secret } ⟨.connected, l, t⟩ :=
  h.of_alike ⟨rfl, rfl, rfl, rfl, rfl, rfl, fun _ => rfl, rfl, rfl⟩ (.inl rfl)

end LoadBalancing
