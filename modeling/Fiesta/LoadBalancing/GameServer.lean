import Fiesta.LoadBalancing.Master

/-!
# From the master to the game server

* `goes_asking`                     the answer of the master to a join;
* `joinOnGameServer_asks`           **the game server is asked for what the app has asked for**;
* `goes_authenticate_gameserver`    the arrival at the game server;
* `goes_entered`, `goes_leave`      the answers of the game server.
-/

namespace LoadBalancing

open Photon

/-! ## the answer of the master -/

theorem idle_not_onGameServer {c : Client} (h : c.mState.Idle) : c.getIsOnGameServer = false := by
  unfold Client.getIsOnGameServer
  obtain h | h | h := h <;> rw [h] <;> rfl

section
variable {b : Bool} {c : Client} {r : OperationResponse} {j : Join} {t : Bool} (ok : Bool)

theorem goes_found (hr : Entry.Remembers c (.join j)) (hop : r.operationCode = j.operationCode)
    (hcode : r.returnCode = 0) (hname : c.mRoomName = j.named r)
    (hb : b = true → c.mRoomName ≠ [] ∨ j.type = .createRoom) (address : JString) :
    Goes b (.entering (.join j) none) ⟨.connected, [.response j.operationCode], t⟩ (.response r) ok
      (c.goToGameServer address) := by
  refine ⟨.entering (.join j) (some (j.named r)), .found j hop hcode, asks_nil _, ?_⟩
  rw [hear_response r hop]
  refine .offMaster rfl ?_ ?_ _
  · exact hr.of_eq rfl rfl rfl rfl
  · exact ⟨.inr (congrArg some hname.symm), hb⟩

theorem goes_refused_master (hidle : c.mState.Idle) (hop : r.operationCode = j.operationCode)
    (hcode : r.returnCode ≠ 0) :
    Goes b (.entering (.join j) none) ⟨.connected, [.response j.operationCode], t⟩ (.response r) ok
      (c, [.app (.joinReturn j.type 0 r.returnCode r.debugMessage)]) := by
  have hfail : Input.failure (.response r) = some (r.returnCode, r.debugMessage) := by
    refine failure_response hcode ?_
    rw [hop]
    cases j <;> simp [Join.operationCode]
  refine ⟨.ready, .refusedOnMaster j hfail, asks_nil _, ?_⟩
  rw [hear_response r hop]
  exact .ready hidle _

end

/-- `asking`: the answer of the master.  A random match that comes without a name would leave the
client on the game server with no room to ask for. -/
theorem goes_asking {b : Bool} (ok : Bool) {c : Client} {r : OperationResponse} {j : Join} {t : Bool}
    (hidle : c.mState.Idle) (hr : Entry.Remembers c (.join j)) (hc : j.Called c)
    (hop : r.operationCode = j.operationCode)
    (hb : b = true → r.operationCode = .joinRandomRoom → r.returnCode = 0 → r.roomName ≠ []) :
    Goes b (.entering (.join j) none) ⟨.connected, [.response j.operationCode], t⟩ (.response r) ok
      (c.onOperation ok r) := by
  have hgs := idle_not_onGameServer hidle
  unfold Client.onOperation
  cases j with
  | createRoom gameID options expectedUsers =>
    have hop' : r.operationCode = .createRoom := hop
    have hname : c.mRoomName = gameID := hc
    simp only [hop', Client.onCreateRoom, hgs, Bool.false_eq_true, if_false]
    by_cases hcode : r.returnCode = 0
    · rw [if_neg (not_not_intro hcode)]
      refine goes_found ok ?_ hop hcode ?_ (fun _ => .inr rfl) _
      · exact hr.of_eq rfl rfl rfl rfl
      · show (if r.roomName.isEmpty then c.mRoomName else r.roomName) = _
        rw [hname]
        rfl
    · rw [if_pos hcode]
      exact goes_refused_master ok hidle hop hcode
  | joinOrCreateRoom gameID options cacheSliceIndex expectedUsers =>
    have hop' : r.operationCode = .joinRoom := hop
    have htype : c.mLastJoinType = some .joinOrCreateRoom := hr.2.1
    simp only [hop', Client.onJoinRoom, hgs, htype, Bool.false_eq_true, if_false]
    by_cases hcode : r.returnCode = 0
    · rw [if_neg (not_not_intro hcode)]
      exact goes_found ok hr hop hcode hc.1 (fun _ => .inl (by rw [hc.1]; exact hc.2)) _
    · rw [if_pos hcode]
      exact goes_refused_master ok hidle hop hcode
  | joinRoom gameID rejoin cacheSliceIndex expectedUsers =>
    have hop' : r.operationCode = .joinRoom := hop
    have htype : c.mLastJoinType = some .joinRoom := hr.2.1
    simp only [hop', Client.onJoinRoom, hgs, htype, Bool.false_eq_true, if_false]
    by_cases hcode : r.returnCode = 0
    · rw [if_neg (not_not_intro hcode)]
      exact goes_found ok hr hop hcode hc.1 (fun _ => .inl (by rw [hc.1]; exact hc.2)) _
    · rw [if_pos hcode]
      exact goes_refused_master ok hidle hop hcode
  | joinRandomOrCreateRoom gameID options filter expectedUsers =>
    have hop' : r.operationCode = .joinRandomRoom := hop
    have htype : c.mLastJoinType = some .joinRandomOrCreateRoom := hr.2.1
    simp only [hop', Client.onJoinRandomRoom, htype]
    by_cases hcode : r.returnCode = 0
    · rw [if_neg (not_not_intro hcode)]
      refine goes_found ok ?_ hop hcode rfl (fun h => .inl (hb h hop' hcode)) _
      exact hr.of_eq rfl htype.symm rfl rfl
    · rw [if_pos hcode]
      exact goes_refused_master ok hidle hop hcode
  | joinRandomRoom filter expectedUsers =>
    have hop' : r.operationCode = .joinRandomRoom := hop
    have htype : c.mLastJoinType = some .joinRandomRoom := hr.2.1
    simp only [hop', Client.onJoinRandomRoom, htype]
    by_cases hcode : r.returnCode = 0
    · rw [if_neg (not_not_intro hcode)]
      refine goes_found ok ?_ hop hcode rfl (fun h => .inl (hb h hop' hcode)) _
      exact hr.of_eq rfl htype.symm rfl rfl
    · rw [if_pos hcode]
      exact goes_refused_master ok hidle hop hcode

/-! ## the game server -/

/-- What a join on the game server leaves as it is. -/
structure Client.Stays (c c' : Client) : Prop where
  state : c'.mState = c.mState
  joinType : c'.mLastJoinType = c.mLastJoinType
  room : c.mpCurrentlyJoinedRoom ≠ none → c'.mpCurrentlyJoinedRoom ≠ none
  code : c'.mCachedErrorCodeFromGameServer = c.mCachedErrorCodeFromGameServer

section
variable {c : Client} (h : c.mState = .joining)
include h

theorem joining_facts :
    c.getIsInGameRoom = false ∧ c.getIsOnGameServer = true
      ∧ ∀ type, c.lastJoinType type = c.mLastJoinType := by
  unfold Client.getIsInGameRoom Client.getIsOnGameServer Client.lastJoinType
  rw [h]
  exact ⟨rfl, rfl, fun _ => rfl⟩

theorem optionsFor_joining (options : RoomOptions) : c.optionsFor options = options := by
  unfold Client.optionsFor
  rw [(joining_facts h).2.1]
  rfl

theorem opCreateRoom_joining (ok : Bool) (gameID : JString) (options : RoomOptions)
    (expectedUsers : List JString)
    (hlobby : Client.lobbyRefused options.lobbyName options.lobbyType = false) :
    (c.opCreateRoom ok gameID options expectedUsers).2.1
        = [.peer (.request (.createRoom gameID options expectedUsers))]
      ∧ c.Stays (c.opCreateRoom ok gameID options expectedUsers).1 := by
  have h' : ({ c with mRoomName := gameID } : Client).mState = .joining := h
  unfold Client.opCreateRoom
  simp only [(joining_facts h).1, hlobby, optionsFor_joining h', (joining_facts h').2.2,
    Bool.false_eq_true, if_false]
  cases ok with
  | true => exact ⟨rfl, rfl, rfl, fun _ => Option.some_ne_none _, rfl⟩
  | false => exact ⟨rfl, rfl, rfl, id, rfl⟩

theorem opJoinOrCreateRoom_joining (ok : Bool) (gameID : JString) (options : RoomOptions)
    (cacheSliceIndex : Int) (expectedUsers : List JString)
    (hlobby : Client.lobbyRefused options.lobbyName options.lobbyType = false) :
    (c.opJoinOrCreateRoom ok gameID options cacheSliceIndex expectedUsers).2.1
        = (if gameID.isEmpty then []
          else [.peer (.request
            (.joinRoom gameID (some options) false cacheSliceIndex expectedUsers))])
      ∧ c.Stays (c.opJoinOrCreateRoom ok gameID options cacheSliceIndex expectedUsers).1 := by
  have h' : ({ c with mRoomName := gameID } : Client).mState = .joining := h
  unfold Client.opJoinOrCreateRoom
  simp only [(joining_facts h).1, (joining_facts h).2.1, hlobby, optionsFor_joining h',
    (joining_facts h').2.2, Bool.false_eq_true, if_false, if_true]
  cases gameID with
  | nil => exact ⟨rfl, rfl, rfl, id, rfl⟩
  | cons a l =>
    cases ok with
    | true => exact ⟨rfl, rfl, rfl, fun _ => Option.some_ne_none _, rfl⟩
    | false => exact ⟨rfl, rfl, rfl, id, rfl⟩

theorem opJoinRoom_joining (ok : Bool) (gameID : JString) (rejoin : Bool) (cacheSliceIndex : Int)
    (expectedUsers : List JString) :
    (c.opJoinRoom ok gameID rejoin cacheSliceIndex expectedUsers).2.1
        = (if gameID.isEmpty then []
          else [.peer (.request (.joinRoom gameID none rejoin cacheSliceIndex expectedUsers))])
      ∧ c.Stays (c.opJoinRoom ok gameID rejoin cacheSliceIndex expectedUsers).1 := by
  have h' : ({ c with mRoomName := gameID } : Client).mState = .joining := h
  unfold Client.opJoinRoom
  simp only [(joining_facts h).1, (joining_facts h).2.1, (joining_facts h').2.2,
    Bool.false_eq_true, if_false, if_true]
  cases gameID with
  | nil => exact ⟨rfl, rfl, rfl, id, rfl⟩
  | cons a l =>
    cases ok with
    | true => exact ⟨rfl, rfl, rfl, fun _ => Option.some_ne_none _, rfl⟩
    | false => exact ⟨rfl, rfl, rfl, id, rfl⟩

end

/-- A room without a name is not asked for. -/
theorem asks_if_named {b : Bool} {name : JString} (hb : b = true → name ≠ []) (out : Out) :
    (if name.isEmpty then [] else [out]) = [] ∧ b = false
      ∨ (if name.isEmpty then [] else [out]) = [out] := by
  cases name with
  | nil =>
    cases b with
    | false => exact .inl ⟨rfl, rfl⟩
    | true => exact absurd rfl (hb rfl)
  | cons a l => exact .inr rfl

/-- The join on the game server asks for what the app has asked for. -/
theorem joinOnGameServer_asks {b : Bool} {c : Client} {entry : Entry} {name : Option JString}
    {room : MutableRoom} (ok : Bool) (h : c.mState = .joining) (hr : entry.Remembers c)
    (hroom : c.mpCurrentlyJoinedRoom = some room) (hn : entry.Named b c name) :
    c.Stays (c.joinOnGameServer ok room).1
      ∧ ((c.joinOnGameServer ok room).2 = [] ∧ b = false
        ∨ ∃ request, (c.joinOnGameServer ok room).2 = [.peer (.request request)]
            ∧ entry.Asks name request
            ∧ (request.awaited = [.response .createRoom]
              ∨ request.awaited = [.response .joinRoom])) := by
  unfold Client.joinOnGameServer
  cases entry with
  | rejoin =>
    obtain ⟨_, htype, hrejoin⟩ := hr
    have hjoin := opJoinRoom_joining h ok c.mRoomName c.mLastJoinWasRejoin c.mLastCacheSliceIndex
      room.mExpectedUsers
    simp only [htype]
    refine ⟨hjoin.2, ?_⟩
    rw [hjoin.1]
    refine (asks_if_named (fun hb => (hn.2 hb).resolve_right fun h => by cases h) _).imp_right ?_
    intro hout
    refine ⟨_, hout, ⟨c.mRoomName, c.mLastCacheSliceIndex, room.mExpectedUsers, ?_⟩, .inr rfl⟩
    rw [hrejoin]
  | join j =>
    obtain ⟨hkept, htype, hargs⟩ := hr
    obtain rfl : room = j.room := Option.some.inj (hroom.symm.trans hkept)
    obtain hname : name = some c.mRoomName := hn.1.resolve_left fun h => by cases h
    subst hname
    cases j with
    | createRoom gameID options expectedUsers =>
      obtain ⟨halike, husers⟩ := toOptions_ofOptions gameID options expectedUsers
      have hjoin := opCreateRoom_joining h ok c.mRoomName
        (MutableRoom.ofOptions gameID options expectedUsers).toOptions
        (MutableRoom.ofOptions gameID options expectedUsers).mExpectedUsers rfl
      simp only [htype, Join.type, Join.room]
      refine ⟨hjoin.2, .inr ⟨_, hjoin.1, ⟨_, halike, ?_⟩, .inl rfl⟩⟩
      rw [husers]
    | joinOrCreateRoom gameID options cacheSliceIndex expectedUsers =>
      obtain ⟨halike, husers⟩ := toOptions_ofOptions gameID options expectedUsers
      have hjoin := opJoinOrCreateRoom_joining h ok c.mRoomName
        (MutableRoom.ofOptions gameID options expectedUsers).toOptions c.mLastCacheSliceIndex
        (MutableRoom.ofOptions gameID options expectedUsers).mExpectedUsers rfl
      simp only [htype, Join.type, Join.room]
      refine ⟨hjoin.2, ?_⟩
      rw [hjoin.1]
      refine (asks_if_named (fun hb => (hn.2 hb).resolve_right fun h => by cases h) _).imp_right ?_
      intro hout
      refine ⟨_, hout, ⟨_, halike, ?_⟩, .inr rfl⟩
      rw [husers, show c.mLastCacheSliceIndex = cacheSliceIndex from hargs]
    | joinRandomOrCreateRoom gameID options filter expectedUsers =>
      obtain ⟨halike, husers⟩ := toOptions_ofOptions gameID options expectedUsers
      have hjoin := opJoinOrCreateRoom_joining h ok c.mRoomName
        (MutableRoom.ofOptions gameID options expectedUsers).toOptions 0
        (MutableRoom.ofOptions gameID options expectedUsers).mExpectedUsers rfl
      simp only [htype, Join.type, Join.room]
      refine ⟨hjoin.2, ?_⟩
      rw [hjoin.1]
      refine (asks_if_named (fun hb => (hn.2 hb).resolve_right fun h => by cases h) _).imp_right ?_
      intro hout
      refine ⟨_, hout, ⟨_, halike, ?_⟩, .inr rfl⟩
      rw [husers]
    | joinRoom gameID rejoin cacheSliceIndex expectedUsers =>
      have hjoin := opJoinRoom_joining h ok c.mRoomName c.mLastJoinWasRejoin
        c.mLastCacheSliceIndex (MutableRoom.ofName gameID Parallel.empty expectedUsers).mExpectedUsers
      simp only [htype, Join.type, Join.room]
      refine ⟨hjoin.2, ?_⟩
      rw [hjoin.1]
      refine (asks_if_named (fun hb => (hn.2 hb).resolve_right fun h => by cases h) _).imp_right ?_
      intro hout
      refine ⟨_, hout, ?_, .inr rfl⟩
      show _ = Request.joinRoom c.mRoomName none rejoin cacheSliceIndex expectedUsers
      rw [hargs.1, hargs.2]
      rfl
    | joinRandomRoom filter expectedUsers =>
      have hjoin := opJoinRoom_joining h ok c.mRoomName false 0
        (MutableRoom.ofName [] (stripToCustomProperties filter.customRoomProperties)
          expectedUsers).mExpectedUsers
      simp only [htype, Join.type, Join.room]
      refine ⟨hjoin.2, ?_⟩
      rw [hjoin.1]
      refine (asks_if_named (fun hb => (hn.2 hb).resolve_right fun h => by cases h) _).imp_right ?_
      intro hout
      refine ⟨_, hout, ?_, .inr rfl⟩
      rw [expectedUsers_ofName]
      rfl

theorem goes_joining {b : Bool} (ok : Bool) {c c' : Client} {outs : List Out} {entry : Entry}
    {name : Option JString} {r : OperationResponse} {t : Bool} (h : c.mState = .joining)
    (hr : entry.Remembers c) (hn : entry.Named b c name)
    (hcode : c.mCachedErrorCodeFromGameServer = ErrorCode.OK) (hstays : c.Stays c')
    (hop : r.operationCode = .authenticate) (hok : r.returnCode = 0)
    (houts : outs = [] ∧ b = false ∨ ∃ request, outs = [.peer (.request request)]
      ∧ entry.Asks name request
      ∧ (request.awaited = [.response .createRoom] ∨ request.awaited = [.response .joinRoom])) :
    Goes (b && ok) (.entering entry name) ⟨.connected, [.response .authenticate], t⟩ (.response r)
      ok (c', outs) := by
  have hplaced := hn.placed
  have hat : ∀ l, Asked (b && ok) l [.response .createRoom, .response .joinRoom]
      → At (b && ok) (.entering entry name) c' ⟨.connected, l, t⟩ := fun l hl =>
    .joining (hstays.state.trans h) (hstays.joinType.trans hr.type_eq) (hstays.room hr.room_ne)
      hplaced (hstays.code.trans hcode) hl t
  have htell : Phase.Tells (.entering entry name) (.response r) [] (.entering entry name) :=
    .silent (failure_ok hok)
  obtain ⟨rfl, hb⟩ | ⟨request, rfl, hasks, hawait⟩ := houts
  · refine ⟨_, htell, asks_nil _, ?_⟩
    rw [hear_response r hop]
    exact hat _ (.inr ⟨by rw [hb, Bool.false_and], rfl⟩)
  · refine ⟨_, htell, ?_, ?_⟩
    · intro request' hmem
      have heq : request' = request := by
        unfold Seen.requests Out.entering at hmem
        rw [List.filterMap_cons] at hmem
        by_cases henters : request.enters = true
        · simpa [henters] using hmem
        · simp [henters] at hmem
      rw [heq]
      exact hasks
    · rw [hear_response r hop, takeAll_cons, take_request]
      obtain hawait | hawait := hawait
      · rw [hawait]
        exact hat _ (asked_request b ok List.mem_cons_self)
      · rw [hawait]
        exact hat _ (asked_request b ok (List.mem_cons_of_mem _ List.mem_cons_self))

/-- The client when it has arrived on the game server. -/
def Client.arrived (c : Client) : Client :=
  { c with
    mState := .joining
    mCachedErrorCodeFromGameServer := ErrorCode.OK
    mCachedErrorStringFromGameServer := [] }

theorem arrival_gameserver {c : Client} {room : MutableRoom} (ok : Bool)
    (h : c.mState = .connectedToGameserver) (hroom : c.mpCurrentlyJoinedRoom = some room) :
    c.onArrivalAndAuthentication ok = c.arrived.joinOnGameServer ok room := by
  unfold Client.onArrivalAndAuthentication Client.arrived
  rw [if_neg (by rw [h]; exact fun h => by rcases h with h | h <;> cases h), if_pos h]
  simp only [hroom]

/-- `onGameserver`: the answer to `AUTHENTICATE`. -/
theorem goes_authenticate_gameserver {b ok : Bool} {c : Client} {entry : Entry}
    {name : Option JString} {r : OperationResponse} {t : Bool}
    (h : c.mState = .connectedToGameserver) (hr : entry.Remembers c) (hn : entry.Named b c name)
    (hop : r.operationCode = .authenticate) :
    Goes (b && ok) (.entering entry name) ⟨.connected, [.response .authenticate], t⟩ (.response r)
      ok (c.onAuthenticate ok r) := by
  unfold Client.onAuthenticate
  by_cases hcode : r.returnCode = 0
  · rw [if_neg (not_not_intro hcode), if_neg (by rw [h]; exact fun h => by cases h)]
    obtain ⟨room, hroom⟩ := Option.ne_none_iff_exists'.1 hr.room_ne
    rw [arrival_gameserver ok h hroom]
    have hr' : entry.Remembers c.arrived := hr.of_eq rfl rfl rfl rfl
    have hn' : entry.Named b c.arrived name := hn.of_eq rfl
    obtain ⟨hstays, houts⟩ := joinOnGameServer_asks ok rfl hr' hroom hn'
    exact goes_joining ok rfl hr' hn' rfl hstays hop hcode houts
  · rw [if_pos hcode]
    exact goes_flowError_gameserver ok (hear_response r hop t)
      (failure_response hcode (.inl hop)) hcode hn.placed hr.type_eq (.inl h)

/-- `joining`: the answer of the game server. -/
theorem goes_entered {b : Bool} (ok : Bool) {c : Client} {entry : Entry} {name : Option JString}
    {r : OperationResponse} {x : OperationCode} {t : Bool} (h : c.mState = .joining)
    (htype : c.mLastJoinType = some entry.type) (hroom : c.mpCurrentlyJoinedRoom ≠ none)
    (hplaced : entry.Placed name) (hcode : c.mCachedErrorCodeFromGameServer = ErrorCode.OK)
    (hx : x = .createRoom ∨ x = .joinRoom) (hop : r.operationCode = x) :
    Goes b (.entering entry name) ⟨.connected, [.response x], t⟩ (.response r) ok
      (c.onOperation ok r) := by
  have hgs : c.getIsOnGameServer = true := (joining_facts h).2.1
  have honop : c.onOperation ok r = c.onEnterOnGameServer r := by
    unfold Client.onOperation
    obtain rfl | rfl := hx
    · simp only [hop, Client.onCreateRoom, hgs, if_true]
    · simp only [hop, Client.onJoinRoom, hgs, if_true]
  rw [honop]
  unfold Client.onEnterOnGameServer
  by_cases hret : r.returnCode = 0
  · rw [if_neg (not_not_intro hret)]
    obtain ⟨room, hsome⟩ := Option.ne_none_iff_exists'.1 hroom
    simp only [hsome, htype, hret]
    refine ⟨.inRoom, .entered hplaced (by rwa [hop]) hret, asks_nil _, ?_⟩
    rw [hear_response r hop]
    refine .inRoom rfl (Option.some_ne_none _) ?_ _
    exact hcode
  · rw [if_pos hret]
    refine goes_flowError_gameserver ok (hear_response r hop t) (failure_response hret ?_) hret
      hplaced htype (.inr h)
    obtain rfl | rfl := hx
    · exact .inr (.inl hop)
    · exact .inr (.inr (.inl hop))

theorem goes_leave {b : Bool} (ok : Bool) {c : Client} {r : OperationResponse} {t : Bool}
    (hroom : c.mpCurrentlyJoinedRoom ≠ none)
    (hcode : c.mCachedErrorCodeFromGameServer = ErrorCode.OK) (hop : r.operationCode = .leave) :
    Goes b .leaving ⟨.connected, [.response .leave], t⟩ (.response r) ok c.onLeave := by
  unfold Client.onLeave
  obtain ⟨room, hsome⟩ := Option.ne_none_iff_exists'.1 hroom
  simp only [hsome]
  refine ⟨.leaving, .silent (failure_leave hop), asks_nil _, ?_⟩
  rw [hear_response r hop]
  refine .offGameserver ?_ rfl _
  exact hcode

end LoadBalancing
