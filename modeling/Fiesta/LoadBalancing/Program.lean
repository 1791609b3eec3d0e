import Fiesta.LoadBalancing.Progress

/-!
# The program and its client

`Begin` connects, `Tick` dispatches what has arrived, and the listener asks for the room when the
client is on the master.  The listener looks at no error, and the loop asks for nothing again.

* `Happening`, `program`   what the two programs do to their client, from `Begin` on;
* `keeps_protocol`         **whatever happens, the program follows the protocol of the client**, and
                           no room but its own is asked for;
* `stays_out`              **a program that has lost its connection never comes back**.
-/

namespace LoadBalancing

open Photon

namespace Program

/-! ## the program -/

def M_NAMESERVER : JString := "ns.photonengine.io".toList

/-- `ConnectOptions{}` -/
def connectOptions : Client.ConnectOptions := ⟨M_NAMESERVER, .nameServer, []⟩

/-- `RoomOptions()` -/
def roomOptions : RoomOptions where
  isVisible := true
  isOpen := true
  maxPlayers := 0
  customRoomProperties := Parallel.empty
  propsListedInLobby := []
  lobbyName := []
  lobbyType := LobbyType.DEFAULT
  playerTtl := 0
  emptyRoomTtl := 0
  suppressRoomEvents := false
  plugins := none
  publishUserID := false
  directMode := DirectMode.NONE

def testRoom : JString := "test-room".toList

/-- `opJoinOrCreateRoom(L"test-room", roomOptions)` -/
def joinTestRoom : Join := .joinOrCreateRoom testRoom roomOptions 0 []

/-- What the listener asks for when it is called: `connectReturn` alone asks for anything. -/
def listener : Callback → List Join
  | .connectReturn errorCode _ _ _ => if errorCode = 0 then [joinTestRoom] else []
  | _ => []

/-- What the loop does to the client.  `ok` and `joinOk` are what the peer returns to the call of the
handler and to that of the listener; a handler calls the listener last. -/
inductive Happening where
  | dispatch (input : Input) (ok joinOk : Bool)
  | getRemotePlayerNr
  | opRaiseEvent (raised : Raised) (ok : Bool)
  | End

def eventsOf (s : System) : Happening → List Event
  | .dispatch input ok joinOk =>
    .input input ok :: ((s.step (.input input ok)).2.callbacks.flatMap listener).map
      fun j => .call (.join j) joinOk
  | .getRemotePlayerNr => [.call .getCurrentlyJoinedRoom true]
  | .opRaiseEvent raised ok => [.call (.opRaiseEvent raised) ok]
  | .End => [.call .disconnect true]

def eventsFrom : System → List Happening → List Event
  | _, [] => []
  | s, x :: xs => eventsOf s x ++ eventsFrom (Contract.final System.step s (eventsOf s x)) xs

/-- The client of a program: `ClientConstructOptions()`. -/
def start : System := .new .default false

def Begin (ok : Bool) : Event := .call (.connect connectOptions) ok

def program (ok : Bool) (xs : List Happening) : List Event :=
  Begin ok :: eventsFrom (start.step (Begin ok)).1 xs

/-! ## one event -/

/-- The phases that a program can be in. -/
def Expected : Phase → Prop
  | .entering entry name => entry = .join joinTestRoom ∧ (name = none ∨ name = some testRoom)
  | .refused entry _ _ => entry = .join joinTestRoom
  | .joiningLobby => False
  | .leavingLobby => False
  | .leaving => False
  | _ => True

/-- The calls that a program makes in a phase, once it has connected. -/
inductive Makes : Phase → Event → Prop where
  | input (p i ok) : Makes p (.input i ok)
  | join (ok) : Makes .ready (.call (.join joinTestRoom) ok)
  | getCurrentlyJoinedRoom (p ok) : Makes p (.call .getCurrentlyJoinedRoom ok)
  | opRaiseEvent (p raised ok) : Makes p (.call (.opRaiseEvent raised) ok)
  | disconnect (p ok) : Makes p (.call .disconnect ok)

/-- The phases in which a room is asked for. -/
def Asking (p : Phase) : Prop := p = .ready ∨ ∃ name, p = .entering (.join joinTestRoom) name

def ForTestRoom (request : Request) : Prop :=
  ∃ sent, roomOptions.Alike sent ∧ request = .joinRoom testRoom (some sent) false 0 []

/-- What there is to say of one event of a program. -/
structure Plays (p : Phase) (e : Event) (seen : Seen) (q : Phase) : Prop where
  next : p.Next e seen q
  makes : Makes p e
  expected : Expected p
  requests : ∀ request ∈ seen.requests, Asking p ∧ ForTestRoom request

/-- An event that the phase permits, and what follows it. -/
def NextPermitted (p : Phase) (e : Event) (seen : Seen) (q : Phase) : Prop :=
  p.PermitsEvent e ∧ p.Next e seen q

/-- A program and its client, while it runs. -/
structure Fits (b : Bool) (p : Phase) (s : System) : Prop where
  stands : Stands b p s
  expected : Expected p
  mode : s.client.M_REGION_SELECTION_MODE = .default

theorem Makes.permitted {p : Phase} {e : Event} (h : Makes p e) : p.PermitsEvent e := by
  cases h with
  | input i ok => trivial
  | join ok => exact .inl rfl
  | getCurrentlyJoinedRoom ok => trivial
  | opRaiseEvent raised ok => trivial
  | disconnect ok => trivial

theorem Fits.start (b : Bool) : Fits b .offline start := ⟨stands_new b _ _, trivial, rfl⟩

theorem alike_roomOptions : roomOptions.Alike roomOptions :=
  ⟨rfl, rfl, rfl, rfl, rfl, rfl, rfl, rfl, rfl, rfl, fun key => by cases key.isCustom <;> rfl⟩

/-- The program asks with its own options, wherever its client is. -/
theorem outs_join (c : Client) (ok : Bool) :
    (c.onCall ok (.join joinTestRoom)).2.1 = []
      ∨ (c.onCall ok (.join joinTestRoom)).2.1
        = [.peer (.request (.joinRoom testRoom (some roomOptions) false 0 []))] := by
  have hsent (c : Client) : c.optionsFor roomOptions = roomOptions := by
    unfold Client.optionsFor
    split <;> rfl
  have hlobby : Client.lobbyRefused roomOptions.lobbyName roomOptions.lobbyType = false := rfl
  have hname : testRoom.isEmpty = false := rfl
  show (c.opJoinOrCreateRoom ok testRoom roomOptions 0 []).2.1 = []
    ∨ (c.opJoinOrCreateRoom ok testRoom roomOptions 0 []).2.1 = _
  unfold Client.opJoinOrCreateRoom
  simp only [hlobby, hname, hsent, ite_self, Bool.false_eq_true, if_false]
  split
  · exact .inl rfl
  · refine .inr ?_
    split <;> rfl

/-- What the calls of a program ask for. -/
theorem requests_call {p : Phase} {c : Client} {call : Call} {ok : Bool}
    (h : Makes p (.call call ok)) (result : Bool) :
    ∀ request ∈ Seen.requests ⟨(c.onCall ok call).2.1, result⟩, Asking p ∧ ForTestRoom request := by
  have hnone {outs : List Out} (hnil : Seen.requests ⟨outs, result⟩ = []) :
      ∀ request ∈ Seen.requests ⟨outs, result⟩, Asking p ∧ ForTestRoom request := by
    rw [hnil]
    exact fun request hrequest => by cases hrequest
  cases h with
  | join =>
    obtain hout | hout := outs_join c ok
    · rw [hout]
      exact hnone rfl
    · rw [hout]
      intro request hrequest
      obtain rfl := List.mem_singleton.1 hrequest
      exact ⟨.inl rfl, roomOptions, alike_roomOptions, rfl⟩
  | getCurrentlyJoinedRoom => exact hnone rfl
  | disconnect => exact hnone rfl
  | opRaiseEvent =>
    refine hnone ?_
    show Seen.requests ⟨(c.opRaiseEvent ok _).2.1, result⟩ = []
    unfold Client.opRaiseEvent
    split <;> rfl

/-- What an input lets the client ask for. -/
theorem requests_input {p : Phase} {requests : List Request} (hp : Expected p)
    (h : p.Asks requests) : ∀ request ∈ requests, Asking p ∧ ForTestRoom request := by
  have hnone (h : requests = []) : ∀ request ∈ requests, Asking p ∧ ForTestRoom request := by
    rw [h]
    exact fun request hrequest => by cases hrequest
  cases p with
  | entering entry name =>
    obtain ⟨rfl, hname⟩ := hp
    intro request hrequest
    have hasks : (Entry.join joinTestRoom).Asks name request := h request hrequest
    obtain rfl | rfl := hname
    · exact hasks.elim
    · exact ⟨.inr ⟨_, rfl⟩, hasks⟩
  | _ => exact hnone h

/-- A program stays in the phases that it can be in. -/
theorem expected_next {p q : Phase} {e : Event} {seen : Seen} (h : p.Next e seen q)
    (hp : Expected p) (he : Makes p e) : Expected q := by
  cases h with
  | refuses hresult hcb => exact hp
  | accepts hresult hcb hacc =>
    cases he with
    | join => cases hacc; exact ⟨rfl, .inl rfl⟩
    | getCurrentlyJoinedRoom => cases hacc; exact hp
    | opRaiseEvent => cases hacc; trivial
    | disconnect => cases hacc <;> trivial
  | tells htells hasks =>
    generalize seen.callbacks = cbs at htells
    cases htells with
    | silent hi => exact hp
    | found j hop hi =>
      obtain ⟨hj, -⟩ := hp
      obtain rfl : j = joinTestRoom := Entry.join.inj hj
      exact ⟨rfl, .inr rfl⟩
    | refusedOnGameServer hplaced hi => exact hp.1
    | _ => trivial

/-- The step lemma. -/
theorem fits_step {b : Bool} {p : Phase} {s : System} {e : Event} (h : Fits b p s) (hw : s.Admits e)
    (hb : b = true → s.Serves e) (he : Makes p e) :
    ∃ q, Plays p e (s.step e).2 q ∧ Fits b q (s.step e).1 := by
  obtain ⟨q, hnext, hq⟩ := stands_step h.stands hw hb he.permitted
  have hexpected := expected_next hnext h.expected he
  cases e with
  | call call ok =>
    refine ⟨q, ⟨hnext, he, h.expected, requests_call he _⟩, hq, hexpected, ?_⟩
    exact (handled_call s.client ok call).mode.trans h.mode
  | input input ok =>
    have hasks : p.Asks (s.step (.input input ok)).2.requests := by
      cases hnext with
      | tells htells hasks => exact hasks
    refine ⟨q, ⟨hnext, he, h.expected, requests_input h.expected hasks⟩, hq, hexpected, ?_⟩
    exact (handled_input h.stands.2 hw).mode.trans h.mode

/-! ## one turn -/

/-- The listener asks for the room when the client is on the master, and only then. -/
theorem listener_asks {p q : Phase} {input : Input} {ok : Bool} {seen : Seen}
    (h : p.Next (.input input ok) seen q) :
    seen.callbacks.flatMap listener = []
      ∨ seen.callbacks.flatMap listener = [joinTestRoom] ∧ q = .ready := by
  cases h with
  | tells htells hasks =>
    generalize seen.callbacks = cbs at htells
    cases htells with
    | connected hi region cluster => exact .inr ⟨rfl, rfl⟩
    | @connectFailed p i code text hi hp =>
      refine .inl ?_
      show (if code = 0 then [joinTestRoom] else []) ++ [] = []
      rw [if_neg (failure_ne_zero hi)]
      rfl
    | _ => exact .inl rfl

theorem eventsOf_dispatch {s : System} {input : Input} {ok : Bool} {l : List Join} (joinOk : Bool)
    (h : (s.step (.input input ok)).2.callbacks.flatMap listener = l) :
    eventsOf s (.dispatch input ok joinOk)
      = .input input ok :: l.map fun j => .call (.join j) joinOk := by
  subst h
  rfl

/-- The turn lemma. -/
theorem fits_turn {b : Bool} {p : Phase} {s : System} {x : Happening} (h : Fits b p s)
    (hw : Contract.Admitted System.step System.Admits s (eventsOf s x))
    (hb : b = true → Contract.Admitted System.step System.Serves s (eventsOf s x)) :
    ∃ q, Contract.Path Plays p (Contract.trace System.step s (eventsOf s x)) q
      ∧ Fits b q (Contract.final System.step s (eventsOf s x)) := by
  cases x with
  | dispatch input ok joinOk =>
    obtain ⟨q, hplays, hq⟩ := fits_step h hw.1 (fun hb' => (hb hb').1) (.input p input ok)
    obtain hnone | ⟨hjoin, rfl⟩ := listener_asks hplays.next
    · rw [eventsOf_dispatch joinOk hnone]
      exact ⟨q, .cons hplays (.nil q), hq⟩
    · rw [eventsOf_dispatch joinOk hjoin] at hw hb ⊢
      obtain ⟨r, hplays', hr⟩ := fits_step hq hw.2.1 (fun hb' => (hb hb').2.1) (.join joinOk)
      exact ⟨r, .cons hplays (.cons hplays' (.nil r)), hr⟩
  | getRemotePlayerNr =>
    obtain ⟨q, hplays, hq⟩ :=
      fits_step h hw.1 (fun hb' => (hb hb').1) (.getCurrentlyJoinedRoom p true)
    exact ⟨q, .cons hplays (.nil q), hq⟩
  | opRaiseEvent raised ok =>
    obtain ⟨q, hplays, hq⟩ := fits_step h hw.1 (fun hb' => (hb hb').1) (.opRaiseEvent p raised ok)
    exact ⟨q, .cons hplays (.nil q), hq⟩
  | End =>
    obtain ⟨q, hplays, hq⟩ := fits_step h hw.1 (fun hb' => (hb hb').1) (.disconnect p true)
    exact ⟨q, .cons hplays (.nil q), hq⟩

/-! ## runs -/

/-- The run lemma. -/
theorem fits_run {b : Bool} {p : Phase} {s : System} {xs : List Happening} (h : Fits b p s)
    (hw : Contract.Admitted System.step System.Admits s (eventsFrom s xs))
    (hb : b = true → Contract.Admitted System.step System.Serves s (eventsFrom s xs)) :
    ∃ q, Contract.Path Plays p (Contract.trace System.step s (eventsFrom s xs)) q
      ∧ Fits b q (Contract.final System.step s (eventsFrom s xs)) := by
  induction xs generalizing p s with
  | nil => exact ⟨p, .nil p, h⟩
  | cons x xs ih =>
    unfold eventsFrom at hw hb ⊢
    obtain ⟨hx, hxs⟩ := Contract.admitted_append hw
    obtain ⟨q, hpath, hq⟩ := fits_turn h hx fun hb' => (Contract.admitted_append (hb hb')).1
    obtain ⟨r, hpath', hr⟩ := ih hq hxs fun hb' => (Contract.admitted_append (hb hb')).2
    rw [Contract.trace_append, Contract.final_append]
    exact ⟨r, Contract.path_append_iff.2 ⟨q, hpath, hpath'⟩, hr⟩

/-- What `Begin` leaves behind. -/
theorem fits_Begin (b ok : Bool) :
    ∃ q, Phase.Next .offline (Begin ok) (start.step (Begin ok)).2 q
      ∧ (ok = true → q = .connecting) ∧ Fits b q (start.step (Begin ok)).1
      ∧ (start.step (Begin ok)).2.requests = [] := by
  obtain ⟨hroom, -⟩ := hasRoom_step (s := start) (e := Begin ok) (hasRoom_new _ _) fun _ => rfl
  cases ok with
  | true =>
    refine ⟨.connecting, .accepts rfl rfl (.connect (.inl rfl) _), fun _ => rfl, ?_, rfl⟩
    exact ⟨⟨.toNameserver rfl, hroom⟩, trivial, rfl⟩
  | false =>
    refine ⟨.offline, .refuses rfl rfl, (fun h => by cases h), ?_, rfl⟩
    exact ⟨⟨.offline _ _, hroom⟩, trivial, rfl⟩

/-- What the peer brings, and takes whatever it is asked for. -/
def brings (input : Input) : Happening := .dispatch input true true

/-- A program on its way into the room, where it raises an event. -/
def evening : List Happening :=
  [brings .connect, brings .encryptionEstablished, brings (answer .getRegions []),
    brings (answer .authenticate ['m']), .getRemotePlayerNr, brings .disconnect, brings .connect,
    brings .encryptionEstablished, brings (answer .authenticate []), brings (answer .joinLobby []),
    brings (answer .joinRoom ['g']), brings .disconnect, brings .connect,
    brings .encryptionEstablished, brings (answer .authenticate []), brings (answer .joinRoom []),
    .getRemotePlayerNr, .opRaiseEvent ⟨false, .jstring ['1', ',', '1'], 2⟩ true, .End]

theorem evening_admitted : AdmitsRun .default false (program true evening) :=
  ⟨fun _ => rfl, rfl, ⟨rfl, .head _⟩, ⟨rfl, .head _⟩, ⟨rfl, .head _⟩, trivial, rfl, rfl,
    ⟨rfl, .head _⟩, ⟨rfl, .head _⟩, ⟨rfl, .head _⟩, fun _ => rfl, ⟨rfl, .head _⟩, rfl, rfl,
    ⟨rfl, .head _⟩, ⟨rfl, .head _⟩, ⟨rfl, .head _⟩, trivial, fun _ => rfl, trivial, trivial⟩

def Lost : Callback → Prop
  | .connectReturn errorCode _ _ _ => errorCode ≠ 0
  | .connectionErrorReturn _ => True
  | .disconnectReturn => True
  | _ => False

def IsOut (p : Phase) : Prop := p = .offline ∨ p = .closing

theorem lost_next {p q : Phase} {e : Event} {seen : Seen} {cb : Callback} (h : p.Next e seen q)
    (hcb : cb ∈ seen.callbacks) (hlost : Lost cb) : IsOut q := by
  cases h with
  | refuses hresult hnil =>
    rw [hnil] at hcb
    cases hcb
  | accepts hresult hnil hacc =>
    rw [hnil] at hcb
    cases hcb
  | tells htells hasks =>
    generalize seen.callbacks = cbs at htells hcb
    cases htells with
    | connectFailed hi hp => exact .inr rfl
    | broken error peerState => exact .inr rfl
    | closed => exact .inl rfl
    | connected hi region cluster =>
      obtain rfl := List.mem_singleton.1 hcb
      exact absurd rfl hlost
    | silent hi => cases hcb
    | found j hop hi => cases hcb
    | refusedOnGameServer hplaced hi => cases hcb
    | _ =>
      obtain rfl := List.mem_singleton.1 hcb
      exact hlost.elim

/-- What a program that is out can still see. -/
def Nothing (x : Event × Seen) : Prop :=
  x.2.requests = [] ∧ (∀ raised ok, x.1 = .call (.opRaiseEvent raised) ok → x.2.result = false)
    ∧ ∀ cb ∈ x.2.callbacks, cb = .disconnectReturn ∨ ∃ code, cb = .connectionErrorReturn code

theorem out_plays {p q : Phase} {e : Event} {seen : Seen} (h : Plays p e seen q) (hp : IsOut p) :
    IsOut q ∧ Nothing (e, seen) := by
  have hrequests : seen.requests = [] := by
    refine List.eq_nil_iff_forall_not_mem.2 fun request hrequest => ?_
    obtain hready | ⟨name, hentering⟩ := (h.requests request hrequest).1
    · rw [hready] at hp
      obtain hp | hp := hp <;> cases hp
    · rw [hentering] at hp
      obtain hp | hp := hp <;> cases hp
  obtain ⟨hnext, hmakes, -, -⟩ := h
  cases hnext with
  | refuses hresult hnil =>
    refine ⟨hp, hrequests, fun _ _ _ => hresult, ?_⟩
    rw [hnil]
    exact fun cb hcb => by cases hcb
  | accepts hresult hnil hacc =>
    have hcallbacks : ∀ cb ∈ seen.callbacks,
        cb = .disconnectReturn ∨ ∃ code, cb = .connectionErrorReturn code := by
      rw [hnil]
      exact fun cb hcb => by cases hcb
    cases hmakes with
    | join => obtain hp | hp := hp <;> cases hp
    | getCurrentlyJoinedRoom =>
      cases hacc
      exact ⟨hp, hrequests, (fun _ _ hcall => by cases hcall), hcallbacks⟩
    | opRaiseEvent =>
      cases hacc
      obtain hp | hp := hp <;> cases hp
    | disconnect =>
      refine ⟨?_, hrequests, (fun _ _ hcall => by cases hcall), hcallbacks⟩
      cases hacc with
      | stayOffline => exact .inl rfl
      | disconnect hne => exact .inr rfl
  | tells htells hasks =>
    have hheard : IsOut q ∧ ∀ cb ∈ seen.callbacks,
        cb = .disconnectReturn ∨ ∃ code, cb = .connectionErrorReturn code := by
      generalize seen.callbacks = cbs at htells
      cases htells with
      | silent hi => exact ⟨hp, fun cb hcb => by cases hcb⟩
      | broken error peerState => exact ⟨.inr rfl, by simp⟩
      | closed => exact ⟨.inl rfl, by simp⟩
      | connectFailed hi hback =>
        obtain rfl | rfl | ⟨entry, code, text, rfl⟩ := hback
          <;> obtain hp | hp := hp <;> cases hp
      | _ => obtain hp | hp := hp <;> cases hp
    exact ⟨hheard.1, hrequests, (fun _ _ hcall => by cases hcall), hheard.2⟩

/-- **A program that has lost its connection never comes back**: it asks for no room again, none of
its events is taken, and its listener is told of nothing but the end. -/
theorem stays_out (ok : Bool) (xs : List Happening)
    (h : AdmitsRun .default false (program ok xs)) (before after : List (Event × Seen))
    (x : Event × Seen) (hx : seenOf .default false (program ok xs) = before ++ x :: after)
    (hlost : ∃ cb ∈ x.2.callbacks, Lost cb) : ∀ y ∈ after, Nothing y := by
  obtain ⟨p, hnext, -, hp, -⟩ := fits_Begin false ok
  obtain ⟨q, hpath, -⟩ := fits_run hp h.2 fun hb => by cases hb
  obtain ⟨cb, hcb, hlost⟩ := hlost
  cases before with
  | nil =>
    obtain ⟨rfl, -⟩ := List.cons_eq_cons.1 hx
    cases ok <;> cases hcb
  | cons y before =>
    obtain ⟨-, hrest⟩ := List.cons_eq_cons.1 hx
    change Contract.trace System.step (start.step (Begin ok)).1
      (eventsFrom (start.step (Begin ok)).1 xs) = before ++ x :: after at hrest
    rw [hrest] at hpath
    obtain ⟨r, -, hafter⟩ := Contract.path_append_iff.1 hpath
    cases hafter with
    | cons hplays hafter =>
      have hout := lost_next hplays.next hcb hlost
      exact (hafter.inv (fun _ _ _ _ hplays hp => out_plays hplays hp) hout).2

/-- The connection times out while it is being opened. -/
def timeout : List Happening :=
  [brings (.connectionError .timeoutDisconnect .disconnected), .getRemotePlayerNr,
    .opRaiseEvent ⟨false, .jstring ['1', ',', '1'], 2⟩ false]

theorem timeout_admitted : AdmitsRun .default false (program true timeout) :=
  ⟨fun _ => rfl, .inr (.inl rfl), trivial, (fun h => by cases h), trivial⟩

theorem stays_out_timeout :
    (seenOf .default false (program true timeout)).length = 4
      ∧ ∀ y ∈ (seenOf .default false (program true timeout)).drop 2, Nothing y :=
  ⟨rfl, stays_out true timeout timeout_admitted
    ((seenOf .default false (program true timeout)).take 1) _
    (.input (.connectionError .timeoutDisconnect .disconnected) true,
      ⟨[.app (.connectionErrorReturn 1040)], true⟩)
    rfl ⟨_, .head _, trivial⟩⟩

end Program

end LoadBalancing
