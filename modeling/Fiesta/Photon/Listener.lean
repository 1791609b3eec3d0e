import Fiesta.Photon.Roster
import Fiesta.Session.Model

/-!
# What the listener of a client is told of its room

* `heardMaster`, `master_told`     **the listener follows the master client**;
* `heardPlayers`, `players_told`   **it follows who is in the room**;
* `GameRoom.lb`, `packets_tell`    **the numbers alone are kept by the packets alone**.
-/

namespace Photon

open Common

/-! ## the master client -/

/-- A listener that follows the master client from `m` on: `none` if it is told of a change from
another one, or of a change to the same one. -/
def heardMaster : Int → List RoomCallback → Option Int
  | m, [] => some m
  | m, .onMasterClientChanged id oldID :: l =>
    if oldID = m ∧ id ≠ m then heardMaster id l else none
  | m, .joinRoomEventAction _ _ _ :: l => heardMaster m l
  | m, .leaveRoomEventAction _ _ :: l => heardMaster m l
  | m, .onPlayerPropertiesChange _ _ :: l => heardMaster m l
  | m, .onRoomPropertiesChange _ :: l => heardMaster m l

theorem heardMaster_append (m : Int) (l l' : List RoomCallback) :
    heardMaster m (l ++ l') = (heardMaster m l).bind fun m' => heardMaster m' l' := by
  induction l generalizing m with
  | nil => rfl
  | cons callback l ih =>
    cases callback with
    | onMasterClientChanged id oldID =>
      simp only [List.cons_append, heardMaster]
      split
      · exact ih id
      · rfl
    | _ => exact ih m

/-- One change is told, or none when nothing changes. -/
theorem heardMaster_change (id oldID : Int) :
    heardMaster oldID (if id ≠ oldID then [.onMasterClientChanged id oldID] else []) = some id := by
  by_cases h : id = oldID
  · rw [if_neg (not_not_intro h), h]
    rfl
  · rw [if_pos h]
    exact if_pos ⟨rfl, h⟩

theorem heardMaster_cacheRoom (g : GameRoom) (properties : Properties) :
    heardMaster g.room.mMasterClientID (g.cacheRoom properties).2
      = some (g.cacheRoom properties).1.room.mMasterClientID := heardMaster_change _ _

theorem heardMaster_setMasterClientID (g : GameRoom) (id : Int) :
    heardMaster g.room.mMasterClientID (g.setMasterClientID id).2
      = some (g.setMasterClientID id).1.room.mMasterClientID := by
  rw [(setMasterClientID_fst g id).2.2]
  unfold GameRoom.setMasterClientID
  by_cases h : g.room.mMasterClientID = id
  · rw [if_neg (not_not_intro h), h]
    rfl
  · rw [if_pos h]
    exact if_pos ⟨rfl, Ne.symm h⟩

theorem heardMaster_onMasterClientID (g : GameRoom) (masterClientID : Option Int) :
    heardMaster g.room.mMasterClientID (g.onMasterClientID masterClientID).2
      = some (g.onMasterClientID masterClientID).1.room.mMasterClientID := by
  cases masterClientID with
  | none => rfl
  | some newMaster =>
    unfold GameRoom.onMasterClientID
    simp only
    split
    · exact heardMaster_setMasterClientID g newMaster
    · rfl

/-- The step lemma. -/
theorem heardMaster_onEvent (g : GameRoom) (e : RoomEvent) :
    heardMaster g.room.mMasterClientID (g.onEvent e).2
      = some (g.onEvent e).1.room.mMasterClientID := by
  cases e with
  | join nr properties playerList =>
    simp only [GameRoom.onEvent, heardMaster]
    split <;> rfl
  | leave nr isInactive masterClientID =>
    simp only [GameRoom.onEvent]
    rw [heardMaster_append]
    have hmaster := heardMaster_onMasterClientID
      { g with
        mPlayers := if isInactive then g.mPlayers.setIsInactive nr true else g.mPlayers.remove nr }
      masterClientID
    exact congrArg (Option.bind · fun m => heardMaster m [.leaveRoomEventAction nr isInactive])
      hmaster
  | propertiesChanged target properties =>
    simp only [GameRoom.onEvent]
    split
    · rfl
    · rw [heardMaster_append]
      split
      · rw [heardMaster_cacheRoom]
        rfl
      · rfl

theorem heardMaster_run (g : GameRoom) (es : List RoomEvent) :
    heardMaster g.room.mMasterClientID
        ((Contract.trace GameRoom.onEvent g es).flatMap fun x => x.2)
      = some (Contract.final GameRoom.onEvent g es).room.mMasterClientID := by
  induction es generalizing g with
  | nil => rfl
  | cons e es ih =>
    show heardMaster _ ((g.onEvent e).2 ++ _) = _
    rw [heardMaster_append, heardMaster_onEvent]
    exact ih _

/-- **The listener follows the master client**: from the room that the client starts with, through
the answer and every event, each change that it is told starts where the last one ended, and the last
one ends at the master client. -/
theorem master_told (room : MutableRoom) (localProperties : Properties) (r : JoinResponse)
    (es : List RoomEvent) :
    let g := GameRoom.onJoined room localProperties r
    heardMaster room.mMasterClientID
        (g.2 ++ (Contract.trace GameRoom.onEvent g.1 es).flatMap fun x => x.2)
      = some (Contract.final GameRoom.onEvent g.1 es).room.mMasterClientID := by
  intro g
  have hjoined : heardMaster room.mMasterClientID g.2 = some g.1.room.mMasterClientID := by
    show heardMaster _ (if _ then _ else _ : GameRoom × List RoomCallback).2
      = some (if _ then _ else _ : GameRoom × List RoomCallback).1.room.mMasterClientID
    split
    · exact heardMaster_change _ _
    · rfl
  rw [heardMaster_append, hjoined]
  exact heardMaster_run g.1 es

/-! ## the players -/

/-- A listener that keeps who is in the room, from `present` on: `none` if the player of a
`joinRoomEventAction` is the null pointer, or another player. -/
def heardPlayers : Set Int → List RoomCallback → Option (Set Int)
  | present, [] => some present
  | present, .joinRoomEventAction nr _ (some player) :: l =>
    if player.mNumber = nr then heardPlayers (insert nr present) l else none
  | _, .joinRoomEventAction _ _ none :: _ => none
  | present, .leaveRoomEventAction nr isInactive :: l =>
    heardPlayers (if isInactive then present else present \ {nr}) l
  | present, .onMasterClientChanged _ _ :: l => heardPlayers present l
  | present, .onPlayerPropertiesChange _ _ :: l => heardPlayers present l
  | present, .onRoomPropertiesChange _ :: l => heardPlayers present l

theorem heardPlayers_append (present : Set Int) (l l' : List RoomCallback) :
    heardPlayers present (l ++ l')
      = (heardPlayers present l).bind fun present' => heardPlayers present' l' := by
  induction l generalizing present with
  | nil => rfl
  | cons callback l ih =>
    cases callback with
    | joinRoomEventAction nr playernrs player =>
      cases player with
      | none => rfl
      | some player =>
        simp only [List.cons_append, heardPlayers]
        split
        · exact ih _
        · rfl
    | leaveRoomEventAction nr isInactive => exact ih _
    | _ => exact ih present

namespace GameRoom

def present (g : GameRoom) : Set Int := { nr | nr ∈ g.mPlayers.numbers }

/-- The local player is in the room, and no number is there twice. -/
structure Sound (g : GameRoom) : Prop where
  own : g.mLocalPlayerNumber ∈ g.mPlayers.numbers
  numbers : g.mPlayers.numbers.Nodup

end GameRoom

theorem mem_onEnterRemote {players : List Int} {nr number : Int} :
    nr ∈ onEnterRemote players number ↔ nr = number ∨ nr ∈ players := by
  unfold onEnterRemote
  split
  · rename_i hmem
    refine ⟨Or.inr, fun h => ?_⟩
    obtain h | h := h
    · exact h ▸ hmem
    · exact h
  · rw [List.mem_append, List.mem_singleton, or_comm]

/-- The number that a player is found by is its own. -/
theorem getPlayerForNumber_eq {players : Players} {nr : Int} (h : nr ∈ players.numbers) :
    ∃ player, players.getPlayerForNumber nr = some player ∧ player.mNumber = nr := by
  obtain ⟨player, hplayer⟩ := Option.isSome_iff_exists.1
    ((Players.isSome_getPlayerForNumber players nr).2 h)
  refine ⟨player, hplayer, ?_⟩
  have hfound := List.find?_some (p := fun player : Player => decide (player.mNumber = nr)) hplayer
  exact of_decide_eq_true hfound

theorem heardPlayers_join {g : GameRoom} {nr : Int} (h : nr ∈ g.mPlayers.numbers)
    (present : Set Int) (playernrs : List Int) :
    heardPlayers present [.joinRoomEventAction nr playernrs (g.mPlayers.getPlayerForNumber nr)]
      = some (insert nr present) := by
  obtain ⟨player, hplayer, hnumber⟩ := getPlayerForNumber_eq h
  rw [hplayer]
  exact if_pos hnumber

/-- A change of the master client is no news of the players. -/
theorem heardPlayers_setMasterClientID (g : GameRoom) (id : Int) (present : Set Int) :
    heardPlayers present (g.setMasterClientID id).2 = some present := by
  unfold GameRoom.setMasterClientID
  split <;> rfl

theorem heardPlayers_cacheRoom (g : GameRoom) (properties : Properties) (present : Set Int) :
    heardPlayers present (g.cacheRoom properties).2 = some present := by
  unfold GameRoom.cacheRoom
  simp only
  split <;> rfl

theorem heardPlayers_onMasterClientID (g : GameRoom) (masterClientID : Option Int)
    (present : Set Int) :
    heardPlayers present (g.onMasterClientID masterClientID).2 = some present := by
  cases masterClientID with
  | none => rfl
  | some newMaster =>
    unfold GameRoom.onMasterClientID
    simp only
    split
    · exact heardPlayers_setMasterClientID g newMaster present
    · rfl

/-! ## the packets -/

/-- Of the room what the list of numbers needs. -/
def GameRoom.lb (g : GameRoom) : LBClient := ⟨g.mLocalPlayerNumber, true, g.mPlayers.numbers⟩

/-- Properties are no packet, nor is a player that stays as inactive. -/
def RoomEvent.packet : RoomEvent → Option Packet
  | .join nr _ _ => some (.join nr)
  | .leave nr isInactive _ => if isInactive then none else some (.leave nr)
  | .propertiesChanged _ _ => none

theorem lb_of_eq {g g' : GameRoom} (hplayers : g'.mPlayers.numbers = g.mPlayers.numbers)
    (hown : g'.mLocalPlayerNumber = g.mLocalPlayerNumber) : g'.lb = g.lb := by
  unfold GameRoom.lb
  rw [hplayers, hown]

theorem lb_join (g : GameRoom) (nr : Int) (properties : Properties) (playerList : List Int) :
    (g.onEvent (.join nr properties playerList)).1.lb = g.lb.onJoin nr := by
  show GameRoom.lb (if _ then _ else _) = if _ then _ else _
  by_cases hown : nr = g.mLocalPlayerNumber
  · rw [if_neg (not_not_intro hown)]
    exact (if_neg (not_not_intro hown)).symm
  · rw [if_pos hown, if_pos (show nr ≠ g.lb.localNr from hown)]
    exact congrArg (LBClient.mk _ true) (Players.numbers_enter g.mPlayers nr properties)

theorem lb_leave (g : GameRoom) (nr : Int) (isInactive : Bool) (masterClientID : Option Int) :
    (g.onEvent (.leave nr isInactive masterClientID)).1.lb
      = if isInactive then g.lb else g.lb.onLeave nr := by
  obtain ⟨hplayers, hown, -⟩ := onMasterClientID_fst
    { g with
      mPlayers := if isInactive then g.mPlayers.setIsInactive nr true else g.mPlayers.remove nr }
    masterClientID
  refine (lb_of_eq (congrArg Players.numbers hplayers) hown).trans ?_
  cases isInactive with
  | true => exact lb_of_eq (Players.numbers_setIsInactive g.mPlayers nr true) rfl
  | false => exact congrArg (LBClient.mk _ true) (Players.numbers_remove nr g.mPlayers)

theorem lb_propertiesChanged (g : GameRoom) (target : Int) (properties : Properties) :
    (g.onEvent (.propertiesChanged target properties)).1.lb = g.lb := by
  simp only [GameRoom.onEvent]
  split
  · refine lb_of_eq ?_ rfl
    show Players.numbers (if _ then _ else _) = _
    split
    · exact Players.numbers_onUpdate g.mPlayers target properties
    · rfl
  · split <;> rfl

/-- The step lemma. -/
theorem lb_onEvent (g : GameRoom) (e : RoomEvent) :
    (g.onEvent e).1.lb = e.packet.elim g.lb (Game.see g.lb) := by
  cases e with
  | join nr properties playerList => exact lb_join g nr properties playerList
  | leave nr isInactive masterClientID =>
    rw [lb_leave]
    cases isInactive <;> rfl
  | propertiesChanged target properties => exact lb_propertiesChanged g target properties

theorem lb_run (g : GameRoom) (es : List RoomEvent) :
    (Contract.final GameRoom.onEvent g es).lb
      = Runs.run Game.see g.lb (es.filterMap RoomEvent.packet) := by
  induction es generalizing g with
  | nil => rfl
  | cons e es ih =>
    show (Contract.final GameRoom.onEvent (g.onEvent e).1 es).lb = _
    rw [ih, lb_onEvent, List.filterMap_cons]
    cases e.packet <;> rfl

theorem numbers_enterAll (l : List Int) (players : Players) :
    (l.foldl (fun players nr => Players.enter players nr Parallel.empty) players).numbers
      = l.foldl onEnterRemote players.numbers := by
  induction l generalizing players with
  | nil => rfl
  | cons nr l ih => rw [List.foldl_cons, ih, Players.numbers_enter, List.foldl_cons]

theorem numbers_readout (l : List (Int × Properties)) (players : Players) :
    (l.foldl (fun players e => Players.onUpdate players e.1 e.2) players).numbers
      = players.numbers := by
  induction l generalizing players with
  | nil => rfl
  | cons e l ih => rw [List.foldl_cons, ih, Players.numbers_onUpdate]

theorem lb_onJoined (room : MutableRoom) (localProperties : Properties) (r : JoinResponse)
    (lb : LBClient) :
    (GameRoom.onJoined room localProperties r).1.lb = Game.see lb (.joined r.playerNr r.playerList) := by
  have hcached : ∀ g : GameRoom, ∀ c : GameRoom × List RoomCallback,
      c = (if r.roomProperties.getSize ≠ 0 then g.cacheRoom r.roomProperties else (g, [])) →
      c.1.mPlayers = g.mPlayers ∧ c.1.mLocalPlayerNumber = g.mLocalPlayerNumber := by
    intro g c hc
    rw [hc]
    split <;> exact ⟨rfl, rfl⟩
  obtain ⟨hplayers, hown⟩ := hcached _ _ rfl
  unfold GameRoom.lb
  show LBClient.mk _ true (Players.numbers (List.foldl _ _ _)) = _
  rw [numbers_readout, hplayers]
  show LBClient.mk _ true (Players.numbers (List.foldl _ _ _)) = _
  rw [numbers_enterAll]
  exact congrArg (LBClient.mk · true _) hown

/-- **The numbers alone are kept by the packets alone**: of a client that is let in and of every
event after that, the local number and the list of numbers are what the model that keeps nothing
else of the room makes of the packets. -/
theorem packets_tell (room : MutableRoom) (localProperties : Properties) (r : JoinResponse)
    (es : List RoomEvent) (lb : LBClient) :
    (Contract.final GameRoom.onEvent (GameRoom.onJoined room localProperties r).1 es).lb
      = Runs.run Game.see lb (.joined r.playerNr r.playerList :: es.filterMap RoomEvent.packet) := by
  rw [Runs.run_cons, ← lb_onJoined room localProperties r lb]
  exact lb_run _ es

/-! ## the listener in the room -/

theorem mem_onJoin {lb : LBClient} (hown : lb.localNr ∈ lb.players) (nr : Int) :
    { n | n ∈ (lb.onJoin nr).players } = insert nr { n | n ∈ lb.players } := by
  unfold LBClient.onJoin
  split
  · exact Set.ext fun n => mem_onEnterRemote
  · rename_i hnr
    apply (Set.insert_eq_of_mem ?_).symm
    exact not_not.1 hnr ▸ hown

/-- What the listener is told of an event is what the event does, and the room stays sound. -/
def Told (g : GameRoom) (e : RoomEvent) : Prop :=
  (g.onEvent e).1.Sound ∧ heardPlayers g.present (g.onEvent e).2 = some (g.onEvent e).1.present

/-- What the numbers of the room are after an event. -/
theorem numbers_onEvent (g : GameRoom) (e : RoomEvent) :
    (g.onEvent e).1.mPlayers.numbers = (e.packet.elim g.lb (Game.see g.lb)).players :=
  congrArg LBClient.players (lb_onEvent g e)

/-- Nobody comes or goes, and the listener is told so. -/
theorem told_of_same {g : GameRoom} (h : g.Sound) {e : RoomEvent}
    (hsame : (g.onEvent e).1.mPlayers.numbers = g.mPlayers.numbers)
    (hheard : heardPlayers g.present (g.onEvent e).2 = some g.present) : Told g e := by
  refine ⟨⟨?_, ?_⟩, ?_⟩
  · rw [own_onEvent, hsame]
    exact h.own
  · rw [hsame]
    exact h.numbers
  · rw [hheard]
    show some { n | n ∈ g.mPlayers.numbers } = some { n | n ∈ (g.onEvent e).1.mPlayers.numbers }
    rw [hsame]

theorem told_join {g : GameRoom} (h : g.Sound) (nr : Int) (properties : Properties)
    (playerList : List Int) : Told g (.join nr properties playerList) := by
  have hnumbers := numbers_onEvent g (.join nr properties playerList)
  have hpresent : (g.onEvent (.join nr properties playerList)).1.present = insert nr g.present := by
    show { n | n ∈ (g.onEvent (.join nr properties playerList)).1.mPlayers.numbers } = _
    rw [hnumbers]
    exact mem_onJoin h.own nr
  refine ⟨⟨?_, ?_⟩, ?_⟩
  · rw [own_onEvent]
    show _ ∈ (g.onEvent (.join nr properties playerList)).1.present
    rw [hpresent]
    exact Set.mem_insert_of_mem nr h.own
  · rw [hnumbers]
    show List.Nodup (LBClient.players (if _ then _ else _))
    split
    · exact nodup_onEnterRemote h.numbers nr
    · exact h.numbers
  · have hmem : nr ∈ (g.onEvent (.join nr properties playerList)).1.mPlayers.numbers := by
      show nr ∈ (g.onEvent (.join nr properties playerList)).1.present
      rw [hpresent]
      exact Set.mem_insert nr _
    rw [hpresent]
    exact heardPlayers_join hmem g.present playerList

theorem heardPlayers_leave (g : GameRoom) (nr : Int) (isInactive : Bool)
    (masterClientID : Option Int) (present : Set Int) :
    heardPlayers present (g.onEvent (.leave nr isInactive masterClientID)).2
      = some (if isInactive then present else present \ {nr}) := by
  simp only [GameRoom.onEvent]
  rw [heardPlayers_append, heardPlayers_onMasterClientID]
  rfl

/-- The local player is not told that it has gone. -/
theorem told_leave {g : GameRoom} (h : g.Sound) {nr : Int} {isInactive : Bool}
    (hstays : isInactive = false → nr ≠ g.mLocalPlayerNumber) (masterClientID : Option Int) :
    Told g (.leave nr isInactive masterClientID) := by
  have hnumbers := numbers_onEvent g (.leave nr isInactive masterClientID)
  cases isInactive with
  | true => exact told_of_same h hnumbers (heardPlayers_leave g nr true masterClientID g.present)
  | false =>
    have hrest : (g.onEvent (.leave nr false masterClientID)).1.mPlayers.numbers
        = g.mPlayers.numbers.erase nr := hnumbers.trans (removePlayer_eq_erase nr h.numbers)
    refine ⟨⟨?_, ?_⟩, ?_⟩
    · rw [own_onEvent, hrest]
      exact (List.mem_erase_of_ne (hstays rfl).symm).2 h.own
    · rw [hrest]
      exact h.numbers.erase nr
    · rw [heardPlayers_leave]
      show some (g.present \ {nr}) = some { n | n ∈ (g.onEvent _).1.mPlayers.numbers }
      rw [hrest]
      refine congrArg some (Set.ext fun n => ?_)
      show n ∈ g.mPlayers.numbers ∧ n ≠ nr ↔ n ∈ g.mPlayers.numbers.erase nr
      rw [h.numbers.mem_erase_iff, and_comm]

theorem told_propertiesChanged {g : GameRoom} (h : g.Sound) (target : Int)
    (properties : Properties) : Told g (.propertiesChanged target properties) := by
  apply told_of_same h (numbers_onEvent g (.propertiesChanged target properties))
  simp only [GameRoom.onEvent]
  split
  · rfl
  · rw [heardPlayers_append]
    split
    · rw [heardPlayers_cacheRoom]
      rfl
    · rfl

/-- The step lemma. -/
theorem told_onEvent {g : GameRoom} (h : g.Sound) {e : RoomEvent}
    (hstays : ∀ masterClientID, e ≠ .leave g.mLocalPlayerNumber false masterClientID) :
    Told g e := by
  cases e with
  | join nr properties playerList => exact told_join h nr properties playerList
  | leave nr isInactive masterClientID =>
    apply told_leave h
    intro hgone hown
    exact hstays masterClientID (by rw [hgone, hown])
  | propertiesChanged target properties => exact told_propertiesChanged h target properties

/-- The run lemma. -/
theorem told_run {g : GameRoom} (h : g.Sound) (es : List RoomEvent)
    (hstays : ∀ masterClientID, .leave g.mLocalPlayerNumber false masterClientID ∉ es) :
    (Contract.final GameRoom.onEvent g es).Sound
      ∧ heardPlayers g.present ((Contract.trace GameRoom.onEvent g es).flatMap fun x => x.2)
        = some (Contract.final GameRoom.onEvent g es).present := by
  induction es generalizing g with
  | nil => exact ⟨h, rfl⟩
  | cons e es ih =>
    obtain ⟨hsound, hheard⟩ := told_onEvent h fun masterClientID heq =>
      hstays masterClientID (heq ▸ List.mem_cons_self)
    obtain ⟨hfinal, hrest⟩ := ih hsound fun masterClientID hmem =>
      hstays masterClientID (List.mem_cons_of_mem e (own_onEvent g e ▸ hmem))
    refine ⟨hfinal, ?_⟩
    show heardPlayers g.present ((g.onEvent e).2 ++ _) = _
    rw [heardPlayers_append, hheard]
    exact hrest

theorem sound_onJoined (room : MutableRoom) (localProperties : Properties) (r : JoinResponse) :
    (GameRoom.onJoined room localProperties r).1.Sound := by
  have hlb := lb_onJoined room localProperties r LBClient.new
  have hnumbers : (GameRoom.onJoined room localProperties r).1.mPlayers.numbers
      = (r.playerList.filter (· ≠ r.playerNr)).foldl onEnterRemote [r.playerNr] :=
    congrArg LBClient.players hlb
  have hown : (GameRoom.onJoined room localProperties r).1.mLocalPlayerNumber = r.playerNr :=
    congrArg LBClient.localNr hlb
  have hkept (l : List Int) (players : List Int) :
      r.playerNr ∈ players ∧ players.Nodup →
        r.playerNr ∈ l.foldl onEnterRemote players ∧ (l.foldl onEnterRemote players).Nodup := by
    induction l generalizing players with
    | nil => exact id
    | cons nr l ih =>
      intro h
      exact ih _ ⟨mem_onEnterRemote.2 (.inr h.1), nodup_onEnterRemote h.2 nr⟩
  obtain ⟨hmem, hnodup⟩ := hkept (r.playerList.filter (· ≠ r.playerNr)) [r.playerNr]
    ⟨List.mem_singleton_self _, List.nodup_singleton _⟩
  refine ⟨?_, ?_⟩
  · rw [hown, hnumbers]
    exact hmem
  · rw [hnumbers]
    exact hnodup

/-- **The listener follows who is in the room**: as long as no event says that the local player
itself has gone, the player of every `joinRoomEventAction` is there and is the one named, the local
player stays in the room, and a listener that keeps the players by what it is told has those that
the client has. -/
theorem players_told (room : MutableRoom) (localProperties : Properties) (r : JoinResponse)
    (es : List RoomEvent)
    (hstays : ∀ masterClientID, .leave r.playerNr false masterClientID ∉ es) :
    let g := (GameRoom.onJoined room localProperties r).1
    (Contract.final GameRoom.onEvent g es).Sound
      ∧ heardPlayers g.present ((Contract.trace GameRoom.onEvent g es).flatMap fun x => x.2)
        = some (Contract.final GameRoom.onEvent g es).present := by
  intro g
  have hown : g.mLocalPlayerNumber = r.playerNr :=
    congrArg LBClient.localNr (lb_onJoined room localProperties r LBClient.new)
  apply told_run (sound_onJoined room localProperties r)
  intro masterClientID
  rw [hown]
  exact hstays masterClientID

/-- Player 2 comes to player 1, is away for a while, and goes. -/
theorem players_told_visit :
    let es : List RoomEvent := [.join 2 Parallel.empty [1, 2], .leave 2 true (some 1),
      .join 2 Parallel.empty [1, 2], .leave 2 false none]
    let g := (GameRoom.onJoined (MutableRoom.ofName ['r'] Parallel.empty []) Parallel.empty
      ⟨1, Parallel.empty, Parallel.empty, [1]⟩).1
    (Contract.final GameRoom.onEvent g es).Sound
      ∧ heardPlayers g.present ((Contract.trace GameRoom.onEvent g es).flatMap fun x => x.2)
        = some (Contract.final GameRoom.onEvent g es).present := by
  apply players_told
  intro masterClientID hmem
  simp at hmem

end Photon
