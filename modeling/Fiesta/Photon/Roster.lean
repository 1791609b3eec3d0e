import Fiesta.Lib.Contract
import Fiesta.Photon.Players

/-!
# Who is in the room

A client that joins a room is sent its players, and from then on what changes.

* `GameRoom.onEvent`           joining, leaving, inactivity, properties, the master client;
* `GameRoom.onJoined`          the answer that lets a client in;
* `RoomState.after`            the room as the events tell it;
* `sees_after`, `sees_joined`  **a client sees that room**, itself aside;
* `members_agree`              **two clients that joined at different times agree**.
-/

namespace Photon

open Common

/-! ## the room -/

/-- Properties changed of a player, or of the room if `target` is 0. -/
inductive RoomEvent where
  | join (nr : Int) (properties : Properties) (playerList : List Int)
  | leave (nr : Int) (isInactive : Bool) (masterClientID : Option Int)
  | propertiesChanged (target : Int) (properties : Properties)

/-- `player` of `joinRoomEventAction` is what `getPlayerForNumber` has returned: no player is the
null pointer, which the call dereferences. -/
inductive RoomCallback where
  | onMasterClientChanged (id oldID : Int)
  | joinRoomEventAction (playerNr : Int) (playernrs : List Int) (player : Option Player)
  | leaveRoomEventAction (playerNr : Int) (isInactive : Bool)
  | onPlayerPropertiesChange (playerNr : Int) (changes : Properties)
  | onRoomPropertiesChange (changes : Properties)

structure JoinResponse where
  playerNr : Int
  roomProperties : Properties
  playerProperties : Hashtable Int Properties
  playerList : List Int

structure GameRoom where
  room : MutableRoom
  mPlayers : Players
  mLocalPlayerNumber : Int

namespace GameRoom

/-- `MutableRoom::setMasterClientID` -/
def setMasterClientID (g : GameRoom) (id : Int) : GameRoom × List RoomCallback :=
  if g.room.mMasterClientID ≠ id then
    ({ g with room := { g.room with mMasterClientID := id } },
      [.onMasterClientChanged id g.room.mMasterClientID])
  else (g, [])

/-- `MASTER_CLIENT_ID` of a `LEAVE` event, which may not have one. -/
def onMasterClientID (g : GameRoom) : Option Int → GameRoom × List RoomCallback
  | some newMaster => if newMaster ≠ 0 then g.setMasterClientID newMaster else (g, [])
  | none => (g, [])

/-- `RoomPropertiesCacher::cache`: of the properties only the master client is told at once. -/
def cacheRoom (g : GameRoom) (properties : Properties) : GameRoom × List RoomCallback :=
  let room := g.room.cacheProperties properties
  ({ g with room := room },
    if room.mMasterClientID ≠ g.room.mMasterClientID then
      [.onMasterClientChanged room.mMasterClientID g.room.mMasterClientID]
    else [])

/-- What the listener is told of changed properties. -/
def changes (properties : Properties) : Properties :=
  stripKeysWithNullValues (stripToCustomProperties properties)

/-- `Client::onEvent`, of the events that a room has. -/
def onEvent (g : GameRoom) : RoomEvent → GameRoom × List RoomCallback
  | .join nr properties playerList =>
    let g : GameRoom :=
      if nr ≠ g.mLocalPlayerNumber then { g with mPlayers := g.mPlayers.enter nr properties } else g
    (g, [.joinRoomEventAction nr playerList (g.mPlayers.getPlayerForNumber nr)])
  | .leave nr isInactive masterClientID =>
    let g : GameRoom := { g with
      mPlayers :=
        if isInactive then g.mPlayers.setIsInactive nr true else g.mPlayers.remove nr }
    let r := g.onMasterClientID masterClientID
    (r.1, r.2 ++ [.leaveRoomEventAction nr isInactive])
  | .propertiesChanged target properties =>
    if target ≠ 0 then
      ({ g with
          mPlayers :=
            if properties.getSize ≠ 0 then g.mPlayers.onUpdate target properties
            else g.mPlayers },
        [.onPlayerPropertiesChange target (changes properties)])
    else
      let r := if properties.getSize ≠ 0 then g.cacheRoom properties else (g, [])
      (r.1, r.2 ++ [.onRoomPropertiesChange (changes properties)])

/-- The answer of the game server to `CREATE_ROOM` or `JOIN_ROOM`, in a room without players;
`local` is what the client knows of itself. -/
def onJoined (room : MutableRoom) (localProperties : Properties) (r : JoinResponse) :
    GameRoom × List RoomCallback :=
  let players := [Player.create r.playerNr localProperties]
  let players := (r.playerList.filter (· ≠ r.playerNr)).foldl
    (fun players nr => Players.enter players nr Parallel.empty) players
  let g : GameRoom := ⟨room, players, r.playerNr⟩
  let c := if r.roomProperties.getSize ≠ 0 then g.cacheRoom r.roomProperties else (g, [])
  ({ c.1 with
      mPlayers :=
        r.playerProperties.entries.foldl (fun players e => players.onUpdate e.1 e.2) c.1.mPlayers },
    c.2)

end GameRoom

/-! ## the room as it is told -/

/-- Who is in the room, and who is its master client. -/
structure RoomState where
  members : Int → Option Member
  master : Int

namespace RoomState

def after (s : RoomState) : RoomEvent → RoomState
  | .join nr properties _ =>
    { s with
      members := Function.update s.members nr (some (Member.entered (s.members nr) properties)) }
  | .leave nr isInactive masterClientID =>
    { members := Function.update s.members nr
        (if isInactive then (s.members nr).map fun m => { m with inactive := true } else none)
      master := (masterClientID.filter fun id => decide (id ≠ 0)).getD s.master }
  | .propertiesChanged target properties =>
    if target ≠ 0 then
      { s with
        members := Function.update s.members target ((s.members target).map (·.told properties)) }
    else
      { s with
        master := cached Value.toInt Properties.Room.MASTER_CLIENT_ID s.master properties }

end RoomState

/-! ## a client in the room -/

/-- The client sees the room, itself aside. -/
structure Sees (g : GameRoom) (s : RoomState) : Prop where
  numbers : g.mPlayers.numbers.Nodup
  clean : g.mPlayers.AllClean
  master : g.room.mMasterClientID = s.master
  members : ∀ nr ≠ g.mLocalPlayerNumber, g.mPlayers.seen nr = s.members nr

theorem nodup_onEnterRemote {players : List Int} (h : players.Nodup) (number : Int) :
    (onEnterRemote players number).Nodup := by
  unfold onEnterRemote
  split
  · exact h
  · rename_i hnot
    refine List.nodup_append.2 ⟨h, List.nodup_singleton number, ?_⟩
    intro a ha b hb heq
    rw [List.mem_singleton.1 hb] at heq
    exact hnot (heq ▸ ha)

theorem nodup_removePlayer {players : List Int} (h : players.Nodup) (number : Int) :
    (removePlayer number players).Nodup := by
  rw [removePlayer_eq_erase number h]
  exact h.erase number

/-- Two functions that agree but at one place, updated in the same way. -/
theorem update_agree {α : Type*} {f g : Int → α} {own nr number : Int} {v w : α}
    (h : ∀ nr ≠ own, f nr = g nr) (hv : number ≠ own → v = w) (hnr : nr ≠ own) :
    Function.update f number v nr = Function.update g number w nr := by
  by_cases hn : nr = number
  · subst hn
    rw [Function.update_self, Function.update_self, hv hnr]
  · rw [Function.update_of_ne hn, Function.update_of_ne hn, h nr hnr]

/-- What sees a room depends on, besides the players. -/
theorem Sees.of_master {g g' : GameRoom} {s : RoomState} {master : Int} (h : Sees g s)
    (hplayers : g'.mPlayers = g.mPlayers)
    (hown : g'.mLocalPlayerNumber = g.mLocalPlayerNumber)
    (hmaster : g'.room.mMasterClientID = master) : Sees g' { s with master := master } := by
  refine ⟨?_, ?_, hmaster, ?_⟩
  · rw [hplayers]
    exact h.numbers
  · rw [hplayers]
    exact h.clean
  · rw [hplayers, hown]
    exact h.members

/-- Other players, in the place of those that were seen. -/
theorem Sees.of_players {g : GameRoom} {s : RoomState} {players : Players}
    {members : Int → Option Member} (h : Sees g s) (hnumbers : players.numbers.Nodup)
    (hclean : players.AllClean)
    (hmembers : ∀ nr ≠ g.mLocalPlayerNumber, players.seen nr = members nr) :
    Sees { g with mPlayers := players } { s with members := members } :=
  ⟨hnumbers, hclean, h.master, hmembers⟩

theorem setMasterClientID_fst (g : GameRoom) (id : Int) :
    (g.setMasterClientID id).1.mPlayers = g.mPlayers
      ∧ (g.setMasterClientID id).1.mLocalPlayerNumber = g.mLocalPlayerNumber
      ∧ (g.setMasterClientID id).1.room.mMasterClientID = id := by
  unfold GameRoom.setMasterClientID
  split
  · exact ⟨rfl, rfl, rfl⟩
  · rename_i h
    exact ⟨rfl, rfl, not_not.1 h⟩

theorem onMasterClientID_fst (g : GameRoom) (masterClientID : Option Int) :
    (g.onMasterClientID masterClientID).1.mPlayers = g.mPlayers
      ∧ (g.onMasterClientID masterClientID).1.mLocalPlayerNumber = g.mLocalPlayerNumber
      ∧ (g.onMasterClientID masterClientID).1.room.mMasterClientID
        = (masterClientID.filter fun id => decide (id ≠ 0)).getD g.room.mMasterClientID := by
  cases masterClientID with
  | none => exact ⟨rfl, rfl, rfl⟩
  | some newMaster =>
    by_cases hzero : newMaster = 0
    · have hsame : g.onMasterClientID (some newMaster) = (g, []) :=
        if_neg (not_not_intro hzero)
      rw [hsame, hzero]
      exact ⟨rfl, rfl, rfl⟩
    · have hset : g.onMasterClientID (some newMaster) = g.setMasterClientID newMaster :=
        if_pos hzero
      rw [hset, Option.filter_some, if_pos (decide_eq_true hzero)]
      exact setMasterClientID_fst g newMaster

theorem sees_join {g : GameRoom} {s : RoomState} (h : Sees g s) (nr : Int)
    (properties : Properties) (playerList : List Int) :
    Sees (g.onEvent (.join nr properties playerList)).1 (s.after (.join nr properties playerList)) := by
  by_cases hown : nr = g.mLocalPlayerNumber
  · have heq : (g.onEvent (.join nr properties playerList)).1 = g :=
      if_neg (not_not_intro hown)
    rw [heq]
    refine h.of_players h.numbers h.clean fun n hn => ?_
    have hne : n ≠ nr := fun h => hn (h.trans hown)
    exact (h.members n hn).trans (Function.update_of_ne hne _ _).symm
  · have heq : (g.onEvent (.join nr properties playerList)).1
        = { g with mPlayers := g.mPlayers.enter nr properties } := if_pos hown
    rw [heq]
    refine h.of_players ?_ (Players.allClean_enter h.clean nr properties) fun n hn => ?_
    · rw [Players.numbers_enter]
      exact nodup_onEnterRemote h.numbers nr
    · rw [Players.seen_enter]
      exact update_agree h.members (fun hnr => by rw [h.members nr hnr]) hn

theorem sees_leave {g : GameRoom} {s : RoomState} (h : Sees g s) (nr : Int) (isInactive : Bool)
    (masterClientID : Option Int) :
    Sees (g.onEvent (.leave nr isInactive masterClientID)).1
      (s.after (.leave nr isInactive masterClientID)) := by
  have hplayers : Sees
      { g with
        mPlayers := if isInactive then g.mPlayers.setIsInactive nr true else g.mPlayers.remove nr }
      { s with
        members := Function.update s.members nr
          (if isInactive then (s.members nr).map fun m => { m with inactive := true } else none) } := by
    cases isInactive with
    | true =>
      refine h.of_players ?_ (Players.allClean_setIsInactive h.clean nr true) fun n hn => ?_
      · show (g.mPlayers.setIsInactive nr true).numbers.Nodup
        rw [Players.numbers_setIsInactive]
        exact h.numbers
      · show (g.mPlayers.setIsInactive nr true).seen n = _
        rw [Players.seen_setIsInactive]
        exact update_agree h.members (fun hnr => by rw [h.members nr hnr]; rfl) hn
    | false =>
      refine h.of_players ?_ (Players.allClean_remove h.clean nr) fun n hn => ?_
      · show (g.mPlayers.remove nr).numbers.Nodup
        rw [Players.numbers_remove]
        exact nodup_removePlayer h.numbers nr
      · show (g.mPlayers.remove nr).seen n = _
        rw [Players.seen_remove h.numbers]
        exact update_agree h.members (fun _ => rfl) hn
  obtain ⟨hsame, hown, hmaster⟩ := onMasterClientID_fst
    { g with
      mPlayers := if isInactive then g.mPlayers.setIsInactive nr true else g.mPlayers.remove nr }
    masterClientID
  exact hplayers.of_master hsame hown (hmaster.trans (congrArg _ h.master))

theorem sees_propertiesChanged {g : GameRoom} {s : RoomState} (h : Sees g s) (target : Int)
    (properties : Properties) :
    Sees (g.onEvent (.propertiesChanged target properties)).1
      (s.after (.propertiesChanged target properties)) := by
  unfold GameRoom.onEvent RoomState.after
  by_cases htarget : target = 0
  · simp only [htarget, ne_eq, not_true_eq_false, if_false]
    by_cases hsize : properties.getSize = 0
    · have hlookup : properties.lookup (.byte Properties.Room.MASTER_CLIENT_ID) = none := by
        rw [Parallel.lookup_eq_none, List.length_eq_zero_iff.1 hsize]
        exact List.not_mem_nil
      simp only [hsize, not_true_eq_false, if_false]
      refine h.of_master rfl rfl ?_
      simp only [cached, Hashtable.getValue, hlookup]
      exact h.master
    · simp only [hsize, not_false_eq_true, if_true]
      refine h.of_master rfl rfl ?_
      show cached _ _ g.room.mMasterClientID _ = _
      rw [h.master]
  · simp only [htarget, ne_eq, not_false_eq_true, if_true]
    by_cases hsize : properties.getSize = 0
    · simp only [hsize, not_true_eq_false, if_false]
      refine h.of_players h.numbers h.clean fun n hn => ?_
      have hsame := Players.told_of_empty h.clean hsize target
      by_cases hn' : n = target
      · subst hn'
        rw [Function.update_self, ← h.members n hn, hsame]
      · rw [Function.update_of_ne hn', h.members n hn]
    · simp only [hsize, not_false_eq_true, if_true]
      refine h.of_players ?_ (Players.allClean_onUpdate h.clean target properties) fun n hn => ?_
      · rw [Players.numbers_onUpdate]
        exact h.numbers
      · rw [Players.seen_onUpdate]
        exact update_agree h.members (fun hnr => by rw [h.members target hnr]) hn

/-- The step lemma: an event changes what a client sees as it changes the room. -/
theorem sees_after {g : GameRoom} {s : RoomState} (h : Sees g s) (e : RoomEvent) :
    Sees (g.onEvent e).1 (s.after e) := by
  cases e with
  | join nr properties playerList => exact sees_join h nr properties playerList
  | leave nr isInactive masterClientID => exact sees_leave h nr isInactive masterClientID
  | propertiesChanged target properties => exact sees_propertiesChanged h target properties

theorem own_onEvent (g : GameRoom) (e : RoomEvent) :
    (g.onEvent e).1.mLocalPlayerNumber = g.mLocalPlayerNumber := by
  cases e with
  | join nr properties playerList =>
    unfold GameRoom.onEvent
    simp only
    split <;> rfl
  | leave nr isInactive masterClientID => exact (onMasterClientID_fst _ masterClientID).2.1
  | propertiesChanged target properties =>
    simp only [GameRoom.onEvent]
    split
    · rfl
    · split <;> rfl

/-- The run lemma. -/
theorem sees_run {g : GameRoom} {s : RoomState} (h : Sees g s) (es : List RoomEvent) :
    Sees (Contract.final GameRoom.onEvent g es) (Runs.run RoomState.after s es)
      ∧ (Contract.final GameRoom.onEvent g es).mLocalPlayerNumber = g.mLocalPlayerNumber := by
  induction es generalizing g s with
  | nil => exact ⟨h, rfl⟩
  | cons e es ih =>
    obtain ⟨hsees, hown⟩ := ih (sees_after h e)
    exact ⟨hsees, hown.trans (own_onEvent g e)⟩

/-! ## a client that comes in -/

/-- The answer describes the room: its player list and their properties say who is in it. -/
structure JoinResponse.Describes (r : JoinResponse) (s : RoomState) : Prop where
  master : r.roomProperties.lookup (.byte Properties.Room.MASTER_CLIENT_ID) = some (.int s.master)
  members : ∀ nr ≠ r.playerNr, s.members nr =
    if nr ∈ r.playerList then
      some (Member.new.told ((r.playerProperties.lookup nr).getD Parallel.empty))
    else none

theorem told_nothing : Member.new.told Parallel.empty = Member.new := by
  refine Member.ext rfl rfl rfl ?_
  funext key
  show Option.filter _ ((if key.isCustom = true then none else none).or none) = none
  rw [ite_self]
  rfl

theorem entered_nothing : Member.entered (some Member.new) Parallel.empty = Member.new :=
  told_nothing

/-- The players of the list come in without properties, each once. -/
theorem seen_enterAll (l : List Int) {players : Players} {nr : Int}
    (h : players.seen nr = none ∨ players.seen nr = some Member.new) :
    (l.foldl (fun players nr => Players.enter players nr Parallel.empty) players).seen nr
      = if nr ∈ l then some Member.new else players.seen nr := by
  induction l generalizing players with
  | nil => rfl
  | cons n l ih =>
    have hentered : Member.entered (players.seen nr) Parallel.empty = Member.new := by
      obtain h | h := h
      · rw [h]
        exact told_nothing
      · rw [h]
        exact entered_nothing
    rw [List.foldl_cons]
    by_cases hn : nr = n
    · subst hn
      have hseen : (players.enter nr Parallel.empty).seen nr = some Member.new := by
        rw [Players.seen_enter, Function.update_self, hentered]
      rw [ih (.inr hseen), hseen, ite_self, if_pos List.mem_cons_self]
    · have hseen : (players.enter n Parallel.empty).seen nr = players.seen nr := by
        rw [Players.seen_enter, Function.update_of_ne hn]
      rw [ih (by rw [hseen]; exact h), hseen]
      simp only [List.mem_cons, hn, false_or]

/-- A loop that keeps the numbers apart and the properties clean. -/
theorem sound_foldl {α : Type*} (step : Players → α → Players)
    (hstep : ∀ players x, players.numbers.Nodup ∧ players.AllClean →
      (step players x).numbers.Nodup ∧ (step players x).AllClean) (l : List α) {players : Players}
    (h : players.numbers.Nodup ∧ players.AllClean) :
    (l.foldl step players).numbers.Nodup ∧ (l.foldl step players).AllClean := by
  induction l generalizing players with
  | nil => exact h
  | cons x l ih => exact ih (hstep players x h)

/-- `readoutProperties` of the answer: each player caches its own table. -/
theorem seen_readout (playerProperties : Hashtable Int Properties) (players : Players) (nr : Int) :
    (playerProperties.entries.foldl (fun players e => Players.onUpdate players e.1 e.2) players).seen
        nr
      = (playerProperties.lookup nr).elim (players.seen nr)
          fun properties => (players.seen nr).map (·.told properties) :=
  Parallel.look_foldl_entries Players.seen
    (g := fun _ properties member => member.map (·.told properties)) Players.seen_onUpdate
    playerProperties players nr

theorem sees_joined (room : MutableRoom) (localProperties : Properties) {r : JoinResponse}
    {s : RoomState} (h : r.Describes s) :
    Sees (GameRoom.onJoined room localProperties r).1 s
      ∧ (GameRoom.onJoined room localProperties r).1.mLocalPlayerNumber = r.playerNr := by
  have hsize : r.roomProperties.getSize ≠ 0 := by
    intro hzero
    have hnone : r.roomProperties.lookup (.byte Properties.Room.MASTER_CLIENT_ID) = none := by
      rw [Parallel.lookup_eq_none, List.length_eq_zero_iff.1 hzero]
      exact List.not_mem_nil
    rw [h.master] at hnone
    cases hnone
  unfold GameRoom.onJoined
  simp only [if_pos hsize]
  have hlocal : Players.numbers [Player.create r.playerNr localProperties] |>.Nodup :=
    List.nodup_singleton _
  have hsound := sound_foldl (fun players e => Players.onUpdate players e.1 e.2)
    (fun players e hp => by
      rw [Players.numbers_onUpdate]
      exact ⟨hp.1, Players.allClean_onUpdate hp.2 e.1 e.2⟩) r.playerProperties.entries
    (sound_foldl (fun players nr => Players.enter players nr Parallel.empty)
      (fun players nr hp => by
        rw [Players.numbers_enter]
        exact ⟨nodup_onEnterRemote hp.1 nr, Players.allClean_enter hp.2 nr Parallel.empty⟩)
      (r.playerList.filter (· ≠ r.playerNr))
      ⟨hlocal, List.forall_mem_singleton.2 (Players.clean_create r.playerNr localProperties)⟩)
  refine ⟨⟨hsound.1, hsound.2, ?_, fun nr hnr => ?_⟩, rfl⟩
  · show cached _ _ room.mMasterClientID r.roomProperties = _
    unfold cached Hashtable.getValue
    rw [h.master]
    rfl
  · have hstart : Players.seen [Player.create r.playerNr localProperties] nr = none := by
      rw [Players.seen_cons, if_neg fun heq => hnr heq.symm]
      rfl
    have hmem : nr ∈ r.playerList.filter (· ≠ r.playerNr) ↔ nr ∈ r.playerList := by
      rw [List.mem_filter, decide_eq_true_iff]
      exact ⟨And.left, fun hl => ⟨hl, hnr⟩⟩
    show Players.seen (r.playerProperties.entries.foldl _ _) nr = _
    rw [seen_readout]
    show (r.playerProperties.lookup nr).elim (Players.seen (List.foldl _ _ _) nr)
      (fun properties => (Players.seen (List.foldl _ _ _) nr).map _) = _
    rw [seen_enterAll _ (.inl hstart), hstart, h.members nr hnr]
    by_cases hl : nr ∈ r.playerList
    · rw [if_pos (hmem.2 hl), if_pos hl]
      cases r.playerProperties.lookup nr with
      | none => exact congrArg some told_nothing.symm
      | some properties => rfl
    · rw [if_neg (fun hf => hl (hmem.1 hf)), if_neg hl]
      cases r.playerProperties.lookup nr <;> rfl

/-- **Two clients that joined at different times agree** on the master client and on every player
but themselves: if the answer that let the first one in described the room, and the answer that let
the second one in described what the events had made of it by then, then they agree after every
further event. -/
theorem members_agree (s : RoomState) (room room' : MutableRoom)
    (localProperties localProperties' : Properties) (r r' : JoinResponse)
    (es later : List RoomEvent) (hr : r.Describes s)
    (hr' : r'.Describes (Runs.run RoomState.after s es)) :
    let first := Contract.final GameRoom.onEvent (GameRoom.onJoined room localProperties r).1
      (es ++ later)
    let second := Contract.final GameRoom.onEvent (GameRoom.onJoined room' localProperties' r').1
      later
    first.room.mMasterClientID = second.room.mMasterClientID
      ∧ first.mPlayers.numbers.Nodup ∧ second.mPlayers.numbers.Nodup
      ∧ ∀ nr ≠ r.playerNr, nr ≠ r'.playerNr →
          first.mPlayers.seen nr = second.mPlayers.seen nr := by
  intro first second
  obtain ⟨hjoined, hown⟩ := sees_joined room localProperties hr
  obtain ⟨hjoined', hown'⟩ := sees_joined room' localProperties' hr'
  obtain ⟨hfirst, hsame⟩ := sees_run hjoined (es ++ later)
  obtain ⟨hsecond, hsame'⟩ := sees_run hjoined' later
  rw [Runs.run_append] at hfirst
  refine ⟨hfirst.master.trans hsecond.master.symm, hfirst.numbers, hsecond.numbers, ?_⟩
  intro nr hnr hnr'
  have hne : nr ≠ first.mLocalPlayerNumber := fun h => hnr ((h.trans hsame).trans hown)
  have hne' : nr ≠ second.mLocalPlayerNumber := fun h => hnr' ((h.trans hsame').trans hown')
  exact (hfirst.members nr hne).trans (hsecond.members nr hne').symm

/-- Player 1 is alone and is joined by player 2, then by player 3. -/
theorem members_agree_third :
    let alone : RoomState := ⟨fun nr => if nr = 1 then some Member.new else none, 1⟩
    let room := MutableRoom.ofName ['r'] Parallel.empty []
    let master : Properties :=
      Parallel.empty.put (.byte Properties.Room.MASTER_CLIENT_ID) (.int 1)
    let first := Contract.final GameRoom.onEvent
      (GameRoom.onJoined room Parallel.empty ⟨1, master, Parallel.empty, [1]⟩).1
      ([.join 2 Parallel.empty [1, 2]] ++ [.join 3 Parallel.empty [1, 2, 3]])
    let second := Contract.final GameRoom.onEvent
      (GameRoom.onJoined room Parallel.empty ⟨2, master, Parallel.empty, [1, 2]⟩).1
      [.join 3 Parallel.empty [1, 2, 3]]
    alone.master = 1 ∧ first.room.mMasterClientID = second.room.mMasterClientID
      ∧ first.mPlayers.numbers.Nodup ∧ second.mPlayers.numbers.Nodup
      ∧ ∀ nr ≠ 1, nr ≠ 2 → first.mPlayers.seen nr = second.mPlayers.seen nr := by
  refine ⟨rfl, members_agree ⟨fun nr => if nr = 1 then some Member.new else none, 1⟩ _ _ _ _
    ⟨1, _, Parallel.empty, [1]⟩ ⟨2, _, Parallel.empty, [1, 2]⟩ _ _
    ⟨rfl, fun nr hnr => ?_⟩ ⟨rfl, fun nr hnr => ?_⟩⟩
  · have hne : nr ≠ 1 := hnr
    simp [hne]
  · have hne : nr ≠ 2 := hnr
    show Function.update _ 2 _ nr = _
    rw [Function.update_of_ne hne]
    by_cases h : nr = 1
    · simp [h, Parallel.lookup_empty, told_nothing]
    · simp [h, hne]

end Photon
