import Fiesta.Photon.Properties

/-!
# The list of rooms in the lobby

The server sends the whole list once and then only what changes.  The client keeps the rooms and
their names in two vectors.

* `Room`, `Room.cacheProperties`   a room of the list;
* `Lobby`, `Lobby.onEvent`         `EventCode::ROOM_LIST` and `EventCode::ROOM_LIST_UPDATE`;
* `tables`                         the property tables a room was sent since it was last listed;
* `rooms_shown`                    **which rooms are listed after any events, with which values**;
* `snapshot`                       the whole list that the events add up to;
* `late_joiner_agrees`             **a client that is sent that list shows the same rooms**.
-/

namespace Photon

open Common

namespace DirectMode

def NONE : NByte := 0

end DirectMode

/-! ## rooms -/

structure Room where
  mName : JString
  mPlayerCount : Int
  mMaxPlayers : NByte
  mIsOpen : Bool
  mDirectMode : NByte
  mCustomProperties : Properties

def Room.cacheProperties (room : Room) (properties : Properties) : Room :=
  { room with
    mMaxPlayers := cached Value.toByte Properties.Room.MAX_PLAYERS room.mMaxPlayers properties
    mIsOpen := cached Value.toBool Properties.Room.IS_OPEN room.mIsOpen properties
    mPlayerCount :=
      cached (fun value => value.toByte.toNat) Properties.Room.PLAYER_COUNT room.mPlayerCount
        properties
    mDirectMode := cached Value.toByte Properties.Room.DIRECT_MODE room.mDirectMode properties
    mCustomProperties := cacheCustom room.mCustomProperties properties }

/-- The members of a room before its constructor caches the properties. -/
def Room.init (name : JString) : Room := ⟨name, 0, 0, true, DirectMode.NONE, Parallel.empty⟩

/-- The constructor that `RoomFactory::create` calls. -/
def Room.create (name : JString) (properties : Properties) : Room :=
  (Room.init name).cacheProperties properties

/-! ## the list -/

/-- `mRoomNameList` and `mRoomList`. -/
abbrev Lobby := Parallel JString Room

/-- The tables a list event carries, by the name of the room. -/
inductive ListEvent where
  | roomList (rooms : Hashtable JString Properties)
  | roomListUpdate (rooms : Hashtable JString Properties)

/-- `ValueObject<bool>(val.getValue(Properties::Room::REMOVED)).getDataCopy()` -/
def removed (val : Properties) : Bool := cached Value.toBool Properties.Room.REMOVED false val

/-- One turn of the loop of `ROOM_LIST_UPDATE`. -/
def Lobby.update (lobby : Lobby) (name : JString) (val : Properties) : Lobby :=
  match h : lobby.index name with
  | none =>
    if removed val then lobby
    else lobby.add name (Room.create name val) (Parallel.index_eq_none.1 h)
  | some index =>
    if removed val then lobby.removeAt index
    else
      match lobby.vals[index]? with
      | some room => lobby.setAt index (room.cacheProperties val)
      | none => lobby

def Lobby.onEvent (lobby : Lobby) : ListEvent → Lobby
  | .roomList rooms => rooms.mapVals Room.create
  | .roomListUpdate rooms => rooms.entries.foldl (fun lobby e => lobby.update e.1 e.2) lobby

/-! ## one room -/

/-- What an update does to the room of one name. -/
def Room.updated (name : JString) (val : Properties) (room : Option Room) : Option Room :=
  if removed val then none
  else
    match room with
    | none => some (Room.create name val)
    | some room => some (room.cacheProperties val)

/-- What an event does to it. -/
def Room.onEvent (name : JString) (room : Option Room) : ListEvent → Option Room
  | .roomList rooms => (rooms.lookup name).map (Room.create name)
  | .roomListUpdate rooms => (rooms.lookup name).elim room fun val => Room.updated name val room

theorem lookup_update (lobby : Lobby) (name : JString) (val : Properties) :
    (lobby.update name val).lookup
      = Function.update lobby.lookup name (Room.updated name val (lobby.lookup name)) := by
  unfold Lobby.update Room.updated
  split
  · rename_i h
    have hnew : name ∉ lobby.keys := Parallel.index_eq_none.1 h
    have hnone : lobby.lookup name = none := Parallel.lookup_eq_none.2 hnew
    rw [hnone]
    cases removed val with
    | true =>
      rw [if_pos rfl, if_pos rfl, ← hnone, Function.update_eq_self]
    | false => exact Parallel.lookup_add lobby name _ hnew
  · rename_i index h
    have hkey : lobby.keys[index]? = some name := Parallel.index_eq_some.1 h
    cases removed val with
    | true => exact Parallel.lookup_removeAt hkey
    | false =>
      obtain ⟨hlt, _⟩ := List.getElem?_eq_some_iff.1 hkey
      rw [lobby.length_eq] at hlt
      have hroom : lobby.vals[index]? = some lobby.vals[index] := List.getElem?_eq_getElem hlt
      rw [Parallel.lookup_at hkey, hroom]
      exact Parallel.lookup_setAt _ hkey

theorem lookup_onEvent (lobby : Lobby) (event : ListEvent) (name : JString) :
    (lobby.onEvent event).lookup name = Room.onEvent name (lobby.lookup name) event := by
  cases event with
  | roomList rooms => exact Parallel.lookup_mapVals rooms Room.create name
  | roomListUpdate rooms => exact Parallel.look_foldl_entries Parallel.lookup lookup_update rooms lobby name

/-! ## what a room was sent -/

/-- The tables sent for a room since it was last listed: `none` if it is not. -/
def told (name : JString) (tables : Option (List Properties)) : ListEvent → Option (List Properties)
  | .roomList rooms => (rooms.lookup name).map fun val => [val]
  | .roomListUpdate rooms =>
    (rooms.lookup name).elim tables fun val =>
      if removed val then none else some (tables.getD [] ++ [val])

def tables (name : JString) (events : List ListEvent) : Option (List Properties) :=
  Runs.run (told name) none events

/-- The room that some tables make. -/
def Room.made (name : JString) (tables : List Properties) : Room :=
  Runs.run Room.cacheProperties (Room.init name) tables

theorem made_snoc (name : JString) (tables : List Properties) (val : Properties) :
    Room.made name (tables ++ [val]) = (Room.made name tables).cacheProperties val :=
  Runs.run_snoc ..

theorem updated_made (name : JString) (tables : Option (List Properties)) (val : Properties) :
    Room.updated name val (tables.map (Room.made name))
      = (if removed val then none else some (tables.getD [] ++ [val])).map (Room.made name) := by
  unfold Room.updated
  cases removed val with
  | true => rfl
  | false =>
    cases tables with
    | none => rfl
    | some l => exact congrArg some (made_snoc name l val).symm

theorem onEvent_told (name : JString) (tables : Option (List Properties)) (event : ListEvent) :
    Room.onEvent name (tables.map (Room.made name)) event
      = (told name tables event).map (Room.made name) := by
  cases event with
  | roomList rooms =>
    simp only [Room.onEvent, told]
    cases rooms.lookup name <;> rfl
  | roomListUpdate rooms =>
    simp only [Room.onEvent, told]
    cases rooms.lookup name with
    | none => rfl
    | some val => exact updated_made name tables val

theorem lookup_run (events : List ListEvent) (name : JString) :
    (Runs.run Lobby.onEvent Parallel.empty events).lookup name
      = (tables name events).map (Room.made name) := by
  unfold tables
  induction events using List.reverseRecOn with
  | nil => rfl
  | append_singleton events event ih =>
    rw [Runs.run_snoc, Runs.run_snoc, lookup_onEvent, ih, onEvent_told]

/-! ## the values of a room -/

/-- A room shows what a function of the keys says, and the defaults for what it does not say. -/
structure Room.Shows (room : Room) (name : JString) (said : Key → Option Value) : Prop where
  name_eq : room.mName = name
  playerCount : room.mPlayerCount
    = ((said (.byte Properties.Room.PLAYER_COUNT)).map fun v => (v.toByte.toNat : Int)).getD 0
  maxPlayers : room.mMaxPlayers
    = ((said (.byte Properties.Room.MAX_PLAYERS)).map Value.toByte).getD 0
  isOpen : room.mIsOpen = ((said (.byte Properties.Room.IS_OPEN)).map Value.toBool).getD true
  directMode : room.mDirectMode
    = ((said (.byte Properties.Room.DIRECT_MODE)).map Value.toByte).getD DirectMode.NONE
  custom : ∀ key, room.mCustomProperties.lookup key
    = if key.isCustom then (said key).filter fun value => decide (value ≠ .null) else none

/-- A member of a room after any tables, when each table changes it by its own function. -/
theorem made_field {α : Type*} {field : Room → α} {change : α → Properties → α}
    (h : ∀ room val, field (room.cacheProperties val) = change (field room) val) (name : JString)
    (tables : List Properties) :
    field (Room.made name tables) = Runs.run change (field (Room.init name)) tables := by
  induction tables using List.reverseRecOn with
  | nil => rfl
  | append_singleton tables val ih => rw [made_snoc, h, ih, Runs.run_snoc]

theorem made_shows (name : JString) (tables : List Properties) :
    (Room.made name tables).Shows name fun key => lastMention key tables where
  name_eq :=
    Runs.run_inv Room.cacheProperties (fun _ => True) (·.mName = name) (fun _ _ _ h => h) tables
      (fun _ _ => trivial) (Room.init name) rfl
  playerCount := (made_field (fun _ _ => rfl) name tables).trans (cached_run ..)
  maxPlayers := (made_field (fun _ _ => rfl) name tables).trans (cached_run ..)
  isOpen := (made_field (fun _ _ => rfl) name tables).trans (cached_run ..)
  directMode := (made_field (fun _ _ => rfl) name tables).trans (cached_run ..)
  custom := by
    intro key
    have hrun : (Room.made name tables).mCustomProperties
        = Runs.run cacheCustom Parallel.empty tables :=
      made_field (fun _ _ => rfl) name tables
    rw [hrun, lookup_cacheCustom_run clean_empty, Parallel.lookup_empty, Option.or_none]

/-- **The rooms the lobby shows after any events**: a room is listed exactly when the last whole
list or a later change named it and no later change removed it; every value it shows is the last
one it was sent since then, and a custom property that was sent as null is gone. -/
theorem rooms_shown (events : List ListEvent) (name : JString) :
    match tables name events with
    | none => (Runs.run Lobby.onEvent Parallel.empty events).lookup name = none
    | some sent => ∃ room, (Runs.run Lobby.onEvent Parallel.empty events).lookup name = some room
        ∧ room.Shows name fun key => lastMention key sent := by
  have h := lookup_run events name
  split
  · rename_i hnone
    rw [h, hnone]
    rfl
  · rename_i sent hsome
    refine ⟨Room.made name sent, ?_, made_shows name sent⟩
    rw [h, hsome]
    rfl

/-! ## the list the events add up to -/

/-- A change of one room, written into the list of all of them. -/
def merge (rooms : Hashtable JString Properties) (name : JString) (val : Properties) :
    Hashtable JString Properties :=
  if removed val then rooms.remove name
  else rooms.put name (((rooms.lookup name).getD Parallel.empty).putAll val)

/-- The whole list after an event, as the server that sends the events would keep it. -/
def kept (rooms : Hashtable JString Properties) : ListEvent → Hashtable JString Properties
  | .roomList rooms' => rooms'
  | .roomListUpdate changes => changes.entries.foldl (fun rooms e => merge rooms e.1 e.2) rooms

def snapshot (events : List ListEvent) : Hashtable JString Properties :=
  Runs.run kept Parallel.empty events

/-- What it does to the table of one name. -/
def merged (val : Properties) (table : Option Properties) : Option Properties :=
  if removed val then none else some ((table.getD Parallel.empty).putAll val)

theorem lookup_merge (rooms : Hashtable JString Properties) (name : JString) (val : Properties) :
    (merge rooms name val).lookup
      = Function.update rooms.lookup name (merged val (rooms.lookup name)) := by
  unfold merge merged
  cases removed val with
  | true => exact Parallel.lookup_remove rooms name
  | false => exact Parallel.lookup_put rooms name _

/-- A table says of each key what the last of some tables to mention it says. -/
def Sums (table : Properties) (sent : List Properties) : Prop :=
  ∀ key, table.lookup key = lastMention key sent

theorem sums_merged {table : Option Properties} {sent : Option (List Properties)}
    (h : Option.Rel Sums table sent) (val : Properties) :
    Option.Rel Sums (merged val table)
      (if removed val then none else some (sent.getD [] ++ [val])) := by
  unfold merged
  cases removed val with
  | true => exact .none
  | false =>
    refine .some fun key => ?_
    rw [Parallel.lookup_putAll, lastMention_snoc]
    cases h with
    | none => rfl
    | some hsum => rw [Option.getD_some, Option.getD_some, hsum key]

theorem sums_kept {rooms : Hashtable JString Properties} {name : JString}
    {sent : Option (List Properties)} (h : Option.Rel Sums (rooms.lookup name) sent)
    (event : ListEvent) :
    Option.Rel Sums ((kept rooms event).lookup name) (told name sent event) := by
  have hsingle : ∀ val, Sums val [val] := by
    intro val key
    rw [show [val] = ([] : List Properties) ++ [val] from rfl, lastMention_snoc]
    exact (Option.or_none).symm
  cases event with
  | roomList rooms' =>
    simp only [kept, told]
    cases rooms'.lookup name with
    | none => exact .none
    | some val => exact .some (hsingle val)
  | roomListUpdate changes =>
    simp only [kept, told]
    rw [Parallel.look_foldl_entries Parallel.lookup (g := fun _ val table => merged val table)
      lookup_merge]
    cases changes.lookup name with
    | none => exact h
    | some val => exact sums_merged h val

theorem sums_snapshot (events : List ListEvent) (name : JString) :
    Option.Rel Sums ((snapshot events).lookup name) (tables name events) := by
  unfold snapshot tables
  induction events using List.reverseRecOn with
  | nil => exact .none
  | append_singleton events event ih =>
    rw [Runs.run_snoc, Runs.run_snoc]
    exact sums_kept ih event

/-- What the lobby shows is what the kept list says. -/
theorem shows_snapshot (events : List ListEvent) (name : JString) :
    Option.Rel (fun room table => Room.Shows room name table.lookup)
      ((Runs.run Lobby.onEvent Parallel.empty events).lookup name)
      ((snapshot events).lookup name) := by
  have hsum := sums_snapshot events name
  rw [lookup_run]
  revert hsum
  generalize (snapshot events).lookup name = table
  generalize tables name events = sent
  intro hsum
  cases hsum with
  | none => exact .none
  | some h =>
    refine .some ?_
    rw [show Parallel.lookup _ = fun key => lastMention key _ from funext h]
    exact made_shows name _

/-- **A client that joins the lobby late shows what the others show.**  If the list it is sent is
the one the events so far add up to, then after every further event both clients list the same
rooms, with the same values. -/
theorem late_joiner_agrees (events later : List ListEvent) (name : JString) :
    let early := Runs.run Lobby.onEvent Parallel.empty (events ++ later)
    let late := Runs.run Lobby.onEvent Parallel.empty (.roomList (snapshot events) :: later)
    Option.Rel (fun room room' => ∃ said, Room.Shows room name said ∧ Room.Shows room' name said)
      (early.lookup name) (late.lookup name) := by
  intro early late
  have hsame : snapshot (.roomList (snapshot events) :: later) = snapshot (events ++ later) := by
    unfold snapshot
    rw [Runs.run_append, Runs.run_cons]
    rfl
  have hearly := shows_snapshot (events ++ later) name
  have hlate := shows_snapshot (.roomList (snapshot events) :: later) name
  rw [hsame] at hlate
  revert hearly hlate
  show Option.Rel _ (early.lookup name) _ → Option.Rel _ (late.lookup name) _ → _
  generalize early.lookup name = room
  generalize late.lookup name = room'
  generalize (snapshot (events ++ later)).lookup name = table
  intro hearly hlate
  cases hearly with
  | none =>
    cases hlate with
    | none => exact .none
  | some hshow =>
    cases hlate with
    | some hshow' => exact .some ⟨_, hshow, hshow'⟩

end Photon
