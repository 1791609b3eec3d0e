import Fiesta.Photon.RoomList

/-!
# The room a client is in

* `RoomOptions`                  what an app asks for when it creates a room;
* `MutableRoom`                  the room as the client keeps it while it is in it;
* `MutableRoom.ofOptions`        the room that the create operations leave behind;
* `MutableRoom.toOptions`        the options read back from it, on the way to the game server;
* `toOptions_ofOptions`          **the options survive the way through the room**.
-/

namespace Photon

open Common

namespace LobbyType

def DEFAULT : NByte := 0

end LobbyType

structure RoomOptions where
  isVisible : Bool
  isOpen : Bool
  maxPlayers : NByte
  customRoomProperties : Properties
  propsListedInLobby : List JString
  lobbyName : JString
  lobbyType : NByte
  playerTtl : Int
  emptyRoomTtl : Int
  suppressRoomEvents : Bool
  plugins : Option (List JString)
  publishUserID : Bool
  directMode : NByte

structure MutableRoom extends Room where
  mIsVisible : Bool
  mMasterClientID : Int
  mPropsListedInLobby : List JString
  mPlayerTtl : Int
  mEmptyRoomTtl : Int
  mSuppressRoomEvents : Bool
  mupPlugins : Option (List JString)
  mPublishUserID : Bool
  mExpectedUsers : List JString

def MutableRoom.cacheProperties (room : MutableRoom) (properties : Properties) : MutableRoom :=
  { room with
    mIsVisible := cached Value.toBool Properties.Room.IS_VISIBLE room.mIsVisible properties
    mExpectedUsers :=
      cached Value.toJStrings Properties.Room.EXPECTED_USERS room.mExpectedUsers properties
    mMasterClientID :=
      cached Value.toInt Properties.Room.MASTER_CLIENT_ID room.mMasterClientID properties
    mPropsListedInLobby :=
      cached Value.toJStrings Properties.Room.PROPS_LISTED_IN_LOBBY room.mPropsListedInLobby
        properties
    toRoom := room.toRoom.cacheProperties properties }

/-- `createMutableRoom`: the base class caches the properties, then the room does it again. -/
def MutableRoom.create (name : JString) (properties : Properties)
    (propsListedInLobby : List JString) (playerTtl emptyRoomTtl : Int) (suppressRoomEvents : Bool)
    (plugins : Option (List JString)) (publishUserID : Bool) (expectedUsers : List JString) :
    MutableRoom :=
  MutableRoom.cacheProperties
    { toRoom := Room.create name properties
      mIsVisible := true
      mMasterClientID := 0
      mPropsListedInLobby := propsListedInLobby
      mPlayerTtl := playerTtl
      mEmptyRoomTtl := emptyRoomTtl
      mSuppressRoomEvents := suppressRoomEvents
      mupPlugins := plugins
      mPublishUserID := publishUserID
      mExpectedUsers := expectedUsers } properties

/-- `roomProps` of the operations that may create a room -/
def RoomOptions.roomProps (options : RoomOptions) : Properties :=
  let roomProps := ((stripToCustomProperties options.customRoomProperties
    |>.put (.byte Properties.Room.IS_OPEN) (.bool options.isOpen))
    |>.put (.byte Properties.Room.IS_VISIBLE) (.bool options.isVisible))
    |>.put (.byte Properties.Room.MAX_PLAYERS) (.byte options.maxPlayers)
  if options.directMode ≠ DirectMode.NONE then
    roomProps.put (.byte Properties.Room.DIRECT_MODE) (.byte options.directMode)
  else roomProps

/-- `mpCurrentlyJoinedRoom` after `opCreateRoom`, `opJoinOrCreateRoom` and
`opJoinRandomOrCreateRoom` -/
def MutableRoom.ofOptions (gameID : JString) (options : RoomOptions)
    (expectedUsers : List JString) : MutableRoom :=
  MutableRoom.create gameID options.roomProps options.propsListedInLobby options.playerTtl
    options.emptyRoomTtl options.suppressRoomEvents options.plugins options.publishUserID
    expectedUsers

/-- `mpCurrentlyJoinedRoom` after `opJoinRoom` and `opJoinRandomRoom` -/
def MutableRoom.ofName (gameID : JString) (properties : Properties)
    (expectedUsers : List JString) : MutableRoom :=
  MutableRoom.create gameID properties [] 0 0 false none false expectedUsers

/-- The `RoomOptions` that `onArrivalAndAuthentication` makes of the room. -/
def MutableRoom.toOptions (room : MutableRoom) : RoomOptions where
  isVisible := room.mIsVisible
  isOpen := room.mIsOpen
  maxPlayers := room.mMaxPlayers
  customRoomProperties := room.mCustomProperties
  propsListedInLobby := room.mPropsListedInLobby
  lobbyName := []
  lobbyType := LobbyType.DEFAULT
  playerTtl := room.mPlayerTtl
  emptyRoomTtl := room.mEmptyRoomTtl
  suppressRoomEvents := room.mSuppressRoomEvents
  plugins := room.mupPlugins
  publishUserID := room.mPublishUserID
  directMode := room.mDirectMode

/-! ## what the room remembers of the options -/

/-- Two options that ask the game server for the same room; the lobby matters on the master only. -/
structure RoomOptions.Alike (asked sent : RoomOptions) : Prop where
  isVisible : sent.isVisible = asked.isVisible
  isOpen : sent.isOpen = asked.isOpen
  maxPlayers : sent.maxPlayers = asked.maxPlayers
  propsListedInLobby : sent.propsListedInLobby = asked.propsListedInLobby
  playerTtl : sent.playerTtl = asked.playerTtl
  emptyRoomTtl : sent.emptyRoomTtl = asked.emptyRoomTtl
  suppressRoomEvents : sent.suppressRoomEvents = asked.suppressRoomEvents
  plugins : sent.plugins = asked.plugins
  publishUserID : sent.publishUserID = asked.publishUserID
  directMode : sent.directMode = asked.directMode
  custom : ∀ key, sent.customRoomProperties.lookup key
    = if key.isCustom then
        (asked.customRoomProperties.lookup key).filter fun value => decide (value ≠ .null)
      else none

theorem isCustom_byte (key : NByte) : (Key.byte key).isCustom = false := rfl

/-- The table the room is created from, key by key. -/
theorem lookup_roomProps (options : RoomOptions) (key : Key) :
    options.roomProps.lookup key
      = if key = .byte Properties.Room.DIRECT_MODE ∧ options.directMode ≠ DirectMode.NONE then
          some (.byte options.directMode)
        else if key = .byte Properties.Room.MAX_PLAYERS then some (.byte options.maxPlayers)
        else if key = .byte Properties.Room.IS_VISIBLE then some (.bool options.isVisible)
        else if key = .byte Properties.Room.IS_OPEN then some (.bool options.isOpen)
        else if key.isCustom then options.customRoomProperties.lookup key
        else none := by
  unfold RoomOptions.roomProps
  split
  · rename_i hmode
    simp only [Parallel.lookup_put, Function.update_apply, lookup_stripToCustomProperties, hmode,
      ne_eq, not_false_eq_true, and_true]
  · rename_i hmode
    simp only [Parallel.lookup_put, Function.update_apply, lookup_stripToCustomProperties, hmode,
      and_false, if_false]

theorem cached_some {α : Type*} {properties : Properties} {key : NByte} {value : Value}
    (h : properties.lookup (.byte key) = some value) (read : Value → α) (old : α) :
    cached read key old properties = read value := by
  unfold cached Hashtable.getValue
  rw [h]

theorem cached_none {α : Type*} {properties : Properties} {key : NByte}
    (h : properties.lookup (.byte key) = none) (read : Value → α) (old : α) :
    cached read key old properties = old := by
  unfold cached Hashtable.getValue
  rw [h]

section
variable (options : RoomOptions)

theorem roomProps_open :
    options.roomProps.lookup (.byte Properties.Room.IS_OPEN) = some (.bool options.isOpen) :=
  lookup_roomProps options _

theorem roomProps_visible :
    options.roomProps.lookup (.byte Properties.Room.IS_VISIBLE)
      = some (.bool options.isVisible) :=
  lookup_roomProps options _

theorem roomProps_maxPlayers :
    options.roomProps.lookup (.byte Properties.Room.MAX_PLAYERS)
      = some (.byte options.maxPlayers) :=
  lookup_roomProps options _

theorem roomProps_directMode :
    options.roomProps.lookup (.byte Properties.Room.DIRECT_MODE)
      = if options.directMode ≠ DirectMode.NONE then some (.byte options.directMode) else none := by
  rw [lookup_roomProps]
  by_cases h : options.directMode = DirectMode.NONE
  · simp [h, Properties.Room.DIRECT_MODE, Properties.Room.MAX_PLAYERS,
      Properties.Room.IS_VISIBLE, Properties.Room.IS_OPEN, isCustom_byte]
  · simp [h]

theorem roomProps_other {key : NByte} (hmode : key ≠ Properties.Room.DIRECT_MODE)
    (hmax : key ≠ Properties.Room.MAX_PLAYERS) (hvisible : key ≠ Properties.Room.IS_VISIBLE)
    (hopen : key ≠ Properties.Room.IS_OPEN) : options.roomProps.lookup (.byte key) = none := by
  rw [lookup_roomProps]
  simp [hmode, hmax, hvisible, hopen, isCustom_byte]

theorem roomProps_custom {key : Key} (h : key.isCustom) :
    options.roomProps.lookup key = options.customRoomProperties.lookup key := by
  rw [lookup_roomProps]
  cases key with
  | jstring value => simp [h]
  | _ => cases h

end

/-- A table with nothing but custom properties leaves the expected users alone. -/
theorem expectedUsers_ofName (gameID : JString) (properties : Properties)
    (expectedUsers : List JString) :
    (MutableRoom.ofName gameID (stripToCustomProperties properties) expectedUsers).mExpectedUsers
      = expectedUsers := by
  have hnone : (stripToCustomProperties properties).lookup (.byte Properties.Room.EXPECTED_USERS)
      = none := by
    rw [lookup_stripToCustomProperties, isCustom_byte]
    rfl
  exact cached_none hnone Value.toJStrings _

theorem directMode_ofOptions (gameID : JString) (options : RoomOptions)
    (expectedUsers : List JString) :
    (MutableRoom.ofOptions gameID options expectedUsers).mDirectMode = options.directMode := by
  have hmode := roomProps_directMode options
  by_cases h : options.directMode = DirectMode.NONE
  · rw [if_neg (not_not_intro h)] at hmode
    have hstep : ∀ old, cached Value.toByte Properties.Room.DIRECT_MODE old options.roomProps = old :=
      cached_none hmode Value.toByte
    exact ((hstep _).trans (hstep _)).trans h.symm
  · rw [if_pos h] at hmode
    exact cached_some hmode Value.toByte _

theorem custom_ofOptions (gameID : JString) (options : RoomOptions)
    (expectedUsers : List JString) (key : Key) :
    (MutableRoom.ofOptions gameID options expectedUsers).mCustomProperties.lookup key
      = if key.isCustom then
          (options.customRoomProperties.lookup key).filter fun value => decide (value ≠ .null)
        else none := by
  have htwice : (MutableRoom.ofOptions gameID options expectedUsers).mCustomProperties
      = Runs.run cacheCustom Parallel.empty [options.roomProps, options.roomProps] := rfl
  rw [htwice, lookup_cacheCustom_run clean_empty, Parallel.lookup_empty, Option.or_none]
  cases hkey : key.isCustom with
  | false => rfl
  | true =>
    rw [if_pos rfl, if_pos rfl, ← roomProps_custom options hkey]
    unfold lastMention
    cases h : options.roomProps.lookup key <;> simp [h]

/-- **The options survive the way through the room.**  What the client asks of the game server,
read back from the room it made when it asked the master, is what the app asked for: every option
but the lobby, and of the custom properties those with a string key and a value. -/
theorem toOptions_ofOptions (gameID : JString) (options : RoomOptions)
    (expectedUsers : List JString) :
    options.Alike (MutableRoom.ofOptions gameID options expectedUsers).toOptions
      ∧ (MutableRoom.ofOptions gameID options expectedUsers).mExpectedUsers = expectedUsers := by
  refine ⟨⟨?_, ?_, ?_, ?_, rfl, rfl, rfl, rfl, rfl, ?_, ?_⟩, ?_⟩
  · exact cached_some (roomProps_visible options) Value.toBool _
  · exact cached_some (roomProps_open options) Value.toBool _
  · exact cached_some (roomProps_maxPlayers options) Value.toByte _
  · refine cached_none (roomProps_other options ?_ ?_ ?_ ?_) Value.toJStrings _ <;> decide
  · exact directMode_ofOptions gameID options expectedUsers
  · exact custom_ofOptions gameID options expectedUsers
  · refine cached_none (roomProps_other options ?_ ?_ ?_ ?_) Value.toJStrings _ <;> decide

end Photon
