import Mathlib.Data.List.Nodup

/-!
# The Photon client library, as far as the game uses it

* `Object`, `ValueObject.getDataCopy`   event contents and how they are read;
* `Event`, `Packet`                     what the service call dispatches;
* `LBClient`                            the local number and the player list of the room.
-/

namespace Photon

/-! ## objects -/

/-- `JString`: the text as characters. -/
abbrev JString := List Char

abbrev NByte := UInt8

namespace TypeCode

def EG_NULL : NByte := 42
def STRING : NByte := 115
def HASHTABLE : NByte := 104
def BYTE : NByte := 98

end TypeCode

/-- A value with its type code: single values and arrays, which add dimensions to the type of
their elements. Types the game never names are kept as raw data. -/
inductive Object where
  | null
  | jstring (value : JString)
  | byte (value : NByte)
  | hashtable (entries : List (Object × Object))
  | other (type : NByte) (data : List NByte) (named : type ≠ TypeCode.STRING)
  | array (type : NByte) (lower : Nat) (elements : List Object)

def Object.getType : Object → NByte
  | .null => TypeCode.EG_NULL
  | .jstring _ => TypeCode.STRING
  | .byte _ => TypeCode.BYTE
  | .hashtable _ => TypeCode.HASHTABLE
  | .other type _ _ => type
  | .array type _ _ => type

def Object.getDimensions : Object → Nat
  | .array _ lower _ => lower + 1
  | _ => 0

/-- `ValueObject<Etype>::convert`, for the type code and the dimensions of `Etype` -/
def ValueObject.convert (type : NByte) (dimensions : Nat) (obj : Object) : Object :=
  if type = obj.getType ∧ dimensions = obj.getDimensions then obj else .null

/-- `ValueObject<JString>(obj).getDataCopy()` -/
def ValueObject.getDataCopy (obj : Object) : JString :=
  match ValueObject.convert TypeCode.STRING 0 obj with
  | .jstring value => value
  | _ => []

@[simp] theorem getDataCopy_jstring (s : JString) :
    ValueObject.getDataCopy (.jstring s) = s := rfl

/-- A content that is not a single string reads as the empty one. -/
theorem getDataCopy_other {obj : Object} (h : ∀ s, obj ≠ .jstring s) :
    ValueObject.getDataCopy obj = [] := by
  unfold ValueObject.getDataCopy ValueObject.convert
  split
  · rename_i value hv
    split at hv
    · exact absurd hv (h value)
    · cases hv
  · rfl

/-! ## events -/

/-- The arguments of `customEventAction`. -/
structure Event where
  playerNr : Int
  eventCode : NByte
  eventContent : Object

/-- The arguments of an `opRaiseEvent` that was handed to the peer. -/
structure Raised where
  reliable : Bool
  content : Object
  eventCode : NByte

def Raised.delivered (r : Raised) (playerNr : Int) : Event := ⟨playerNr, r.eventCode, r.content⟩

/-- What arrives from the server: the answer to joining, players that come and go, and the
events other players raise. -/
inductive Packet where
  | joined (nr : Int) (playerList : List Int)
  | join (nr : Int)
  | leave (nr : Int)
  | custom (event : Event)

/-! ## the room of a client -/

/-- `mpLocalPlayer->getNumber()`, whether the state is `Joined`, and the numbers in
`mpCurrentlyJoinedRoom->mPlayers`. -/
structure LBClient where
  localNr : Int
  joined : Bool
  players : List Int

def LBClient.new : LBClient := ⟨-1, false, []⟩

/-- `PlayerMovementInformant::onEnterRemote` -/
def onEnterRemote (players : List Int) (number : Int) : List Int :=
  if number ∈ players then players else players ++ [number]

/-- `MutableRoom::removePlayer`: the loop goes on to the next index after it has closed a gap. -/
def removePlayer (number : Int) : List Int → List Int
  | [] => []
  | p :: ps =>
    if p = number then
      match ps with
      | [] => []
      | q :: qs => q :: removePlayer number qs
    else p :: removePlayer number ps

/-- The answer to `JOIN_ROOM` on the game server: the local player first, then the list. -/
def LBClient.onJoined (_ : LBClient) (nr : Int) (playerList : List Int) : LBClient :=
  { localNr := nr
    joined := true
    players := (playerList.filter (· ≠ nr)).foldl onEnterRemote [nr] }

/-- `EventCode::JOIN` -/
def LBClient.onJoin (lb : LBClient) (nr : Int) : LBClient :=
  if nr ≠ lb.localNr then { lb with players := onEnterRemote lb.players nr } else lb

/-- `EventCode::LEAVE` of a player that does not stay as inactive -/
def LBClient.onLeave (lb : LBClient) (nr : Int) : LBClient :=
  { lb with players := removePlayer nr lb.players }

/-- `Client::opRaiseEvent`: nothing is sent outside a game room. -/
def LBClient.opRaiseEvent (lb : LBClient) (reliable : Bool) (content : Object)
    (eventCode : NByte) : Option Raised :=
  if lb.joined then some ⟨reliable, content, eventCode⟩ else none

/-! ## the player list -/

theorem removePlayer_cons_ne {number p : Int} (h : p ≠ number) (ps : List Int) :
    removePlayer number (p :: ps) = p :: removePlayer number ps := by
  rw [removePlayer.eq_def]
  simp only [if_neg h]

theorem removePlayer_cons_self (number q : Int) (qs : List Int) :
    removePlayer number (number :: q :: qs) = q :: removePlayer number qs := by
  rw [removePlayer.eq_def]
  simp only [if_true]

/-- On a list without duplicates the loop removes the player and nothing else. -/
theorem removePlayer_eq_erase (number : Int) {ps : List Int} (h : ps.Nodup) :
    removePlayer number ps = ps.erase number := by
  induction ps with
  | nil => rfl
  | cons p ps ih =>
    have hps : ps.Nodup := (List.nodup_cons.1 h).2
    by_cases hp : p = number
    · subst hp
      have hnot : p ∉ ps := (List.nodup_cons.1 h).1
      rw [List.erase_cons_head]
      cases ps with
      | nil => simp [removePlayer]
      | cons q qs =>
        have htail : removePlayer p (q :: qs) = (q :: qs).erase p := ih hps
        have hq : q ≠ p := fun he => hnot (he ▸ List.mem_cons_self)
        rw [removePlayer_cons_ne hq, List.erase_of_not_mem hnot] at htail
        rw [removePlayer_cons_self, htail]
    · rw [List.erase_cons_tail (by simpa using hp), removePlayer_cons_ne hp, ih hps]

theorem foldl_onEnterRemote {ps qs : List Int} (h : (ps ++ qs).Nodup) :
    qs.foldl onEnterRemote ps = ps ++ qs := by
  induction qs generalizing ps with
  | nil => simp
  | cons q qs ih =>
    have hq : q ∉ ps := by
      intro hmem
      exact (List.nodup_append.1 h).2.2 q hmem q List.mem_cons_self rfl
    have hstep : onEnterRemote ps q = ps ++ [q] := if_neg hq
    rw [List.foldl_cons, hstep, ih (by simpa using h)]
    simp

end Photon
