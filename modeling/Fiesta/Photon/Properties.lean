import Fiesta.Client.Photon
import Fiesta.Common.Hashtable
import Mathlib.Data.List.Basic

/-!
# Properties of rooms and players

Rooms and players carry a table of properties.  Keys that are bytes name the properties the library
knows, keys that are strings are custom properties.  A null value takes a custom property away.

* `stripToCustomProperties`, `stripKeysWithNullValues`   the helpers of `Utils`;
* `cacheCustom`, `cached`      what `cacheProperties` does to custom and to known properties;
* `lastMention`                the last value some updates give a key;
* `lookup_cacheCustom_run`     **custom properties after any updates: the last mention, unless null**;
* `cached_run`                 known properties after any updates.
-/

namespace Photon

open Common

/-- `KeyObject`: the keys a property table may have. -/
inductive Key where
  | byte (value : NByte)
  | short (value : Int)
  | int (value : Int)
  | long (value : Int)
  | jstring (value : JString)
  deriving DecidableEq

/-- The values that the library reads, and `Object()`; the others are kept as raw data. -/
inductive Value where
  | null
  | bool (value : Bool)
  | byte (value : NByte)
  | int (value : Int)
  | jstring (value : JString)
  | jstrings (value : List JString)
  | other (type : NByte) (data : List NByte)
  deriving DecidableEq

/-- `ValueObject<bool>(value).getDataCopy()`, and so on: another type reads as the default. -/
def Value.toBool : Value → Bool
  | .bool value => value
  | _ => false

def Value.toByte : Value → NByte
  | .byte value => value
  | _ => 0

def Value.toInt : Value → Int
  | .int value => value
  | _ => 0

def Value.toJString : Value → JString
  | .jstring value => value
  | _ => []

def Value.toJStrings : Value → List JString
  | .jstrings value => value
  | _ => []

abbrev Properties := Hashtable Key Value

namespace Properties

namespace Player

def PLAYERNAME : NByte := 255
def IS_INACTIVE : NByte := 254
def USER_ID : NByte := 253

end Player

namespace Room

def MAX_PLAYERS : NByte := 255
def IS_VISIBLE : NByte := 254
def IS_OPEN : NByte := 253
def PLAYER_COUNT : NByte := 252
def REMOVED : NByte := 251
def PROPS_LISTED_IN_LOBBY : NByte := 250
def MASTER_CLIENT_ID : NByte := 248
def EXPECTED_USERS : NByte := 247
def DIRECT_MODE : NByte := 244

end Room

end Properties

def Key.getType : Key → NByte
  | .byte _ => TypeCode.BYTE
  | .short _ => 107
  | .int _ => 105
  | .long _ => 108
  | .jstring _ => TypeCode.STRING

def Key.isCustom (key : Key) : Bool := key.getType == TypeCode.STRING

/-! ## the helpers of `Utils` -/

def stripToCustomProperties (properties : Properties) : Properties :=
  properties.select fun key _ => key.isCustom

def stripKeysWithNullValues (orig : Properties) : Properties :=
  orig.select fun _ value => decide (value ≠ .null)

theorem lookup_stripToCustomProperties (properties : Properties) (key : Key) :
    (stripToCustomProperties properties).lookup key
      = if key.isCustom then properties.lookup key else none := by
  unfold stripToCustomProperties
  rw [Parallel.lookup_select]
  cases hkey : key.isCustom <;> cases properties.lookup key <;> rfl

theorem lookup_stripKeysWithNullValues (orig : Properties) (key : Key) :
    (stripKeysWithNullValues orig).lookup key
      = (orig.lookup key).filter fun value => decide (value ≠ .null) :=
  Parallel.lookup_select ..

/-! ## caching -/

/-- The last two lines of `Room::cacheProperties` and `Player::cacheProperties`. -/
def cacheCustom (mCustomProperties properties : Properties) : Properties :=
  stripKeysWithNullValues (mCustomProperties.putAll (stripToCustomProperties properties))

/-- A known property: read when the table contains it. -/
def cached {α : Type*} (read : Value → α) (key : NByte) (old : α) (properties : Properties) : α :=
  match properties.getValue (.byte key) with
  | some value => read value
  | none => old

theorem lookup_cacheCustom (custom properties : Properties) (key : Key) :
    (cacheCustom custom properties).lookup key
      = ((if key.isCustom then properties.lookup key else none).or (custom.lookup key)).filter
          fun value => decide (value ≠ .null) := by
  unfold cacheCustom
  rw [lookup_stripKeysWithNullValues, Parallel.lookup_putAll, lookup_stripToCustomProperties]

/-- Only custom properties, and none that is null. -/
def Clean (custom : Properties) : Prop :=
  ∀ key value, custom.lookup key = some value → key.isCustom ∧ value ≠ .null

theorem clean_empty : Clean Parallel.empty := by
  intro key value h
  rw [Parallel.lookup_empty] at h
  cases h

theorem clean_cacheCustom {custom : Properties} (h : Clean custom) (properties : Properties) :
    Clean (cacheCustom custom properties) := by
  intro key value hv
  rw [lookup_cacheCustom] at hv
  obtain ⟨hor, hnull⟩ := Option.filter_eq_some_iff.1 hv
  refine ⟨?_, of_decide_eq_true hnull⟩
  cases hkey : key.isCustom with
  | true => rfl
  | false =>
    rw [hkey] at hor
    have hold : custom.lookup key = some value := hor
    rw [(h key value hold).1] at hkey
    cases hkey

theorem filter_lookup_of_clean {custom : Properties} (h : Clean custom) (key : Key) :
    ((custom.lookup key).filter fun value => decide (value ≠ .null)) = custom.lookup key := by
  cases hvalue : custom.lookup key with
  | none => rfl
  | some value => rw [Option.filter_some, if_pos (decide_eq_true (h key value hvalue).2)]

/-! ## any number of updates -/

/-- The last value the updates give a key. -/
def lastMention (key : Key) (updates : List Properties) : Option Value :=
  updates.reverse.findSome? fun properties => properties.lookup key

theorem lastMention_snoc (key : Key) (updates : List Properties) (properties : Properties) :
    lastMention key (updates ++ [properties])
      = (properties.lookup key).or (lastMention key updates) := by
  unfold lastMention
  rw [List.reverse_append, List.findSome?_append]
  cases h : properties.lookup key <;> simp [h]

/-- **Custom properties after any updates**: the last value that was given, unless it is null. -/
theorem lookup_cacheCustom_run {custom : Properties} (h : Clean custom) (updates : List Properties)
    (key : Key) :
    (Runs.run cacheCustom custom updates).lookup key
      = if key.isCustom then
          ((lastMention key updates).or (custom.lookup key)).filter
            fun value => decide (value ≠ .null)
        else none := by
  induction updates using List.reverseRecOn with
  | nil =>
    show custom.lookup key = if key.isCustom then (custom.lookup key).filter _ else none
    rw [filter_lookup_of_clean h]
    cases hc : custom.lookup key with
    | none => exact (ite_self _).symm
    | some value => rw [if_pos (h key value hc).1]
  | append_singleton updates properties ih =>
    rw [Runs.run_snoc, lookup_cacheCustom, ih, lastMention_snoc]
    cases key.isCustom with
    | false => rfl
    | true =>
      cases properties.lookup key with
      | some value => rfl
      | none =>
        show Option.filter _ (Option.filter _ _) = Option.filter _ _
        rw [Option.filter_filter]
        simp

theorem cached_run {α : Type*} (read : Value → α) (key : NByte) (old : α)
    (updates : List Properties) :
    Runs.run (cached read key) old updates
      = ((lastMention (.byte key) updates).map read).getD old := by
  induction updates using List.reverseRecOn with
  | nil => rfl
  | append_singleton updates properties ih =>
    rw [Runs.run_snoc, ih, lastMention_snoc]
    unfold cached Hashtable.getValue
    cases properties.lookup (.byte key) with
    | none => simp only [Option.none_or]
    | some value => simp only [Option.some_or, Option.map_some, Option.getD_some]

end Photon
