import Fiesta.Photon.Roster

/-!
# The local player, and what the others see of it

A client changes the name and the custom properties of its own player: it keeps the change at once,
and sends it only when it is one.

* `Player.joinProperties`, `Player.joined`   what it joins with, and what it has made of itself then;
* `PlayerCall`, `Player.call`                the calls that change it;
* `Member.Shows`                             what another client can know of it;
* `shows_call`                               what a call sends is what it does;
* `shown_to_others`                          **another client sees the player as it was after some
                                             of its calls**, and as it is once all has arrived.
-/

namespace Photon

open Common

namespace Player

/-- `PLAYER_PROPERTIES` of an operation that enters a room on the game server. -/
def joinProperties (player : Player) : Properties :=
  let playerProps := stripToCustomProperties player.mCustomProperties
  if player.mName.length ≠ 0 then
    playerProps.put (.byte Properties.Player.PLAYERNAME) (.jstring player.mName)
  else playerProps

/-- `mpLocalPlayer` after the answer to that operation. -/
def joined (player : Player) (nr : Int) (userID : JString) : Player :=
  let properties := player.mCustomProperties
    |>.put (.byte Properties.Player.PLAYERNAME) (.jstring player.mName)
    |>.put (.byte Properties.Player.USER_ID) (.jstring userID)
  Player.create nr properties

end Player

/-! ## calls -/

inductive PlayerCall where
  | mergeCustomProperties (customProperties : Properties)
  | addCustomProperties (customProperties : Properties)
  | setName (name : JString)

namespace Player

/-- `MutablePlayer::mergeCustomProperties`, with the properties of `opSetPropertiesOfPlayer`. -/
def mergeCustomProperties (player : Player) (customProperties : Properties) :
    Player × Option Properties :=
  let stripDict := stripToCustomProperties customProperties
  if stripDict.getSize = 0 then (player, none)
  else
    let oldDict := player.mCustomProperties
    let mCustomProperties := stripKeysWithNullValues (oldDict.putAll stripDict)
    ({ player with mCustomProperties },
      if mCustomProperties.same oldDict then none else some stripDict)

/-- `MutablePlayer::setName` -/
def setName (player : Player) (name : JString) : Player × Option Properties :=
  if player.mName = name then (player, none)
  else
    ({ player with mName := name },
      some (Parallel.empty.put (.byte Properties.Player.PLAYERNAME) (.jstring name)))

def call (player : Player) : PlayerCall → Player × Option Properties
  | .mergeCustomProperties customProperties => player.mergeCustomProperties customProperties
  | .addCustomProperties customProperties =>
    player.mergeCustomProperties (stripKeysWithNullValues customProperties)
  | .setName name => player.setName name

/-- What the calls send, in their order. -/
def sent (player : Player) (calls : List PlayerCall) : List Properties :=
  (Contract.trace call player calls).filterMap fun x => x.2

end Player

/-! ## what is shown -/

/-- The name and the custom properties; the rest is not the player's own to change. -/
structure Member.Shows (m : Member) (player : Player) : Prop where
  name : m.name = player.mName
  custom : m.custom = player.mCustomProperties.lookup

theorem Member.Shows.told {m : Member} {player : Player} (h : m.Shows player)
    {properties properties' : Properties}
    (hname : cached Value.toJString Properties.Player.PLAYERNAME player.mName properties
      = cached Value.toJString Properties.Player.PLAYERNAME player.mName properties')
    (hcustom : ∀ key, key.isCustom → properties.lookup key = properties'.lookup key) :
    (m.told properties).Shows (player.cacheProperties properties') := by
  constructor
  · show cached _ _ m.name properties = cached _ _ player.mName properties'
    rw [h.name, hname]
  · funext key
    show Option.filter _ ((if key.isCustom = true then properties.lookup key else none).or
      (m.custom key)) = (cacheCustom player.mCustomProperties properties').lookup key
    rw [lookup_cacheCustom, h.custom]
    cases hkey : key.isCustom with
    | false => rfl
    | true => rw [if_pos rfl, if_pos rfl, hcustom key hkey]

/-- The custom properties of a table, and no known one. -/
theorem cacheProperties_strip (player : Player) (properties : Properties) :
    player.cacheProperties (stripToCustomProperties properties)
      = { player with
          mCustomProperties :=
            cacheCustom player.mCustomProperties (stripToCustomProperties properties) } := by
  have hnone (key : NByte) : (stripToCustomProperties properties).lookup (.byte key) = none := by
    rw [lookup_stripToCustomProperties]
    rfl
  unfold Player.cacheProperties cached Hashtable.getValue
  simp only [hnone]

theorem lookup_cacheCustom_strip (custom properties : Properties) :
    (cacheCustom custom (stripToCustomProperties properties)).lookup
      = (stripKeysWithNullValues (custom.putAll (stripToCustomProperties properties))).lookup := by
  funext key
  rw [lookup_cacheCustom, lookup_stripKeysWithNullValues, Parallel.lookup_putAll,
    lookup_stripToCustomProperties]
  cases key.isCustom <;> rfl

theorem ne_byte_of_isCustom {key : Key} (h : key.isCustom = true) (value : NByte) :
    key ≠ .byte value := by
  intro heq
  rw [heq] at h
  cases h

/-! ## one call -/

theorem clean_mergeCustomProperties {player : Player} (h : Clean player.mCustomProperties)
    (customProperties : Properties) :
    Clean (player.mergeCustomProperties customProperties).1.mCustomProperties := by
  unfold Player.mergeCustomProperties
  simp only
  split
  · exact h
  · intro key value hvalue
    apply clean_cacheCustom h (stripToCustomProperties customProperties) key value
    rw [lookup_cacheCustom_strip]
    exact hvalue

theorem clean_call {player : Player} (h : Clean player.mCustomProperties) (c : PlayerCall) :
    Clean (player.call c).1.mCustomProperties := by
  cases c with
  | mergeCustomProperties customProperties => exact clean_mergeCustomProperties h customProperties
  | addCustomProperties customProperties => exact clean_mergeCustomProperties h _
  | setName name =>
    show Clean (player.setName name).1.mCustomProperties
    unfold Player.setName
    split <;> exact h

theorem shows_mergeCustomProperties {m : Member} {player : Player} (h : m.Shows player)
    (customProperties : Properties) :
    ((player.mergeCustomProperties customProperties).2.elim m m.told).Shows
      (player.mergeCustomProperties customProperties).1 := by
  have htold := h.told (rfl : cached _ _ _ (stripToCustomProperties customProperties) = _)
    fun _ _ => rfl
  rw [cacheProperties_strip] at htold
  have hcustom := lookup_cacheCustom_strip player.mCustomProperties customProperties
  unfold Player.mergeCustomProperties
  simp only
  by_cases hsize : (stripToCustomProperties customProperties).getSize = 0
  · rw [if_pos hsize]
    exact h
  · rw [if_neg hsize]
    simp only
    split
    · -- nothing is sent, since no key has another value
      rename_i hsame
      exact ⟨h.name, h.custom.trans (Parallel.same_iff.1 hsame).symm⟩
    · exact ⟨htold.name, htold.custom.trans hcustom⟩

theorem shows_setName {m : Member} {player : Player} (h : m.Shows player)
    (hclean : Clean player.mCustomProperties) (name : JString) :
    ((player.setName name).2.elim m m.told).Shows (player.setName name).1 := by
  unfold Player.setName
  by_cases hname : player.mName = name
  · rw [if_pos hname]
    exact h
  · rw [if_neg hname]
    refine ⟨rfl, ?_⟩
    funext key
    show Option.filter _ ((if key.isCustom = true then
      (Parallel.empty.put (.byte Properties.Player.PLAYERNAME) (.jstring name)).lookup key
        else none).or (m.custom key)) = player.mCustomProperties.lookup key
    rw [h.custom]
    have hput : (if key.isCustom = true then
        (Parallel.empty.put (.byte Properties.Player.PLAYERNAME) (Value.jstring name)).lookup key
          else none) = none := by
      split
      · rename_i hkey
        rw [Parallel.lookup_put, Function.update_of_ne (ne_byte_of_isCustom hkey _)]
        rfl
      · rfl
    rw [hput, Option.none_or]
    exact filter_lookup_of_clean hclean key

/-- The step lemma: whoever sees the player before a call sees it after the call, if it is told what
the call sends. -/
theorem shows_call {m : Member} {player : Player} (h : m.Shows player)
    (hclean : Clean player.mCustomProperties) (c : PlayerCall) :
    ((player.call c).2.elim m m.told).Shows (player.call c).1 := by
  cases c with
  | mergeCustomProperties customProperties => exact shows_mergeCustomProperties h customProperties
  | addCustomProperties customProperties =>
    exact shows_mergeCustomProperties h (stripKeysWithNullValues customProperties)
  | setName name => exact shows_setName h hclean name

/-! ## joining -/

theorem clean_joined (player : Player) (nr : Int) (userID : JString) :
    Clean (player.joined nr userID).mCustomProperties := Players.clean_create nr _

theorem Shows.new (nr : Int) : Member.new.Shows (Player.init nr) := ⟨rfl, rfl⟩

/-- What it joins with shows what it makes of itself. -/
theorem shows_joined (player : Player) (nr : Int) (userID : JString) :
    (Member.new.told player.joinProperties).Shows (player.joined nr userID) := by
  have hproperties (key : Key) (hkey : key.isCustom = true) :
      player.joinProperties.lookup key = player.mCustomProperties.lookup key := by
    unfold Player.joinProperties
    simp only
    split
    · rw [Parallel.lookup_put, Function.update_of_ne (ne_byte_of_isCustom hkey _),
        lookup_stripToCustomProperties, if_pos hkey]
    · rw [lookup_stripToCustomProperties, if_pos hkey]
  have hname : player.joinProperties.lookup (.byte Properties.Player.PLAYERNAME)
      = if player.mName.length ≠ 0 then some (.jstring player.mName) else none := by
    unfold Player.joinProperties
    simp only
    split
    · rw [Parallel.lookup_put, Function.update_self]
    · rw [lookup_stripToCustomProperties]
      rfl
  have hne : Key.byte Properties.Player.PLAYERNAME ≠ .byte Properties.Player.USER_ID := by decide
  apply (Shows.new nr).told
  · unfold cached Hashtable.getValue
    rw [hname, Parallel.lookup_put, Function.update_of_ne hne, Parallel.lookup_put,
      Function.update_self]
    by_cases hlength : player.mName.length = 0
    · rw [if_neg (not_not_intro hlength)]
      exact (List.length_eq_zero_iff.1 hlength).symm
    · rw [if_pos hlength]
  · intro key hkey
    rw [hproperties key hkey, Parallel.lookup_put, Parallel.lookup_put,
      Function.update_of_ne (ne_byte_of_isCustom hkey _),
      Function.update_of_ne (ne_byte_of_isCustom hkey _)]

/-! ## runs -/

/-- After some of what was sent the player is seen as it was after some of the calls. -/
theorem shows_prefix {m : Member} {player : Player} (h : m.Shows player)
    (hclean : Clean player.mCustomProperties) (calls : List PlayerCall) {told : List Properties}
    (hsent : told <+: player.sent calls) :
    ∃ k ≤ calls.length,
      (Runs.run Member.told m told).Shows (Contract.final Player.call player (calls.take k))
        ∧ (told = player.sent calls → k = calls.length) := by
  induction calls generalizing m player told with
  | nil =>
    obtain rfl : told = [] := List.prefix_nil.1 hsent
    exact ⟨0, Nat.le_refl 0, h, fun _ => rfl⟩
  | cons c calls ih =>
    have hstep := shows_call h hclean c
    have hclean' := clean_call hclean c
    cases hout : (player.call c).2 with
    | none =>
      have hsame : player.sent (c :: calls) = (player.call c).1.sent calls := by
        show List.filterMap _ (_ :: _) = _
        rw [List.filterMap_cons, hout]
        rfl
      rw [hout] at hstep
      rw [hsame] at hsent ⊢
      obtain ⟨k, hk, hshows, hall⟩ := ih hstep hclean' hsent
      exact ⟨k + 1, Nat.succ_le_succ hk, hshows, fun heq => congrArg Nat.succ (hall heq)⟩
    | some properties =>
      have hmore : player.sent (c :: calls) = properties :: (player.call c).1.sent calls := by
        show List.filterMap _ (_ :: _) = _
        rw [List.filterMap_cons, hout]
        rfl
      rw [hout] at hstep
      rw [hmore] at hsent ⊢
      cases told with
      | nil => exact ⟨0, Nat.zero_le _, h, fun heq => by cases heq⟩
      | cons first told =>
        obtain ⟨rfl, hrest⟩ := List.cons_prefix_cons.1 hsent
        obtain ⟨k, hk, hshows, hall⟩ := ih hstep hclean' hrest
        refine ⟨k + 1, Nat.succ_le_succ hk, hshows, fun heq => ?_⟩
        exact congrArg Nat.succ (hall (List.cons_eq_cons.1 heq).2)

/-! ## another client -/

/-- The player an event is about; of changed properties that is 0 if they are the room's. -/
def RoomEvent.about : RoomEvent → Int
  | .join nr _ _ => nr
  | .leave nr _ _ => nr
  | .propertiesChanged target _ => target

def RoomEvent.changeOf (nr : Int) : RoomEvent → Option Properties
  | .propertiesChanged target properties => if target = nr then some properties else none
  | .join _ _ _ => none
  | .leave _ _ _ => none

/-- The changes of a player among the events. -/
def changesOf (nr : Int) (es : List RoomEvent) : List Properties :=
  es.filterMap (RoomEvent.changeOf nr)

theorem changeOf_of_ne {e : RoomEvent} {nr : Int} (h : e.about ≠ nr) : e.changeOf nr = none := by
  cases e with
  | join n properties playerList => rfl
  | leave n isInactive masterClientID => rfl
  | propertiesChanged target properties => exact if_neg h

theorem members_after_of_ne {s : RoomState} {e : RoomEvent} {nr : Int} (h : e.about ≠ nr) :
    (s.after e).members nr = s.members nr := by
  cases e with
  | join n properties playerList => exact Function.update_of_ne (Ne.symm h) _ _
  | leave n isInactive masterClientID => exact Function.update_of_ne (Ne.symm h) _ _
  | propertiesChanged target properties =>
    show RoomState.members (if _ then _ else _) nr = _
    split
    · exact Function.update_of_ne (Ne.symm h) _ _
    · rfl

/-- Of a player that neither joins nor leaves the room knows what its changes tell. -/
theorem members_run {s : RoomState} {nr : Int} (hnr : nr ≠ 0) {es : List RoomEvent}
    (hstays : ∀ e ∈ es, e.about = nr → ∃ properties, e = .propertiesChanged nr properties) :
    (Runs.run RoomState.after s es).members nr
      = (s.members nr).map fun m => Runs.run Member.told m (changesOf nr es) := by
  induction es generalizing s with
  | nil => exact Option.map_id'.symm
  | cons e es ih =>
    rw [Runs.run_cons, ih fun e' he' => hstays e' (List.mem_cons_of_mem e he')]
    by_cases habout : e.about = nr
    · obtain ⟨properties, rfl⟩ := hstays e List.mem_cons_self habout
      have hmore : changesOf nr (.propertiesChanged nr properties :: es)
          = properties :: changesOf nr es := List.filterMap_cons_some (if_pos rfl)
      have hafter : (s.after (.propertiesChanged nr properties)).members nr
          = (s.members nr).map (·.told properties) := by
        show RoomState.members (if _ then _ else _) nr = _
        rw [if_pos hnr]
        exact Function.update_self ..
      rw [hmore, hafter, Option.map_map]
      rfl
    · have hsame : changesOf nr (e :: es) = changesOf nr es :=
        List.filterMap_cons_none (changeOf_of_ne habout)
      rw [hsame, members_after_of_ne habout]

/-- **Another client sees the player as it was after some of its calls**: a player joins a room with
what it has made of itself until then and goes on changing itself; a client that was there before
is told that it joined and, among whatever else happens, of its first changes.  Then that client sees
its name and its custom properties as they were after some of its calls, and if it has been told of
all the changes, as they are. -/
theorem shown_to_others (player : Player) (nr : Int) (userID : JString) (calls : List PlayerCall)
    {g : GameRoom} {s : RoomState} (hsees : Sees g s) (hother : nr ≠ g.mLocalPlayerNumber)
    (hnr : nr ≠ 0) (hnew : s.members nr = none) (playerList : List Int) (es : List RoomEvent)
    (hstays : ∀ e ∈ es, e.about = nr → ∃ properties, e = .propertiesChanged nr properties)
    (htold : changesOf nr es <+: (player.joined nr userID).sent calls) :
    ∃ k ≤ calls.length, ∃ m,
      (Contract.final GameRoom.onEvent g (.join nr player.joinProperties playerList :: es)).mPlayers.seen
          nr = some m
        ∧ m.Shows (Contract.final Player.call (player.joined nr userID) (calls.take k))
        ∧ (changesOf nr es = (player.joined nr userID).sent calls → k = calls.length) := by
  obtain ⟨k, hk, hshows, hall⟩ := shows_prefix (shows_joined player nr userID)
    (clean_joined player nr userID) calls htold
  refine ⟨k, hk, _, ?_, hshows, hall⟩
  obtain ⟨hfinal, hown⟩ := sees_run hsees (.join nr player.joinProperties playerList :: es)
  rw [hfinal.members nr (hown ▸ hother), Runs.run_cons, members_run hnr hstays]
  have hjoined : (s.after (.join nr player.joinProperties playerList)).members nr
      = some (Member.new.told player.joinProperties) := by
    show Function.update s.members nr (some (Member.entered (s.members nr) _)) nr = _
    rw [Function.update_self, hnew]
    rfl
  rw [hjoined]
  rfl

/-- Player 2 joins player 1 as b, calls itself c and then d, and player 1 has been told of c. -/
theorem shown_to_others_renamed :
    let player : Player := { Player.init (-1) with mName := ['b'] }
    let calls : List PlayerCall := [.setName ['c'], .setName ['c'], .setName ['d']]
    let renamed : Properties :=
      Parallel.empty.put (.byte Properties.Player.PLAYERNAME) (.jstring ['c'])
    let master : Properties :=
      Parallel.empty.put (.byte Properties.Room.MASTER_CLIENT_ID) (.int 1)
    let g := (GameRoom.onJoined (MutableRoom.ofName ['r'] Parallel.empty []) Parallel.empty
      ⟨1, master, Parallel.empty, [1]⟩).1
    let es : List RoomEvent := [.propertiesChanged 0 Parallel.empty, .propertiesChanged 2 renamed]
    ∃ k ≤ calls.length, ∃ m,
      (Contract.final GameRoom.onEvent g (.join 2 player.joinProperties [1, 2] :: es)).mPlayers.seen 2
          = some m
        ∧ m.Shows (Contract.final Player.call (player.joined 2 []) (calls.take k))
        ∧ (changesOf 2 es = (player.joined 2 []).sent calls → k = calls.length) := by
  intro player calls renamed master g es
  have hdescribes : JoinResponse.Describes ⟨1, master, Parallel.empty, [1]⟩
      ⟨fun nr => if nr = 1 then some Member.new else none, 1⟩ := by
    refine ⟨rfl, fun nr hnr => ?_⟩
    have hne : nr ≠ 1 := hnr
    simp [hne]
  obtain ⟨hsees, -⟩ :=
    sees_joined (MutableRoom.ofName ['r'] Parallel.empty []) Parallel.empty hdescribes
  apply shown_to_others player 2 [] calls hsees (by decide) (by decide) rfl
  · intro e he habout
    obtain rfl | he := List.mem_cons.1 he
    · cases habout
    · exact ⟨renamed, List.mem_singleton.1 he⟩
  · exact ⟨[Parallel.empty.put (.byte Properties.Player.PLAYERNAME) (.jstring ['d'])], rfl⟩

end Photon
