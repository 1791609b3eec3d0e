import Fiesta.Photon.MutableRoom

/-!
# The players of a room

* `Player`, `Player.cacheProperties`   a player as the others keep it;
* `Players.enter`, `Players.remove`    players that come and go;
* `Member`, `Players.seen`             what is known of the player with a number;
* `seen_enter`, `seen_remove`          what changes when one comes or goes, and that nothing else does.
-/

namespace Photon

open Common

/-! ## players -/

structure Player where
  mNumber : Int
  mName : JString
  mUserID : JString
  mIsInactive : Bool
  mCustomProperties : Properties

def Player.cacheProperties (player : Player) (properties : Properties) : Player :=
  { player with
    mName := cached Value.toJString Properties.Player.PLAYERNAME player.mName properties
    mIsInactive := cached Value.toBool Properties.Player.IS_INACTIVE player.mIsInactive properties
    mUserID := cached Value.toJString Properties.Player.USER_ID player.mUserID properties
    mCustomProperties := cacheCustom player.mCustomProperties properties }

/-- The members of a player before its constructor caches the properties. -/
def Player.init (number : Int) : Player := ⟨number, [], [], false, Parallel.empty⟩

def Player.create (number : Int) (properties : Properties) : Player :=
  (Player.init number).cacheProperties properties

/-- `mPlayers`, and the functions that look through it. -/
abbrev Players := List Player

namespace Players

/-- `MutableRoom::getPlayerForNumber` -/
def getPlayerForNumber (players : Players) (playerNumber : Int) : Option Player :=
  players.find? fun player => decide (player.mNumber = playerNumber)

/-- `PlayerPropertiesUpdateInformant::onUpdate` -/
def onUpdate (players : Players) (number : Int) (properties : Properties) : Players :=
  players.map fun player =>
    if player.mNumber = number then player.cacheProperties properties else player

/-- `PlayerPropertiesUpdateInformant::setIsInactive` -/
def setIsInactive (number : Int) (isInactive : Bool) : Players → Players
  | [] => []
  | player :: players =>
    if player.mNumber = number then { player with mIsInactive := isInactive } :: players
    else player :: setIsInactive number isInactive players

/-- `PlayerMovementInformant::onEnterRemote` -/
def enter (players : Players) (number : Int) (properties : Properties) : Players :=
  if (players.getPlayerForNumber number).isSome then
    onUpdate (setIsInactive number false players) number properties
  else players ++ [Player.create number properties]

/-- `MutableRoom::removePlayer` -/
def remove (number : Int) : Players → Players
  | [] => []
  | player :: players =>
    if player.mNumber = number then
      match players with
      | [] => []
      | next :: rest => next :: remove number rest
    else player :: remove number players

def numbers (players : Players) : List Int := players.map Player.mNumber

end Players

/-! ## what is known of a player -/

/-- What the others know of a player. -/
@[ext] structure Member where
  name : JString
  userID : JString
  inactive : Bool
  custom : Key → Option Value

namespace Member

def new : Member := ⟨[], [], false, fun _ => none⟩

/-- Known properties are taken over where they are given, custom ones too, and null takes one
away. -/
def told (m : Member) (properties : Properties) : Member where
  name := cached Value.toJString Properties.Player.PLAYERNAME m.name properties
  userID := cached Value.toJString Properties.Player.USER_ID m.userID properties
  inactive := cached Value.toBool Properties.Player.IS_INACTIVE m.inactive properties
  custom key :=
    ((if key.isCustom then properties.lookup key else none).or (m.custom key)).filter
      fun value => decide (value ≠ .null)

/-- A player that comes in, or comes back. -/
def entered (member : Option Member) (properties : Properties) : Member :=
  match member with
  | some m => { m with inactive := false }.told properties
  | none => new.told properties

end Member

def Player.member (player : Player) : Member :=
  ⟨player.mName, player.mUserID, player.mIsInactive, player.mCustomProperties.lookup⟩

/-! ## what is seen of the players -/

namespace Players

/-- What is known of the player with a number. -/
def seen (players : Players) (nr : Int) : Option Member :=
  (players.getPlayerForNumber nr).map Player.member

theorem member_cacheProperties (player : Player) (properties : Properties) :
    (player.cacheProperties properties).member = player.member.told properties := by
  refine Member.ext rfl rfl rfl ?_
  funext key
  exact lookup_cacheCustom player.mCustomProperties properties key

theorem getPlayerForNumber_cons (player : Player) (players : Players) (nr : Int) :
    getPlayerForNumber (player :: players) nr
      = if player.mNumber = nr then some player else getPlayerForNumber players nr := by
  unfold getPlayerForNumber
  rw [List.find?_cons]
  by_cases h : player.mNumber = nr
  · rw [if_pos h, decide_eq_true h]
  · rw [if_neg h, decide_eq_false h]

theorem seen_cons (player : Player) (players : Players) (nr : Int) :
    seen (player :: players) nr
      = if player.mNumber = nr then some player.member else seen players nr := by
  unfold seen
  rw [getPlayerForNumber_cons]
  split <;> rfl

theorem seen_nil (nr : Int) : seen [] nr = none := rfl

theorem seen_append (players players' : Players) (nr : Int) :
    seen (players ++ players') nr = (seen players nr).or (seen players' nr) := by
  induction players with
  | nil => rfl
  | cons player players ih =>
    rw [List.cons_append, seen_cons, seen_cons, ih]
    split <;> rfl

theorem seen_onUpdate (players : Players) (number : Int) (properties : Properties) :
    (players.onUpdate number properties).seen
      = Function.update players.seen number ((players.seen number).map (·.told properties)) := by
  funext nr
  induction players with
  | nil => by_cases h : nr = number <;> simp [onUpdate, seen_nil, Function.update_apply, h]
  | cons player players ih =>
    have htail : seen (onUpdate players number properties) nr = _ := ih
    show seen ((if player.mNumber = number then player.cacheProperties properties else player)
      :: onUpdate players number properties) nr = _
    rw [seen_cons, htail]
    by_cases hn : nr = number
    · subst hn
      by_cases hp : player.mNumber = nr
      · rw [if_pos hp, if_pos (show (player.cacheProperties properties).mNumber = nr from hp),
          Function.update_self, seen_cons, if_pos hp, Option.map_some, member_cacheProperties]
      · rw [if_neg hp, if_neg hp, Function.update_self, Function.update_self, seen_cons, if_neg hp]
    · rw [Function.update_of_ne hn, Function.update_of_ne hn, seen_cons]
      by_cases hp : player.mNumber = number
      · have hne : ¬ player.mNumber = nr := fun h => hn (h.symm.trans hp)
        rw [if_pos hp, if_neg hne, if_neg (show ¬ (player.cacheProperties properties).mNumber = nr
          from hne)]
      · rw [if_neg hp]

theorem seen_setIsInactive (players : Players) (number : Int) (isInactive : Bool) :
    (players.setIsInactive number isInactive).seen
      = Function.update players.seen number
          ((players.seen number).map fun m => { m with inactive := isInactive }) := by
  funext nr
  induction players with
  | nil => by_cases h : nr = number <;> simp [setIsInactive, seen_nil, Function.update_apply, h]
  | cons player players ih =>
    unfold setIsInactive
    by_cases hp : player.mNumber = number
    · rw [if_pos hp, seen_cons]
      by_cases hn : nr = number
      · subst hn
        rw [Function.update_self, seen_cons, if_pos hp,
          if_pos (show ({ player with mIsInactive := isInactive } : Player).mNumber = nr from hp)]
        rfl
      · have hne : ¬ player.mNumber = nr := fun h => hn (h.symm.trans hp)
        rw [Function.update_of_ne hn, seen_cons, if_neg hne,
          if_neg (show ¬ ({ player with mIsInactive := isInactive } : Player).mNumber = nr from hne)]
    · rw [if_neg hp, seen_cons, ih]
      by_cases hn : nr = number
      · subst hn
        rw [Function.update_self, Function.update_self, seen_cons, if_neg hp, if_neg hp]
      · rw [Function.update_of_ne hn, Function.update_of_ne hn, seen_cons]

theorem isSome_seen (players : Players) (nr : Int) :
    (players.getPlayerForNumber nr).isSome = (players.seen nr).isSome := by
  unfold seen
  rw [Option.isSome_map]

theorem seen_enter (players : Players) (number : Int) (properties : Properties) :
    (players.enter number properties).seen
      = Function.update players.seen number
          (some (Member.entered (players.seen number) properties)) := by
  unfold enter
  rw [isSome_seen]
  cases h : players.seen number with
  | some m =>
    rw [if_pos (show (some m).isSome = true from rfl), seen_onUpdate, seen_setIsInactive,
      Function.update_self, Function.update_idem, h]
    rfl
  | none =>
    rw [if_neg (show ¬ (none : Option Member).isSome = true from Bool.false_ne_true)]
    funext nr
    rw [seen_append]
    show (players.seen nr).or (seen [Player.create number properties] nr) = _
    rw [seen_cons]
    by_cases hn : nr = number
    · subst hn
      rw [h, Option.none_or, if_pos (show (Player.create nr properties).mNumber = nr from rfl),
        Function.update_self, Player.create, member_cacheProperties]
      rfl
    · rw [Function.update_of_ne hn,
        if_neg (show ¬ (Player.create number properties).mNumber = nr from fun h => hn h.symm),
        seen_nil, Option.or_none]

/-! ## the numbers -/

theorem numbers_onUpdate (players : Players) (number : Int) (properties : Properties) :
    (players.onUpdate number properties).numbers = players.numbers := by
  unfold numbers onUpdate
  rw [List.map_map]
  refine List.map_congr_left fun player _ => ?_
  show Player.mNumber (if _ then _ else _) = _
  split <;> rfl

theorem numbers_setIsInactive (players : Players) (number : Int) (isInactive : Bool) :
    (players.setIsInactive number isInactive).numbers = players.numbers := by
  induction players with
  | nil => rfl
  | cons player players ih =>
    unfold setIsInactive
    split
    · rfl
    · exact congrArg (player.mNumber :: ·) ih

theorem isSome_getPlayerForNumber (players : Players) (nr : Int) :
    (players.getPlayerForNumber nr).isSome ↔ nr ∈ players.numbers := by
  unfold getPlayerForNumber numbers
  rw [List.find?_isSome, List.mem_map]
  refine exists_congr fun player => and_congr_right fun _ => ?_
  exact decide_eq_true_iff

/-- The numbers change as in the list of numbers that is kept when nothing else of the players
matters. -/
theorem numbers_enter (players : Players) (number : Int) (properties : Properties) :
    (players.enter number properties).numbers = onEnterRemote players.numbers number := by
  unfold enter onEnterRemote
  by_cases h : number ∈ players.numbers
  · rw [if_pos ((isSome_getPlayerForNumber players number).2 h), if_pos h, numbers_onUpdate,
      numbers_setIsInactive]
  · rw [if_neg (fun hs => h ((isSome_getPlayerForNumber players number).1 hs)), if_neg h]
    exact List.map_append

theorem numbers_remove (number : Int) (players : Players) :
    (remove number players).numbers = removePlayer number players.numbers := by
  induction players using remove.induct number with
  | case1 => rfl
  | case2 player hp => simp [remove, hp, numbers, removePlayer]
  | case3 player hp next rest ih =>
    have htail : numbers (remove number rest) = removePlayer number (numbers rest) := ih
    unfold remove
    simp only [hp, if_true]
    show next.mNumber :: numbers (remove number rest)
      = removePlayer number (player.mNumber :: next.mNumber :: numbers rest)
    rw [htail, hp, removePlayer_cons_self]
  | case4 player players hp ih =>
    unfold remove
    rw [if_neg hp]
    show player.mNumber :: numbers (remove number players)
      = removePlayer number (player.mNumber :: numbers players)
    rw [removePlayer_cons_ne hp, ih]

/-- No number twice: the loop that goes on behind a gap misses nobody. -/
theorem seen_remove {players : Players} (hnd : players.numbers.Nodup) (number : Int) :
    (players.remove number).seen = Function.update players.seen number none := by
  funext nr
  induction players using remove.induct number with
  | case1 => by_cases h : nr = number <;> simp [remove, seen_nil, h]
  | case2 player hp =>
    unfold remove
    simp only [hp, if_true]
    by_cases hn : nr = number
    · rw [hn, Function.update_self]
      rfl
    · rw [Function.update_of_ne hn, seen_cons, if_neg fun h => hn (h.symm.trans hp)]
  | case3 player hp next rest ih =>
    have hnext : number ∉ numbers (next :: rest) := hp ▸ (List.nodup_cons.1 hnd).1
    have hrest : (numbers rest).Nodup :=
      (List.nodup_cons.1 (List.nodup_cons.1 hnd).2).2
    unfold remove
    simp only [hp, if_true]
    rw [seen_cons, ih hrest]
    by_cases hn : nr = number
    · subst hn
      have hne : ¬ next.mNumber = nr := fun h => hnext (h ▸ List.mem_cons_self)
      rw [if_neg hne, Function.update_self, Function.update_self]
    · have hne : ¬ player.mNumber = nr := fun h => hn (h.symm.trans hp)
      rw [Function.update_of_ne hn, Function.update_of_ne hn, seen_cons player, if_neg hne,
        seen_cons next]
  | case4 player players hp ih =>
    unfold remove
    rw [if_neg hp, seen_cons, ih (List.nodup_cons.1 hnd).2]
    by_cases hn : nr = number
    · subst hn
      rw [if_neg hp, Function.update_self, Function.update_self]
    · rw [Function.update_of_ne hn, Function.update_of_ne hn, seen_cons]

/-- No custom property of a player is null. -/
def AllClean (players : Players) : Prop := ∀ player ∈ players, Clean player.mCustomProperties

theorem allClean_onUpdate {players : Players} (h : players.AllClean) (number : Int)
    (properties : Properties) : (players.onUpdate number properties).AllClean := by
  intro player hmem
  obtain ⟨old, hold, rfl⟩ := List.mem_map.1 hmem
  split
  · exact clean_cacheCustom (h old hold) properties
  · exact h old hold

theorem allClean_setIsInactive {players : Players} (h : players.AllClean) (number : Int)
    (isInactive : Bool) : (players.setIsInactive number isInactive).AllClean := by
  induction players with
  | nil => exact h
  | cons player players ih =>
    obtain ⟨hplayer, hplayers⟩ := List.forall_mem_cons.1 h
    unfold setIsInactive
    split
    · exact List.forall_mem_cons.2 ⟨hplayer, hplayers⟩
    · exact List.forall_mem_cons.2 ⟨hplayer, ih hplayers⟩

theorem clean_create (number : Int) (properties : Properties) :
    Clean (Player.create number properties).mCustomProperties :=
  clean_cacheCustom clean_empty properties

theorem allClean_enter {players : Players} (h : players.AllClean) (number : Int)
    (properties : Properties) : (players.enter number properties).AllClean := by
  unfold enter
  split
  · exact allClean_onUpdate (allClean_setIsInactive h number false) number properties
  · intro player hmem
    obtain hmem | hmem := List.mem_append.1 hmem
    · exact h player hmem
    · rw [List.mem_singleton.1 hmem]
      exact clean_create number properties

theorem allClean_remove {players : Players} (h : players.AllClean) (number : Int) :
    (players.remove number).AllClean := by
  have hsub : ∀ player ∈ players.remove number, player ∈ players := by
    induction players using remove.induct number with
    | case1 => exact fun player hmem => hmem
    | case2 player hp =>
      intro q hq
      simp [remove, hp] at hq
    | case3 player hp next rest ih =>
      intro q hq
      unfold remove at hq
      simp only [hp, if_true] at hq
      have hrest : AllClean rest := fun q hq =>
        h q (List.mem_cons_of_mem _ (List.mem_cons_of_mem _ hq))
      obtain rfl | hq := List.mem_cons.1 hq
      · exact List.mem_cons_of_mem _ List.mem_cons_self
      · exact List.mem_cons_of_mem _ (List.mem_cons_of_mem _ (ih hrest q hq))
    | case4 player players hp ih =>
      intro q hq
      unfold remove at hq
      rw [if_neg hp] at hq
      have hplayers : AllClean players := fun q hq => h q (List.mem_cons_of_mem _ hq)
      obtain rfl | hq := List.mem_cons.1 hq
      · exact List.mem_cons_self
      · exact List.mem_cons_of_mem _ (ih hplayers q hq)
  exact fun player hmem => h player (hsub player hmem)

/-- An empty table changes nothing. -/
theorem told_of_empty {players : Players} (h : players.AllClean) {properties : Properties}
    (hsize : properties.getSize = 0) (nr : Int) :
    (players.seen nr).map (·.told properties) = players.seen nr := by
  have hlookup (key : Key) : properties.lookup key = none := by
    rw [Parallel.lookup_eq_none, List.length_eq_zero_iff.1 hsize]
    exact List.not_mem_nil
  unfold seen
  cases hget : players.getPlayerForNumber nr with
  | none => rfl
  | some player =>
    have hclean : Clean player.mCustomProperties := h player (List.mem_of_find?_eq_some hget)
    refine congrArg some (Member.ext ?_ ?_ ?_ ?_)
    · simp [Member.told, cached, Hashtable.getValue, hlookup]
    · simp [Member.told, cached, Hashtable.getValue, hlookup]
    · simp [Member.told, cached, Hashtable.getValue, hlookup]
    · funext key
      show Option.filter _ ((if key.isCustom = true then properties.lookup key else none).or
        (player.mCustomProperties.lookup key)) = player.mCustomProperties.lookup key
      rw [hlookup, ite_self, Option.none_or]
      exact filter_lookup_of_clean hclean key

end Players

end Photon
