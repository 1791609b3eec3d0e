import Fiesta.Client.MyClient
import Mathlib.Data.List.TakeWhile
import Mathlib.Data.Rat.Defs

/-!
# One pass through the frame loop

The loop of `main` after `NetworkManager::Tick`, as the calls it makes on the physics world, the
two tanks and the Photon client.  What it reads of the window, the keyboard, the mouse, the clocks
and the physics is an input of the frame.

* `frame`            the calls of one pass, in order, and the clocks after it;
* `drivenBy`         the tank a local number drives;
* `frame_commands`   the four tests on the local number agree on it.
-/

namespace Game

open Photon Strtof Binary32

inductive Tank where
  | player
  | player2
deriving DecidableEq

def Tank.other : Tank → Tank
  | .player => .player2
  | .player2 => .player

/-- The position the tank was constructed with. -/
def Tank.spawn : Tank → Vector2f
  | .player => ⟨Single.ofNat 100, Single.ofNat 100⟩
  | .player2 => ⟨Single.ofNat 300, Single.ofNat 300⟩

inductive Command where
  | worldUpdate (dt : ℚ)
  | shoot (tank : Tank) (mouseWorldPos playerPos : Vector2f)
  | move (tank : Tank) (directionX directionY : Int)
  | pos (tank : Tank) (p : Vector2f)
  | update (tank : Tank) (dt : ℚ)
  | opRaiseEvent (reliable : Bool) (content : Object) (eventCode : NByte)

/-- The instants the two clocks were last restarted. -/
structure Clocks where
  deltaClock : ℚ
  shootClock : ℚ

/-- What one frame reads: the times are the instants of the clock calls, `aimed` and `shown` what
`GetPosition` returns when the tank shoots and when its position is published. -/
structure FrameInput where
  closed : Bool
  hasFocus : Bool
  keyW : Bool
  keyS : Bool
  keyA : Bool
  keyD : Bool
  mouseLeft : Bool
  mouseWorldPos : Vector2f
  aimed : Tank → Vector2f
  shown : Tank → Vector2f
  worldTime : ℚ
  shootTime : ℚ
  shootRestart : ℚ
  playerTime : ℚ
  player2Time : ℚ
  deltaRestart : ℚ

/-- Nobody touches anything, and no time passes. -/
def FrameInput.still : FrameInput where
  closed := false
  hasFocus := true
  keyW := false
  keyS := false
  keyA := false
  keyD := false
  mouseLeft := false
  mouseWorldPos := ⟨Single.ofNat 0, Single.ofNat 0⟩
  aimed := Tank.spawn
  shown := Tank.spawn
  worldTime := 0
  shootTime := 0
  shootRestart := 0
  playerTime := 0
  player2Time := 0
  deltaRestart := 0

/-! ## the loop body -/

def shootCooldown : ℚ := 1

def directionX (inp : FrameInput) : Int :=
  let directionX := 0
  let directionX := if inp.hasFocus && inp.keyA then -1 else directionX
  if inp.hasFocus && inp.keyD then 1 else directionX

def directionY (inp : FrameInput) : Int :=
  let directionY := 0
  let directionY := if inp.hasFocus && inp.keyW then -1 else directionY
  if inp.hasFocus && inp.keyS then 1 else directionY

def mayShoot (c : Clocks) (inp : FrameInput) : Prop :=
  inp.mouseLeft = true ∧ shootCooldown ≤ inp.shootTime - c.shootClock

instance (c : Clocks) (inp : FrameInput) : Decidable (mayShoot c inp) :=
  inferInstanceAs (Decidable (_ ∧ _))

/-- One of the two shooting branches. -/
def shooting (tank : Tank) (c : Clocks) (inp : FrameInput) : Clocks × List Command :=
  if mayShoot c inp then
    ({ c with shootClock := inp.shootRestart }, [.shoot tank inp.mouseWorldPos (inp.aimed tank)])
  else (c, [])

/-- One of the two branches that move a tank and set the other one. -/
def steering (tank : Tank) (otherDir : Vector2f) (inp : FrameInput) : List Command :=
  [.move tank (directionX inp) (directionY inp), .pos tank.other otherDir]

/-- `"%f,%f"` -/
def positionText (p : Vector2f) : List Char := sixDecimals p.x ++ ',' :: sixDecimals p.y

/-- What `snprintf` leaves in the 64 bytes of `buf`. -/
def buf (p : Vector2f) : List Char := (positionText p).take 63

/-- No NUL is printed, so the receiver's text is all of it. -/
theorem cstr_buf (p : Vector2f) : cstr (buf p) = buf p := by
  unfold cstr
  rw [List.takeWhile_eq_self_iff]
  intro c hc
  rw [decide_eq_true_iff]
  rintro rfl
  rcases List.mem_append.1 (List.mem_of_mem_take hc) with hc | hc
  · exact notMem_sixDecimals (by decide) p.x hc
  · rcases List.mem_cons.1 hc with hc | hc
    · exact absurd hc (by decide)
    · exact notMem_sixDecimals (by decide) p.y hc

/-- One of the two branches that publish a position. -/
def publishing (p : Vector2f) : List Command :=
  let jsDir : JString := buf p
  [.opRaiseEvent false (.jstring jsDir) 2]

def frame (net : Net) (c : Clocks) (inp : FrameInput) : Clocks × List Command :=
  let remoteNr := net.getRemotePlayerNr
  let LocalNr := net.getLocalPlayerNr
  let world := [.worldUpdate (inp.worldTime - c.deltaClock)]
  let shot1 := if LocalNr = 1 then shooting .player c inp else (c, [])
  let shot2 := if LocalNr = 2 then shooting .player2 shot1.1 inp else (shot1.1, [])
  let otherDir := net.my.getDirection remoteNr
  let moved1 := if LocalNr = 1 then steering .player otherDir inp else []
  let moved2 := if LocalNr = 2 then steering .player2 otherDir inp else []
  let updated := [.update .player (inp.playerTime - c.deltaClock),
    .update .player2 (inp.player2Time - c.deltaClock)]
  let published1 := if LocalNr = 1 then publishing (inp.shown .player) else []
  let published2 := if LocalNr = 2 then publishing (inp.shown .player2) else []
  ({ shot2.1 with deltaClock := inp.deltaRestart },
    world ++ shot1.2 ++ shot2.2 ++ moved1 ++ moved2 ++ updated ++ published1 ++ published2)

/-! ## the driven tank -/

def drivenBy (localNr : Int) : Option Tank :=
  if localNr = 1 then some .player else if localNr = 2 then some .player2 else none

theorem drivenBy_one : drivenBy 1 = some .player := rfl
theorem drivenBy_two : drivenBy 2 = some .player2 := rfl

theorem drivenBy_eq_none {n : Int} : drivenBy n = none ↔ n ≠ 1 ∧ n ≠ 2 := by
  unfold drivenBy
  split
  · rename_i h
    simp [h]
  · split
    · rename_i h
      simp [h]
    · rename_i h1 h2
      simp [h1, h2]

/-- **Shooting, moving, following and publishing agree on one tank, or there is none of them.** -/
theorem frame_commands (net : Net) (c : Clocks) (inp : FrameInput) :
    (frame net c inp).2
      = match drivenBy net.getLocalPlayerNr with
        | some t =>
          [.worldUpdate (inp.worldTime - c.deltaClock)] ++ (shooting t c inp).2
            ++ steering t (net.my.getDirection net.getRemotePlayerNr) inp
            ++ [.update .player (inp.playerTime - c.deltaClock),
              .update .player2 (inp.player2Time - c.deltaClock)]
            ++ publishing (inp.shown t)
        | none =>
          [.worldUpdate (inp.worldTime - c.deltaClock),
            .update .player (inp.playerTime - c.deltaClock),
            .update .player2 (inp.player2Time - c.deltaClock)] := by
  unfold frame drivenBy
  by_cases h1 : net.getLocalPlayerNr = 1
  · have h2 : net.getLocalPlayerNr ≠ 2 := by
      rw [h1]
      decide
    simp only [if_pos h1, if_neg h2, List.append_nil]
  · by_cases h2 : net.getLocalPlayerNr = 2
    · simp only [if_neg h1, if_pos h2, List.append_nil]
    · simp only [if_neg h1, if_neg h2, List.append_nil]
      rfl

/-- What a client that drives `t` does in a frame, and nothing else of the kind. -/
structure Drives (t : Tank) (net : Net) (c : Clocks) (inp : FrameInput)
    (cmds : List Command) : Prop where
  moves : ∀ u x y, .move u x y ∈ cmds ↔ u = t ∧ x = directionX inp ∧ y = directionY inp
  shoots : ∀ u m p, .shoot u m p ∈ cmds
    ↔ mayShoot c inp ∧ u = t ∧ m = inp.mouseWorldPos ∧ p = inp.aimed t
  follows : ∀ u p, .pos u p ∈ cmds
    ↔ u = t.other ∧ p = net.my.getDirection net.getRemotePlayerNr
  publishes : ∀ reliable content code, .opRaiseEvent reliable content code ∈ cmds
    ↔ reliable = false ∧ content = .jstring (buf (inp.shown t)) ∧ code = 2

/-- What a client that drives no tank does not do. -/
structure Idle (cmds : List Command) : Prop where
  moves : ∀ u x y, .move u x y ∉ cmds
  shoots : ∀ u m p, .shoot u m p ∉ cmds
  follows : ∀ u p, .pos u p ∉ cmds
  publishes : ∀ reliable content code, .opRaiseEvent reliable content code ∉ cmds

theorem mem_shooting {t : Tank} {c : Clocks} {inp : FrameInput} {cmd : Command} :
    cmd ∈ (shooting t c inp).2
      ↔ mayShoot c inp ∧ cmd = .shoot t inp.mouseWorldPos (inp.aimed t) := by
  unfold shooting
  split
  · rename_i h
    simp [h]
  · rename_i h
    simp [h]

theorem frame_drives {net : Net} {t : Tank} (h : drivenBy net.getLocalPlayerNr = some t)
    (c : Clocks) (inp : FrameInput) : Drives t net c inp (frame net c inp).2 := by
  rw [frame_commands, h]
  refine ⟨?_, ?_, ?_, ?_⟩
  · intro u x y
    simp [mem_shooting, steering, publishing]
  · intro u m p
    simp [mem_shooting, steering, publishing]
  · intro u p
    simp [mem_shooting, steering, publishing]
  · intro reliable content code
    simp [mem_shooting, steering, publishing]

theorem frame_idle {net : Net} (h : drivenBy net.getLocalPlayerNr = none) (c : Clocks)
    (inp : FrameInput) : Idle (frame net c inp).2 := by
  rw [frame_commands, h]
  constructor <;> intros <;> simp

end Game
