import Fiesta.Client.Frame
import Fiesta.Lib.Runs
import Mathlib.Algebra.BigOperators.Group.List.Basic
import Mathlib.Algebra.Order.Ring.Rat
import Mathlib.Data.List.Infix
import Mathlib.Tactic.Linarith

/-!
# Runs of the frame loop

* `clocksAfter`, `commandsOf`   what a run leaves of the clocks, and the calls it makes;
* `frame_clocks`                what a frame does to the two clocks;
* `FollowsClock`                every update of every frame gets the time that has passed;
* `follows_clock_iff`           when that is so.
-/

namespace Game

/-- One turn of the loop, with the state that `Tick` has brought the network to. -/
structure Pass where
  net : Net
  inp : FrameInput

def clocksAfter (c : Clocks) (passes : List Pass) : Clocks :=
  Runs.run (fun c p => (frame p.net c p.inp).1) c passes

def commandsOf (c : Clocks) : List Pass → List Command
  | [] => []
  | p :: passes => (frame p.net c p.inp).2 ++ commandsOf (frame p.net c p.inp).1 passes

theorem clocksAfter_snoc (c : Clocks) (passes : List Pass) (p : Pass) :
    clocksAfter c (passes ++ [p]) = (frame p.net (clocksAfter c passes) p.inp).1 :=
  Runs.run_snoc ..

theorem commandsOf_snoc (c : Clocks) (passes : List Pass) (p : Pass) :
    commandsOf c (passes ++ [p])
      = commandsOf c passes ++ (frame p.net (clocksAfter c passes) p.inp).2 := by
  induction passes generalizing c with
  | nil =>
    show _ ++ [] = _
    rw [List.append_nil]
    rfl
  | cons q passes ih =>
    rw [List.cons_append, commandsOf, commandsOf, ih, List.append_assoc]
    rfl

/-! ## the clocks after a frame -/

/-- The two shooting branches touch the shoot clock alone, and one of them at most is taken. -/
theorem frame_clocks (net : Net) (c : Clocks) (inp : FrameInput) :
    (frame net c inp).1 = ⟨inp.deltaRestart,
      if (drivenBy net.getLocalPlayerNr).isSome ∧ mayShoot c inp then inp.shootRestart
      else c.shootClock⟩ := by
  have hshoot : ∀ t, (shooting t c inp).1
      = ⟨c.deltaClock, if mayShoot c inp then inp.shootRestart else c.shootClock⟩ := by
    intro t
    unfold shooting
    split <;> rfl
  unfold frame drivenBy
  by_cases h1 : net.getLocalPlayerNr = 1
  · have h2 : net.getLocalPlayerNr ≠ 2 := by
      rw [h1]
      decide
    simp only [if_pos h1, if_neg h2, hshoot, Option.isSome_some, true_and]
  · by_cases h2 : net.getLocalPlayerNr = 2
    · simp only [if_neg h1, if_pos h2, hshoot, Option.isSome_some, true_and]
    · simp only [if_neg h1, if_neg h2, Option.isSome_none, Bool.false_eq_true, false_and, if_false]

/-! ## the times handed out -/

/-- The time a call gives to the world (`none`) or to one of the tanks. -/
def Command.given (receiver : Option Tank) : Command → Option ℚ
  | .worldUpdate dt => if receiver = none then some dt else none
  | .update tank dt => if receiver = some tank then some dt else none
  | _ => none

def given (receiver : Option Tank) (cmds : List Command) : List ℚ :=
  cmds.filterMap (Command.given receiver)

theorem given_append (receiver : Option Tank) (cmds more : List Command) :
    given receiver (cmds ++ more) = given receiver cmds ++ given receiver more :=
  List.filterMap_append ..

/-- The reading of the delta clock that an update is computed from. -/
def FrameInput.reading (inp : FrameInput) : Option Tank → ℚ
  | none => inp.worldTime
  | some .player => inp.playerTime
  | some .player2 => inp.player2Time

/-- **A frame updates the world and each tank once, with the time since the restart.** -/
theorem given_frame (receiver : Option Tank) (net : Net) (c : Clocks) (inp : FrameInput) :
    given receiver (frame net c inp).2 = [inp.reading receiver - c.deltaClock] := by
  have hshoot : ∀ t, given receiver (shooting t c inp).2 = [] := by
    intro t
    unfold shooting
    split <;> rfl
  have hupdates : given receiver [.update .player (inp.playerTime - c.deltaClock),
      .update .player2 (inp.player2Time - c.deltaClock)]
      = if receiver = none then [] else [inp.reading receiver - c.deltaClock] := by
    rcases receiver with _ | _ | _ <;> rfl
  have hworld : given receiver [.worldUpdate (inp.worldTime - c.deltaClock)]
      = if receiver = none then [inp.reading receiver - c.deltaClock] else [] := by
    rcases receiver with _ | _ <;> rfl
  have hboth : given receiver [.worldUpdate (inp.worldTime - c.deltaClock),
      .update .player (inp.playerTime - c.deltaClock),
      .update .player2 (inp.player2Time - c.deltaClock)]
      = [inp.reading receiver - c.deltaClock] := by
    rcases receiver with _ | _ | _ <;> rfl
  rw [frame_commands]
  cases drivenBy net.getLocalPlayerNr with
  | none => exact hboth
  | some t =>
    have hsteer : given receiver (steering t (net.my.getDirection net.getRemotePlayerNr) inp) = [] :=
      rfl
    have hpublish : given receiver (publishing (inp.shown t)) = [] := rfl
    simp only [given_append, hshoot, hsteer, hpublish, hworld, hupdates, List.append_nil]
    split <;> rfl

theorem given_snoc (receiver : Option Tank) (c : Clocks) (passes : List Pass) (p : Pass) :
    given receiver (commandsOf c (passes ++ [p]))
      = given receiver (commandsOf c passes)
        ++ [p.inp.reading receiver - (clocksAfter c passes).deltaClock] := by
  rw [commandsOf_snoc, given_append, given_frame]

/-! ## the clock -/

/-- After the frame every receiver has been given, in all, the time since the clock `c`. -/
def InStep (c : Clocks) (past : List Pass) (p : Pass) : Prop :=
  (∃ dt, ∀ receiver, given receiver (frame p.net (clocksAfter c past) p.inp).2 = [dt])
    ∧ ∀ receiver, (given receiver (commandsOf c (past ++ [p]))).sum
      = p.inp.worldTime - c.deltaClock

def FollowsClock (c : Clocks) (passes : List Pass) : Prop := Runs.AtEach (InStep c) passes

/-- The clock is read at one instant for all three updates. -/
def Pass.ReadOnce (p : Pass) : Prop := ∀ receiver, p.inp.reading receiver = p.inp.worldTime

/-- No time passes between that and the restart. -/
def Pass.RestartedThen (p : Pass) : Prop := p.inp.deltaRestart = p.inp.worldTime

theorem common_iff (c : Clocks) (past : List Pass) (p : Pass) :
    (∃ dt, ∀ receiver, given receiver (frame p.net (clocksAfter c past) p.inp).2 = [dt])
      ↔ p.ReadOnce := by
  simp only [given_frame, List.singleton_inj]
  refine ⟨?_, ?_⟩
  · rintro ⟨dt, hdt⟩ receiver
    have hworld : p.inp.worldTime - (clocksAfter c past).deltaClock = dt := hdt none
    linarith [hdt receiver]
  · intro hread
    exact ⟨_, fun receiver => by rw [hread]⟩

/-- In step after one more frame: the clock must have been restarted at the reading before. -/
theorem inStep_iff {c : Clocks} {past : List Pass} {p : Pass} {total : ℚ}
    (htotal : ∀ receiver, (given receiver (commandsOf c past)).sum = total) :
    InStep c past p
      ↔ p.ReadOnce ∧ total = (clocksAfter c past).deltaClock - c.deltaClock := by
  unfold InStep
  rw [common_iff]
  refine and_congr_right fun hread => ?_
  simp only [given_snoc, List.sum_append, List.sum_singleton, htotal, hread _]
  refine ⟨?_, ?_⟩
  · intro h
    linarith [h none]
  · intro h receiver
    linarith

/-- Once in step the next frame is when the clock was restarted at the reading. -/
theorem inStep_next {c : Clocks} {past : List Pass} {q : Pass} (hq : InStep c past q) (p : Pass) :
    InStep c (past ++ [q]) p ↔ p.ReadOnce ∧ q.RestartedThen := by
  rw [inStep_iff hq.2, clocksAfter_snoc, frame_clocks]
  refine and_congr_right fun _ => ?_
  show q.inp.worldTime - c.deltaClock = q.inp.deltaRestart - c.deltaClock ↔ _
  rw [sub_left_inj, eq_comm]
  rfl

/-- **The simulation follows the clock exactly when no frame lets time pass between its readings,
and none but the last between them and the restart.** -/
theorem follows_clock_iff (c : Clocks) (passes : List Pass) :
    FollowsClock c passes
      ↔ (∀ p ∈ passes, p.ReadOnce) ∧ ∀ p ∈ passes.dropLast, p.RestartedThen := by
  unfold FollowsClock
  induction passes using List.reverseRecOn with
  | nil => simp [Runs.atEach_nil]
  | append_singleton passes p ih =>
    rw [Runs.atEach_snoc, List.dropLast_concat, List.forall_mem_append, List.forall_mem_singleton]
    rcases List.eq_nil_or_concat passes with rfl | ⟨past, q, rfl⟩
    · have hfirst : InStep c [] p ↔ p.ReadOnce ∧ (0 : ℚ) = c.deltaClock - c.deltaClock :=
        inStep_iff fun _ => rfl
      rw [hfirst, sub_self]
      simp [Runs.atEach_nil]
    · rw [List.concat_eq_append] at *
      rw [List.dropLast_concat] at ih
      have hnext : Runs.AtEach (InStep c) (past ++ [q])
          → (InStep c (past ++ [q]) p ↔ p.ReadOnce ∧ q.RestartedThen) := fun h =>
        inStep_next (Runs.atEach_snoc.1 h).2 p
      rw [and_congr_right hnext, ih]
      simp only [List.forall_mem_append, List.forall_mem_singleton]
      tauto

/-! ## time goes by in a frame -/

/-- The readings of the delta clock, in the order the loop makes them. -/
def Pass.readings (p : Pass) : List ℚ :=
  [p.inp.worldTime, p.inp.playerTime, p.inp.player2Time, p.inp.deltaRestart]

/-- No clock runs backwards. -/
def NeverBack (c : Clocks) (passes : List Pass) : Prop :=
  (c.deltaClock :: passes.flatMap Pass.readings).Pairwise (· ≤ ·)

/-- A frame whose updates read the clock at `t`, and which restarts it at `t'`. -/
def passAt (t t' : ℚ) : Pass :=
  ⟨Net.new, { FrameInput.still with
    worldTime := t, playerTime := t, player2Time := t, deltaRestart := t' }⟩

/-- The second between the readings and the restart is lost. -/
theorem follows_clock_fails :
    ¬ ∀ (c : Clocks) (passes : List Pass), NeverBack c passes → FollowsClock c passes := by
  intro h
  have hmono : NeverBack ⟨0, 0⟩ [passAt 1 2, passAt 3 3] := by
    show List.Pairwise (· ≤ ·) [(0 : ℚ), 1, 1, 1, 2, 3, 3, 3, 3]
    norm_num
  have hstep : InStep ⟨0, 0⟩ [passAt 1 2] (passAt 3 3) :=
    h _ _ hmono [passAt 1 2] (passAt 3 3) (List.prefix_refl _)
  have hsum : (1 - 0 : ℚ) + (3 - 2 + 0) = 3 - 0 := hstep.2 none
  norm_num at hsum

end Game
