import Fiesta.Client.Lifetime
import Fiesta.Client.Loop
import Fiesta.Lib.Spacing

/-!
# Fire rate

The calls of the frame loop on the two tanks of the game.

* `Command.act`, `acts`   the calls of a run, on the arena;
* `shotTimes`             the instants of its `Shoot` calls;
* `fired_frame`           what a frame fires, and how it ages it;
* `Ledger`                every shot has aged by the time since, and the times are spaced;
* `fire_rate`             so the shots are a second apart and six bullets are active at most.
-/

namespace Game

open Photon

section
variable {P : Physics ℚ} (toVec : Vector2f → Vec2f) (aim : Vector2f → Vector2f → Vec2f)

/-! ## calls on the arena -/

def Tank.index : Tank → Nat
  | .player => 0
  | .player2 => 1

/-- `toVec` is the conversion of a position, `aim` the direction from a tank to the mouse. -/
def Command.act : Command → Option (ArenaAct ℚ)
  | .worldUpdate dt => some (.worldUpdate dt)
  | .shoot tank mouseWorldPos playerPos =>
    some (.tank tank.index (.Shoot (aim mouseWorldPos playerPos)))
  | .move tank directionX directionY => some (.tank tank.index (.Move ⟨directionX, directionY⟩))
  | .pos tank p => some (.tank tank.index (.pos (toVec p)))
  | .update tank dt => some (.tank tank.index (.Update dt))
  | .opRaiseEvent _ _ _ => none

def acts (c : Clocks) (passes : List Pass) : List (ArenaAct ℚ) :=
  (commandsOf c passes).filterMap (Command.act toVec aim)

/-- The two tanks that `main` constructs. -/
def mainTanks (w : P.PhysicsWorld) : Arena P :=
  Arena.start w [(100, ⟨100, 100⟩), (100, ⟨300, 300⟩)]

theorem mainTanks_length (w : P.PhysicsWorld) : (mainTanks w).tanks.length = 2 := rfl

def frameActs (net : Net) (c : Clocks) (inp : FrameInput) : List (ArenaAct ℚ) :=
  (frame net c inp).2.filterMap (Command.act toVec aim)

theorem acts_snoc (c : Clocks) (passes : List Pass) (p : Pass) :
    acts toVec aim c (passes ++ [p])
      = acts toVec aim c passes ++ frameActs toVec aim p.net (clocksAfter c passes) p.inp := by
  unfold acts
  rw [commandsOf_snoc, List.filterMap_append]
  rfl

/-! ## the shots of a frame -/

def Shoots (net : Net) (c : Clocks) (inp : FrameInput) : Prop :=
  (drivenBy net.getLocalPlayerNr).isSome ∧ mayShoot c inp

instance (net : Net) (c : Clocks) (inp : FrameInput) : Decidable (Shoots net c inp) :=
  inferInstanceAs (Decidable (_ ∧ _))

/-- A frame whose readings of the clocks all give the same instant. -/
def FrameInput.AtOnce (inp : FrameInput) : Prop :=
  inp.shootTime = inp.worldTime ∧ inp.shootRestart = inp.worldTime
    ∧ inp.playerTime = inp.worldTime ∧ inp.player2Time = inp.worldTime
    ∧ inp.deltaRestart = inp.worldTime

/-- The calls of a frame: it shoots, it drives a tank without shooting, or it drives none. -/
theorem frame_calls {inp : FrameInput} (honce : inp.AtOnce) (net : Net) (c : Clocks) :
    (Shoots net c inp ∧ ∃ t other content, (frame net c inp).2
        = [.worldUpdate (inp.worldTime - c.deltaClock), .shoot t inp.mouseWorldPos (inp.aimed t),
          .move t (directionX inp) (directionY inp), .pos t.other other,
          .update .player (inp.worldTime - c.deltaClock),
          .update .player2 (inp.worldTime - c.deltaClock), .opRaiseEvent false content 2])
      ∨ (¬ Shoots net c inp ∧ ∃ t other content, (frame net c inp).2
        = [.worldUpdate (inp.worldTime - c.deltaClock),
          .move t (directionX inp) (directionY inp), .pos t.other other,
          .update .player (inp.worldTime - c.deltaClock),
          .update .player2 (inp.worldTime - c.deltaClock), .opRaiseEvent false content 2])
      ∨ (¬ Shoots net c inp ∧ (frame net c inp).2
        = [.worldUpdate (inp.worldTime - c.deltaClock),
          .update .player (inp.worldTime - c.deltaClock),
          .update .player2 (inp.worldTime - c.deltaClock)]) := by
  obtain ⟨_, _, hplayer, hplayer2, _⟩ := honce
  rw [frame_commands, hplayer, hplayer2]
  unfold Shoots
  cases drivenBy net.getLocalPlayerNr with
  | none => exact Or.inr (Or.inr ⟨by simp, rfl⟩)
  | some t =>
    unfold shooting
    by_cases hmay : mayShoot c inp
    · refine Or.inl ⟨⟨rfl, hmay⟩, t, net.my.getDirection net.getRemotePlayerNr,
        .jstring (buf (inp.shown t)), ?_⟩
      simp only [if_pos hmay]
      rfl
    · refine Or.inr (Or.inl ⟨fun h => hmay h.2, t, net.my.getDirection net.getRemotePlayerNr,
        .jstring (buf (inp.shown t)), ?_⟩)
      simp only [if_neg hmay]
      rfl

def Command.isShoot : Command → Bool
  | .shoot _ _ _ => true
  | _ => false

/-- The instant of every `Shoot` call, on either tank. -/
def shotTimes (c : Clocks) : List Pass → List ℚ
  | [] => []
  | p :: passes =>
    ((frame p.net c p.inp).2.filter Command.isShoot).map (fun _ => p.inp.shootTime)
      ++ shotTimes (frame p.net c p.inp).1 passes

theorem shotTimes_snoc (c : Clocks) (passes : List Pass) (p : Pass) :
    shotTimes c (passes ++ [p]) = shotTimes c passes
      ++ ((frame p.net (clocksAfter c passes) p.inp).2.filter Command.isShoot).map
        fun _ => p.inp.shootTime := by
  induction passes generalizing c with
  | nil => exact List.append_nil _
  | cons q passes ih =>
    rw [List.cons_append, shotTimes, shotTimes, ih, List.append_assoc]
    rfl

/-- The updates of a frame give each of the two tanks its time once. -/
theorem dts_updates {i : Nat} (hi : i < 2) (dt : ℚ) :
    dts i [.tank 0 (.Update dt), .tank 1 (.Update dt)] = [dt] := by
  rcases Nat.lt_succ_iff_lt_or_eq.1 hi with h | rfl
  · obtain rfl := Nat.lt_one_iff.1 h
    rfl
  · rfl

theorem dts_frame {inp : FrameInput} (honce : inp.AtOnce) (net : Net) (c : Clocks) {i : Nat}
    (hi : i < 2) : dts i (frameActs toVec aim net c inp) = [inp.worldTime - c.deltaClock] := by
  have hupdates := dts_updates hi (inp.worldTime - c.deltaClock)
  unfold frameActs
  rcases frame_calls honce net c with ⟨_, t, _, _, heq⟩ | ⟨_, t, _, _, heq⟩ | ⟨_, heq⟩
  · rw [heq]
    exact hupdates
  · rw [heq]
    exact hupdates
  · rw [heq]
    exact hupdates

/-- **A frame fires one bullet or none, and the bullet ages by the whole of the frame.** -/
theorem fired_frame {inp : FrameInput} (honce : inp.AtOnce) (net : Net) (c : Clocks)
    {a : Arena P} (hlen : a.tanks.length = 2) :
    (¬ Shoots net c inp ∧ (frame net c inp).2.filter Command.isShoot = []
        ∧ fired a (frameActs toVec aim net c inp) = [])
      ∨ Shoots net c inp ∧ (∃ cmd, (frame net c inp).2.filter Command.isShoot = [cmd])
        ∧ ∃ s, fired a (frameActs toVec aim net c inp) = [s]
          ∧ s.since = [inp.worldTime - c.deltaClock] := by
  unfold frameActs
  rcases frame_calls honce net c with ⟨hshoots, t, _, _, heq⟩ | ⟨hshoots, t, _, _, heq⟩
    | ⟨hshoots, heq⟩
  · have hindex : t.index < 2 := by cases t <;> decide
    let direction := aim inp.mouseWorldPos (inp.aimed t)
    let a' := a.step (.worldUpdate (inp.worldTime - c.deltaClock))
    obtain ⟨tank, htank⟩ : ∃ tank, a'.tanks[t.index]? = some tank :=
      ⟨_, List.getElem?_eq_getElem (by rw [step_length, hlen]; exact hindex)⟩
    refine Or.inr ⟨hshoots, ⟨_, by rw [heq]; rfl⟩,
      ⟨t.index, (tank.fire direction a'.world).2.body_handle, [inp.worldTime - c.deltaClock]⟩,
      ?_, rfl⟩
    rw [heq, ← dts_updates hindex (inp.worldTime - c.deltaClock)]
    show ((a'.shot (.tank t.index (.Shoot direction))).map _).toList ++ ([] : List (Shot P)) = _
    rw [shot_some htank]
    rfl
  · rw [heq]
    exact Or.inl ⟨hshoots, rfl, rfl⟩
  · rw [heq]
    exact Or.inl ⟨hshoots, rfl, rfl⟩

/-! ## the ledger -/

/-- All readings of a frame give one instant, and no frame is before the one before it. -/
def Steady (c : Clocks) (passes : List Pass) : Prop :=
  (∀ p ∈ passes, p.inp.AtOnce)
    ∧ (c.deltaClock :: passes.map fun p => p.inp.worldTime).Pairwise (· ≤ ·)

theorem steady_snoc {c : Clocks} {passes : List Pass} {p : Pass} (h : Steady c (passes ++ [p])) :
    Steady c passes ∧ p.inp.AtOnce ∧ (clocksAfter c passes).deltaClock ≤ p.inp.worldTime := by
  obtain ⟨honce, horder⟩ := h
  rw [List.forall_mem_append, List.forall_mem_singleton] at honce
  rw [List.map_append, ← List.cons_append, List.pairwise_append] at horder
  refine ⟨⟨honce.1, horder.1⟩, honce.2, ?_⟩
  refine horder.2.2 _ ?_ _ List.mem_cons_self
  -- the clock was last restarted in the last frame, at its instant
  rcases List.eq_nil_or_concat passes with rfl | ⟨past, q, rfl⟩
  · exact List.mem_cons_self
  · rw [List.concat_eq_append] at *
    have hq : q.inp.AtOnce := honce.1 q (by simp)
    rw [clocksAfter_snoc, frame_clocks, hq.2.2.2.2]
    simp

/-- What a run has fired, shot by shot with the instant of the call. -/
structure Ledger (w : P.PhysicsWorld) (c : Clocks) (passes : List Pass) : Prop where
  spaced : Spacing.Spaced shootCooldown (shotTimes c passes)
  shootClock : ∀ t ∈ shotTimes c passes, t ≤ (clocksAfter c passes).shootClock
  deltaClock : ∀ t ∈ shotTimes c passes, t ≤ (clocksAfter c passes).deltaClock
  aged : List.Forall₂ (fun s t => (clocksAfter c passes).deltaClock - t ≤ s.since.sum)
    (fired (mainTanks w) (acts toVec aim c passes)) (shotTimes c passes)

theorem ledger_nil (w : P.PhysicsWorld) (c : Clocks) : Ledger toVec aim w c [] where
  spaced := List.Pairwise.nil
  shootClock t ht := by cases ht
  deltaClock t ht := by cases ht
  aged := List.Forall₂.nil

theorem after_length (a : Arena P) (acts : List (ArenaAct ℚ)) :
    (a.after acts).tanks.length = a.tanks.length := by
  induction acts using List.reverseRecOn with
  | nil => rfl
  | append_singleton acts act ih => rw [after_snoc, step_length, ih]

/-- The shots so far age by the time of the frame. -/
theorem aged_frame {w : P.PhysicsWorld} {c : Clocks} {passes : List Pass}
    (h : Ledger toVec aim w c passes) {p : Pass} (honce : p.inp.AtOnce) :
    List.Forall₂ (fun (s : Shot P) t => p.inp.worldTime - t ≤ s.since.sum)
      ((fired (mainTanks w) (acts toVec aim c passes)).map
        (Shot.later (frameActs toVec aim p.net (clocksAfter c passes) p.inp)))
      (shotTimes c passes) := by
  have howner : ∀ s ∈ fired (mainTanks w) (acts toVec aim c passes), s.owner < 2 :=
    fired_owner (mainTanks w) (acts toVec aim c passes)
  rw [List.forall₂_map_left_iff]
  refine List.Forall₂.imp ?_ ((List.forall₂_and_left _ _).2 ⟨howner, h.aged⟩)
  rintro s t ⟨hs, hage⟩
  show _ ≤ (s.since ++ dts s.owner _).sum
  rw [dts_frame toVec aim honce _ _ hs, List.sum_append, List.sum_singleton]
  linarith

theorem ledger_snoc {w : P.PhysicsWorld} {c : Clocks} {passes : List Pass}
    (h : Ledger toVec aim w c passes) {p : Pass} (honce : p.inp.AtOnce)
    (hnow : (clocksAfter c passes).deltaClock ≤ p.inp.worldTime) :
    Ledger toVec aim w c (passes ++ [p]) := by
  have hlen : ((mainTanks w).after (acts toVec aim c passes)).tanks.length = 2 := by
    rw [after_length, mainTanks_length]
  have hclocks : clocksAfter c (passes ++ [p]) = ⟨p.inp.worldTime,
      if Shoots p.net (clocksAfter c passes) p.inp then p.inp.worldTime
      else (clocksAfter c passes).shootClock⟩ := by
    rw [clocksAfter_snoc, frame_clocks, honce.2.1, honce.2.2.2.2]
    rfl
  have hpast : ∀ t ∈ shotTimes c passes, t ≤ p.inp.worldTime := fun t ht =>
    (h.deltaClock t ht).trans hnow
  have haged := aged_frame toVec aim h honce
  rcases fired_frame toVec aim honce p.net (clocksAfter c passes) hlen with
    ⟨hno, hcmds, hfired⟩ | ⟨hshoots, ⟨cmd, hcmds⟩, s, hfired, hsince⟩
  · have htimes : shotTimes c (passes ++ [p]) = shotTimes c passes := by
      rw [shotTimes_snoc, hcmds, List.map_nil, List.append_nil]
    rw [if_neg hno] at hclocks
    refine ⟨?_, ?_, ?_, ?_⟩
    · rw [htimes]
      exact h.spaced
    · rw [htimes, hclocks]
      exact h.shootClock
    · rw [htimes, hclocks]
      exact hpast
    · rw [htimes, hclocks, acts_snoc, fired_append, hfired, List.append_nil]
      exact haged
  · have htimes : shotTimes c (passes ++ [p]) = shotTimes c passes ++ [p.inp.worldTime] := by
      rw [shotTimes_snoc, hcmds, honce.1]
      rfl
    -- the shoot clock was restarted at the last shot, or later than all
    have hcooled : ∀ t ∈ shotTimes c passes, t + shootCooldown ≤ p.inp.worldTime := by
      intro t ht
      have hcool : shootCooldown ≤ p.inp.shootTime - (clocksAfter c passes).shootClock :=
        hshoots.2.2
      rw [honce.1] at hcool
      linarith [h.shootClock t ht]
    have hle : ∀ t ∈ shotTimes c passes ++ [p.inp.worldTime], t ≤ p.inp.worldTime := by
      rw [List.forall_mem_append, List.forall_mem_singleton]
      exact ⟨hpast, le_refl _⟩
    rw [if_pos hshoots] at hclocks
    refine ⟨?_, ?_, ?_, ?_⟩
    · rw [htimes]
      exact Spacing.spaced_snoc.2 ⟨h.spaced, hcooled⟩
    · rw [htimes, hclocks]
      exact hle
    · rw [htimes, hclocks]
      exact hle
    · rw [htimes, hclocks, acts_snoc, fired_append, hfired]
      refine List.rel_append haged (List.Forall₂.cons ?_ List.Forall₂.nil)
      rw [hsince, List.sum_singleton, sub_self]
      linarith

theorem ledger_run (w : P.PhysicsWorld) {c : Clocks} {passes : List Pass}
    (h : Steady c passes) : Ledger toVec aim w c passes := by
  induction passes using List.reverseRecOn with
  | nil => exact ledger_nil toVec aim w c
  | append_singleton passes p ih =>
    obtain ⟨hpast, honce, hnow⟩ := steady_snoc h
    exact ledger_snoc toVec aim (ih hpast) honce hnow

/-- **A client shoots once a second at most, and six bullets are active at most.** -/
theorem fire_rate (w : P.PhysicsWorld) (c : Clocks) (passes : List Pass) (h : Steady c passes) :
    (shotTimes c passes).Pairwise (fun t t' => t + shootCooldown ≤ t')
      ∧ ((mainTanks w).after (acts toVec aim c passes)).active.length ≤ 6 := by
  have hledger := ledger_run toVec aim w h
  refine ⟨hledger.spaced, ?_⟩
  have hempty : ∀ tank ∈ (mainTanks w).tanks, tank.bullets = [] := start_empty w _
  rw [(active_after hempty _).length_eq, List.length_map]
  let now := (clocksAfter c passes).deltaClock
  -- a live shot was made less than six seconds ago
  have hrecent : ∀ (s : Shot P) t, now - t ≤ s.since.sum → decide (Live s.since) = true →
      decide (now - 6 < t) = true := by
    intro s t hage hlive
    have hlt : s.since.sum < 6 := sum_lt_of_live (of_decide_eq_true hlive)
    exact decide_eq_true (by linarith)
  have hcount := Spacing.filter_length hrecent hledger.aged
  refine hcount.trans (Spacing.spaced_length one_pos (hledger.spaced.filter _)
    (show now = now - 6 + (6 : ℕ) * 1 by norm_num) ?_)
  intro t ht
  obtain ⟨hmem, hlo⟩ := List.mem_filter.1 ht
  exact ⟨of_decide_eq_true hlo, hledger.deltaClock t hmem⟩

end

/-! ## two clicks -/

/-- The client of player 1. -/
def firstNet : Net := ⟨LBClient.new.onJoined 1 [], MyClient.new⟩

/-- A frame of player 1 at the instant `t`, with the button held down. -/
def clickAt (t : ℚ) : Pass :=
  ⟨firstNet, { FrameInput.still with
    mouseLeft := true, worldTime := t, shootTime := t, shootRestart := t, playerTime := t,
    player2Time := t, deltaRestart := t }⟩

theorem fire_rate_clicks :
    (shotTimes ⟨0, 0⟩ [clickAt 1, clickAt 2]).Pairwise (fun t t' => t + shootCooldown ≤ t')
      ∧ ((@mainTanks (Newton id) ⟨[], []⟩).after
        (acts (fun _ => ⟨0, 0⟩) (fun _ _ => ⟨1, 0⟩) ⟨0, 0⟩ [clickAt 1, clickAt 2])).active.length
          ≤ 6 := by
  have hsteady : Steady ⟨0, 0⟩ [clickAt 1, clickAt 2] := by
    refine ⟨?_, ?_⟩
    · intro p hp
      rcases List.mem_pair.1 hp with rfl | rfl <;> exact ⟨rfl, rfl, rfl, rfl, rfl⟩
    · show List.Pairwise (· ≤ ·) [(0 : ℚ), 1, 2]
      norm_num
  exact fire_rate _ _ _ _ _ hsteady

/-- Both clicks shoot. -/
example : shotTimes ⟨0, 0⟩ [clickAt 1, clickAt 2] = [1, 2] := by decide +kernel

end Game
