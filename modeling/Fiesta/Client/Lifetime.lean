import Fiesta.Client.Bullets
import Fiesta.Lib.Binary32
import Mathlib.Algebra.BigOperators.Group.List.Basic
import Mathlib.Tactic.Linarith
import Mathlib.Tactic.Ring

/-!
# What becomes of the bullets

* `start_empty`, `start_bodies`   the tanks of a new arena;
* `live_iff_sum`                  in exact seconds the sum of the updates since decides;
* `live_bullets`                  the vectors list the unexpired shots, and an update advances the
                                  survivors, in exact seconds;
* `active_after`                  the bodies of the active bullets, over all tanks;
* `nothing_left_iff`              nothing but the active bullets is left in the world exactly as
                                  long as no bullet has expired, in the floats of the source.
-/

set_option linter.unusedSectionVars false

namespace Game

open Binary32

section
variable {T : Type} [Sub T] [LE T] [DecidableLE T] [OfNat T 0] [OfNat T 6] {P : Physics T}

theorem new_adds (hP : P.Lawful) (m : ℚ) (pos : Vec2f) (w : P.PhysicsWorld) :
    (P.bodies (PlayerController.new m pos w).1).Perm
      ((PlayerController.new m pos w).2.body_handle_ :: P.bodies w) :=
  (hP.bodies_createCollider _ _ _).trans (hP.bodies_createBody _ w)

/-- Tanks are constructed without bullets. -/
theorem start_empty (w : P.PhysicsWorld) (ts : List (ℚ × Vec2f)) :
    ∀ tank ∈ (Arena.start w ts).tanks, tank.bullets = [] := by
  refine Runs.run_inv Arena.construct (fun _ => True)
    (fun a => ∀ tank ∈ a.tanks, tank.bullets = []) ?_ ts (fun _ _ => trivial) ⟨w, []⟩ ?_
  · intro a t _ ha tank htank
    rcases List.mem_append.1 htank with htank | htank
    · exact ha tank htank
    · rw [List.mem_singleton.1 htank]
      rfl
  · intro tank htank
    cases htank

theorem start_bodies (hP : P.Lawful) (w : P.PhysicsWorld) (ts : List (ℚ × Vec2f)) :
    ∀ tank ∈ (Arena.start w ts).tanks, tank.body_handle_ ∈ P.bodies (Arena.start w ts).world := by
  refine Runs.run_inv Arena.construct (fun _ => True)
    (fun a => ∀ tank ∈ a.tanks, tank.body_handle_ ∈ P.bodies a.world) ?_ ts
    (fun _ _ => trivial) ⟨w, []⟩ ?_
  · intro a t _ ha tank htank
    have hadds := new_adds hP t.1 t.2 a.world
    rcases List.mem_append.1 htank with htank | htank
    · exact hadds.mem_iff.2 (List.mem_cons_of_mem _ (ha tank htank))
    · rw [List.mem_singleton.1 htank]
      exact hadds.mem_iff.2 List.mem_cons_self
  · intro tank htank
    cases htank

/-! ## the vectors -/

theorem fired_since (a : Arena P) (acts : List (ArenaAct T)) :
    ∀ s ∈ fired a acts, s.since <:+ dts s.owner acts := by
  induction acts generalizing a with
  | nil =>
    intro s hs
    cases hs
  | cons act acts ih =>
    intro s hs
    have hmore : ∀ i, dts i acts <:+ dts i (act :: acts) := by
      intro i
      rw [← List.singleton_append, dts_append]
      exact List.suffix_append _ _
    rcases List.mem_append.1 hs with hs | hs
    · rw [Option.mem_toList, Option.map_eq_some_iff] at hs
      obtain ⟨t, _, rfl⟩ := hs
      exact hmore t.1
    · exact (ih (a.step act) s hs).trans (hmore s.owner)

end

/-! ### exact seconds -/

theorem countdown_eq (since : List ℚ) : countdown since = 6 - since.sum := by
  induction since using List.reverseRecOn with
  | nil => exact (sub_zero 6).symm
  | append_singleton since dt ih =>
    rw [countdown_snoc, ih, List.sum_append, List.sum_singleton]
    ring

theorem sum_lt_of_live {since : List ℚ} (h : Live since) : since.sum < 6 := by
  by_cases hne : since = []
  · rw [hne]
    decide
  · have hlast := h since ((List.mem_inits _ _).2 (List.prefix_refl _)) hne
    rw [countdown_eq, not_le] at hlast
    linarith

/-- When no time runs backwards the whole time since decides. -/
theorem live_iff_sum {since : List ℚ} (h : ∀ dt ∈ since, 0 ≤ dt) : Live since ↔ since.sum < 6 := by
  refine ⟨sum_lt_of_live, ?_⟩
  induction since using List.reverseRecOn with
  | nil => exact fun _ => live_nil
  | append_singleton since dt ih =>
    have hdt : 0 ≤ dt := h dt (by simp)
    rw [List.sum_append, List.sum_singleton, live_snoc, countdown_eq, not_le]
    intro hlt
    exact ⟨ih (fun d hd => h d (List.mem_append_left _ hd)) (by linarith), by linarith⟩

/-- **The live bullets are exactly the unexpired shots**: each tank lists those that its updates
since have not brought to six seconds, in the order they were fired; all have different bodies, none
that of a tank; and an update advances the tank and the bullets that it keeps, each once. -/
theorem live_bullets {P : Physics ℚ} (hP : P.Lawful) (w : P.PhysicsWorld) (ts : List (ℚ × Vec2f))
    (acts : List (ArenaAct ℚ)) (i : Nat) (hdt : ∀ dt ∈ dts i acts, 0 ≤ dt)
    (tank : PlayerController P) (htank : ((Arena.start w ts).after acts).tanks[i]? = some tank) :
    tank.bullets = ((fired (Arena.start w ts) acts).filter
        fun s => s.owner = i ∧ s.since.sum < 6).map (fun s => ⟨s.body, true, 6 - s.since.sum⟩)
      ∧ ((fired (Arena.start w ts) acts).map Shot.body).Nodup
      ∧ (∀ s ∈ fired (Arena.start w ts) acts, ∀ other ∈ ((Arena.start w ts).after acts).tanks,
        s.body ≠ other.body_handle_)
      ∧ ∀ dt, 0 ≤ dt → (tank.Update dt ((Arena.start w ts).after acts).world).1
        = advance dt ((Arena.start w ts).after acts).world
          (tank.body_handle_ :: ((fired (Arena.start w ts) acts).filter
            fun s => s.owner = i ∧ s.since.sum + dt < 6).map Shot.body) := by
  have hempty := start_empty w ts
  have hbodies := start_bodies hP w ts
  generalize Arena.start w ts = a at *
  obtain ⟨hnodup, hfresh⟩ := fired_fresh hP a acts
  have htanks := tanks_after hempty acts
  have hsince : ∀ s ∈ fired a acts, s.owner = i → ∀ dt ∈ s.since, 0 ≤ dt := by
    rintro s hs rfl dt hmem
    exact hdt dt ((fired_since a acts s hs).subset hmem)
  have hbullets : tank.bullets = bulletsOf i (fired a acts) := by
    rw [htanks, Option.map_eq_some_iff] at htank
    obtain ⟨_, _, rfl⟩ := htank
    rfl
  refine ⟨?_, hnodup, ?_, ?_⟩
  · have hfilter : ((fired a acts).filter fun s => s.owner = i ∧ Live s.since)
        = (fired a acts).filter fun s => s.owner = i ∧ s.since.sum < 6 := by
      apply List.filter_congr
      intro s hs
      rw [decide_eq_decide]
      exact and_congr_right fun ho => live_iff_sum (hsince s hs ho)
    rw [hbullets]
    unfold bulletsOf
    rw [hfilter]
    refine List.map_congr_left fun s _ => ?_
    unfold Shot.bullet
    rw [countdown_eq]
  · intro s hs other hother
    obtain ⟨k, hk⟩ := List.mem_iff_getElem?.1 hother
    rw [htanks, Option.map_eq_some_iff] at hk
    obtain ⟨t, ht, rfl⟩ := hk
    intro heq
    exact hfresh s hs (heq ▸ hbodies t (List.mem_of_getElem? ht))
  · intro dt hdt0
    rw [update_bullets, hbullets, survivors_bulletsOf, bulletsOf_later, List.map_map]
    show advance dt _ (_ :: ((fired a acts).filter _).map Shot.body) = _
    congr 3
    apply List.filter_congr
    intro s hs
    rw [decide_eq_decide]
    refine and_congr_right fun ho => ?_
    rw [later_of_dts ho, dts_update, live_snoc, live_iff_sum (hsince s hs ho), countdown_eq, not_le]
    refine ⟨?_, ?_⟩
    · exact fun h => by linarith [h.2]
    · exact fun h => ⟨by linarith, by linarith⟩

/-! ## the world -/

section
variable {T : Type} [Sub T] [LE T] [DecidableLE T] [OfNat T 0] [OfNat T 6] {P : Physics T}

/-- The bodies of the active bullets in the vectors. -/
def Arena.active (a : Arena P) : List P.BodyHandle :=
  a.tanks.flatMap fun tank => (tank.bullets.filter fun b => b.active).map Bullet.body_handle

theorem perm_by_key {α : Type*} (key : α → Nat) (l : List α) (n : Nat) :
    ((List.range n).flatMap fun i => l.filter fun s => key s = i).Perm
      (l.filter fun s => key s < n) := by
  induction n with
  | zero => simp
  | succ n ih =>
    have hsub : ∀ p q : Nat → Bool, (∀ k, (p k && decide (k < n + 1)) = q k) →
        (l.filter fun s => key s < n + 1).filter (fun s => p (key s))
          = l.filter fun s => q (key s) := by
      intro p q hpq
      rw [List.filter_filter]
      apply List.filter_congr
      intro s _
      exact hpq (key s)
    have hlt := hsub (fun k => decide (k < n)) (fun k => decide (k < n)) fun k => by
      rw [Bool.eq_iff_iff]
      simp
      omega
    have heq := hsub (fun k => !decide (k < n)) (fun k => decide (k = n)) fun k => by
      rw [Bool.eq_iff_iff]
      simp
      omega
    have hsplit := List.filter_append_perm (fun s => decide (key s < n))
      (l.filter fun s => key s < n + 1)
    rw [hlt, heq] at hsplit
    rw [List.range_succ, List.flatMap_append, List.flatMap_singleton]
    exact (ih.append_right _).trans hsplit

theorem step_length (a : Arena P) (act : ArenaAct T) : (a.step act).tanks.length = a.tanks.length := by
  cases act with
  | worldUpdate dt => rfl
  | tank k c =>
    cases hk : a.tanks[k]? with
    | none => rw [step_none hk]
    | some tank =>
      rw [step_some hk]
      exact List.length_set

theorem fired_owner (a : Arena P) (acts : List (ArenaAct T)) :
    ∀ s ∈ fired a acts, s.owner < a.tanks.length := by
  induction acts generalizing a with
  | nil =>
    intro s hs
    cases hs
  | cons act acts ih =>
    intro s hs
    rcases List.mem_append.1 hs with hs | hs
    · rw [Option.mem_toList, Option.map_eq_some_iff] at hs
      obtain ⟨t, ht, rfl⟩ := hs
      obtain ⟨k, direction, tank, _, htank, rfl⟩ := shot_eq_some ht
      exact (List.getElem?_eq_some_iff.1 htank).1
    · have hown := ih (a.step act) s hs
      rwa [step_length] at hown

theorem active_bulletsOf (i : Nat) (shots : List (Shot P)) :
    ((bulletsOf i shots).filter fun b => b.active).map Bullet.body_handle
      = ((shots.filter fun s => Live s.since).filter fun s => s.owner = i).map Shot.body := by
  unfold bulletsOf
  rw [List.filter_map, List.map_map, List.filter_filter, List.filter_filter]
  congr 1
  apply List.filter_congr
  intro s _
  show (true && decide (s.owner = i ∧ Live s.since)) = _
  rw [Bool.true_and, Bool.decide_and]

/-- **The active bullets are those of the live shots.** -/
theorem active_after {a : Arena P} (h0 : ∀ tank ∈ a.tanks, tank.bullets = [])
    (acts : List (ArenaAct T)) :
    (a.after acts).active.Perm
      (((fired a acts).filter fun s => Live s.since).map Shot.body) := by
  have hmap : (a.after acts).tanks.map
        (fun tank => (tank.bullets.filter fun b => b.active).map Bullet.body_handle)
      = (List.range a.tanks.length).map fun i =>
        (((fired a acts).filter fun s => Live s.since).filter fun s => s.owner = i).map
          Shot.body := by
    apply List.ext_getElem?
    intro i
    rw [List.getElem?_map, List.getElem?_map, tanks_after h0, Option.map_map]
    by_cases hi : i < a.tanks.length
    · rw [List.getElem?_eq_getElem hi, List.getElem?_range hi]
      exact congrArg some (active_bulletsOf i _)
    · rw [List.getElem?_eq_none (Nat.not_lt.1 hi),
        List.getElem?_eq_none (by rw [List.length_range]; exact Nat.not_lt.1 hi)]
      rfl
  have howner : ((fired a acts).filter fun s => Live s.since).filter
      (fun s => s.owner < a.tanks.length) = (fired a acts).filter fun s => Live s.since := by
    rw [List.filter_eq_self]
    intro s hs
    exact decide_eq_true (fired_owner a acts s (List.mem_filter.1 hs).1)
  have hkeys := perm_by_key Shot.owner ((fired a acts).filter fun s => Live s.since)
    a.tanks.length
  rw [howner] at hkeys
  unfold Arena.active
  rw [List.flatMap_def, hmap, ← List.flatMap_def, ← List.map_flatMap]
  exact hkeys.map Shot.body

/-- Since the arena `a` no body and no collider has come to the world but those of the bullets that
are still active. -/
def NothingLeft (a : Arena P) (acts : List (ArenaAct T)) : Prop :=
  (P.bodies (a.after acts).world).Perm (P.bodies a.world ++ (a.after acts).active)
    ∧ (owners (a.after acts).world).Perm (owners a.world ++ (a.after acts).active)

theorem live_of_nothing_left (hP : P.Lawful) {a : Arena P}
    (h0 : ∀ tank ∈ a.tanks, tank.bullets = []) {acts : List (ArenaAct T)}
    (hleft : NothingLeft a acts) : ∀ s ∈ fired a acts, Live s.since := by
  have hlen := ((bodies_after hP a acts).1.symm.trans hleft.1).length_eq
  rw [List.length_append, List.length_append, (active_after h0 acts).length_eq, List.length_map,
    List.length_map] at hlen
  have hall : ((fired a acts).filter fun s => Live s.since).length = (fired a acts).length := by
    omega
  intro s hs
  exact of_decide_eq_true (List.length_filter_eq_length_iff.1 hall s hs)

/-- Whatever the arithmetic of the seconds. -/
theorem nothing_left_iff_live (hP : P.Lawful) {a : Arena P}
    (h0 : ∀ tank ∈ a.tanks, tank.bullets = []) (acts : List (ArenaAct T)) :
    NothingLeft a acts ↔ ∀ s ∈ fired a acts, Live s.since := by
  refine ⟨live_of_nothing_left hP h0, ?_⟩
  intro hlive
  obtain ⟨hbodies, howners⟩ := bodies_after hP a acts
  have hactive := active_after h0 acts
  have hall : (fired a acts).filter (fun s => Live s.since) = fired a acts := by
    rw [List.filter_eq_self]
    intro s hs
    exact decide_eq_true (hlive s hs)
  rw [hall] at hactive
  have hswap : ∀ l : List P.BodyHandle,
      ((fired a acts).map Shot.body ++ l).Perm (l ++ (a.after acts).active) := fun l =>
    List.perm_append_comm.trans (hactive.symm.append_left l)
  exact ⟨hbodies.trans (hswap _), howners.trans (hswap _)⟩

end

/-- **Bullets leave nothing behind in the world exactly as long as none has expired**, counted down
in single precision as the source does. -/
theorem nothing_left_iff {P : Physics Single} (hP : P.Lawful) (w : P.PhysicsWorld)
    (ts : List (ℚ × Vec2f)) (acts : List (ArenaAct Single)) :
    NothingLeft (Arena.start w ts) acts
      ↔ ∀ s ∈ fired (Arena.start w ts) acts, Live s.since :=
  nothing_left_iff_live hP (start_empty w ts) acts

/-- Sixty updates by the float nearest to 0.1 leave something of the six seconds. -/
example : ((round false 1 10).map fun x =>
    decide (countdown (List.replicate 60 (Single.finite x)) ≤ 0)) = some false := by
  decide +kernel

/-! ## three shots -/

/-- An empty world with one tank. -/
def oneTank {T : Type} (seconds : T → ℚ) : Arena (Newton seconds) :=
  Arena.start ⟨[], []⟩ [(100, ⟨100, 100⟩)]

/-- The tank shoots, some time passes, it shoots twice more, and some time passes again. -/
def volley {T : Type} (first second : T) : List (ArenaAct T) :=
  [.tank 0 (.Shoot ⟨1, 0⟩), .tank 0 (.Update first), .tank 0 (.Shoot ⟨0, 1⟩),
    .tank 0 (.Shoot ⟨-1, 0⟩), .tank 0 (.Update second)]

section
variable {T : Type} [Sub T] [LE T] [DecidableLE T] [OfNat T 0] [OfNat T 6] (seconds : T → ℚ)

theorem oneTank_bullets : ∀ tank ∈ (oneTank seconds).tanks, tank.bullets = [] := start_empty _ _

theorem fired_volley (first second : T) : ∃ h₁ h₂ h₃, fired (oneTank seconds) (volley first second)
    = [⟨0, h₁, [first, second]⟩, ⟨0, h₂, [second]⟩, ⟨0, h₃, [second]⟩] := ⟨_, _, _, rfl⟩

end

/-- The first bullet has expired after seven seconds, the others have half of theirs to go. -/
theorem live_bullets_volley :
    ∃ tank h₂ h₃, ((oneTank (id : ℚ → ℚ)).after (volley 4 3)).tanks[0]? = some tank
      ∧ tank.bullets = [⟨h₂, true, 3⟩, ⟨h₃, true, 3⟩] ∧ h₂ ≠ h₃ := by
  obtain ⟨tank, htank⟩ : ∃ tank,
      ((oneTank (id : ℚ → ℚ)).after (volley 4 3)).tanks[0]? = some tank := by
    rw [tanks_after (oneTank_bullets _)]
    exact ⟨_, rfl⟩
  have hdt : ∀ dt ∈ dts 0 (volley (4 : ℚ) 3), 0 ≤ dt := by
    intro dt hdt
    rcases List.mem_pair.1 (show dt ∈ [4, 3] from hdt) with rfl | rfl <;> decide
  obtain ⟨hbullets, hnodup, _⟩ := live_bullets (newton_lawful id) ⟨[], []⟩ _ (volley 4 3) 0 hdt tank
    htank
  obtain ⟨h₁, h₂, h₃, hfired⟩ := fired_volley id (4 : ℚ) 3
  change tank.bullets = ((fired (oneTank id) (volley 4 3)).filter _).map _ at hbullets
  change ((fired (oneTank id) (volley 4 3)).map Shot.body).Nodup at hnodup
  rw [hfired] at hbullets hnodup
  refine ⟨tank, h₂, h₃, htank, ?_, ?_⟩
  · rw [hbullets]
    norm_num
  · rintro rfl
    simp at hnodup

/-- The exact value of a finite time. -/
def exactly : Single → ℚ
  | .finite x => x.toRat
  | _ => 0

/-- Something is left when the first of the three bullets has expired, and nothing before. -/
theorem nothing_left_iff_volley :
    ¬ NothingLeft (oneTank exactly) (volley 4 3) ∧ NothingLeft (oneTank exactly) (volley 1 3) := by
  have hiff (first second : Single) := nothing_left_iff (newton_lawful exactly) ⟨[], []⟩
    [(100, ⟨100, 100⟩)] (volley first second)
  refine ⟨?_, ?_⟩
  · intro hleft
    have hlive := (hiff 4 3).1 hleft
    obtain ⟨h₁, h₂, h₃, hfired⟩ := fired_volley exactly 4 3
    change ∀ s ∈ fired (oneTank exactly) (volley 4 3), Live s.since at hlive
    rw [hfired] at hlive
    have hexpired : ¬ Live [(4 : Single), 3] := by decide +kernel
    exact hexpired (hlive _ List.mem_cons_self)
  · refine (hiff 1 3).2 ?_
    obtain ⟨h₁, h₂, h₃, hfired⟩ := fired_volley exactly 1 3
    show ∀ s ∈ fired (oneTank exactly) (volley 1 3), Live s.since
    rw [hfired]
    have hfirst : Live [(1 : Single), 3] := by decide +kernel
    have hsecond : Live [(3 : Single)] := by decide +kernel
    simp [hfirst, hsecond]

/-- After six seconds the bullet is gone, and its body is not. -/
theorem nothing_left_fails :
    ¬ ∀ (P : Physics Single), P.Lawful → ∀ (w : P.PhysicsWorld) (ts : List (ℚ × Vec2f))
      (acts : List (ArenaAct Single)), NothingLeft (Arena.start w ts) acts := by
  intro h
  have hleft : NothingLeft (oneTank exactly)
      [.tank 0 (.Shoot ⟨1, 0⟩), .tank 0 (.Update 6)] := h _ (newton_lawful exactly) _ _ _
  obtain ⟨s, hs, hsince⟩ : ∃ s ∈ fired (oneTank exactly)
      [.tank 0 (.Shoot ⟨1, 0⟩), .tank 0 (.Update 6)], s.since = [6] :=
    ⟨_, List.mem_singleton_self _, rfl⟩
  have hlive := live_of_nothing_left (newton_lawful exactly) (oneTank_bullets _) hleft s hs
  have hexpired : ¬ Live [(6 : Single)] := by decide +kernel
  exact hexpired (hsince ▸ hlive)

end Game
