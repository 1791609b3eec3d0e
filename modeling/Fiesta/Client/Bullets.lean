import Fiesta.Client.Tank
import Mathlib.Data.List.Infix
import Mathlib.Data.List.Nodup
import Mathlib.Tactic.Tauto

/-!
# The bullets of a run

* `fired`             the shots of a run, each with the updates of its tank since;
* `Live`              the countdown of a shot has not reached zero, in the arithmetic of its seconds;
* `tanks_after`       the vectors of the tanks list the live shots;
* `bodies_after`      the bodies and colliders that the shots leave in the world;
* `fired_fresh`       no two shots share a body.
-/

set_option linter.unusedSectionVars false

namespace Game

section
variable {T : Type}

/-! ## shots -/

/-- The times of the updates of tank `i`. -/
def dts (i : Nat) (acts : List (ArenaAct T)) : List T :=
  acts.filterMap fun
    | .tank k (.Update dt) => if k = i then some dt else none
    | _ => none

theorem dts_append (i : Nat) (acts more : List (ArenaAct T)) :
    dts i (acts ++ more) = dts i acts ++ dts i more := List.filterMap_append ..

theorem dts_update (i : Nat) (dt : T) : dts i [.tank i (.Update dt)] = [dt] := by simp [dts]

structure Shot (P : Physics T) where
  owner : Nat
  body : P.BodyHandle
  since : List T

variable [Sub T] [LE T] [DecidableLE T] [OfNat T 0] [OfNat T 6] {P : Physics T}

/-- The tank and the body of the bullet an act fires. -/
def Arena.shot (a : Arena P) : ArenaAct T → Option (Nat × P.BodyHandle)
  | .tank i (.Shoot direction) =>
    a.tanks[i]?.map fun tank => (i, (tank.fire direction a.world).2.body_handle)
  | _ => none

/-- The shots of a run, in order. -/
def fired (a : Arena P) : List (ArenaAct T) → List (Shot P)
  | [] => []
  | act :: acts =>
    ((a.shot act).map fun s => ⟨s.1, s.2, dts s.1 acts⟩).toList ++ fired (a.step act) acts

def Arena.after (a : Arena P) (acts : List (ArenaAct T)) : Arena P := Runs.run Arena.step a acts

theorem after_snoc (a : Arena P) (acts : List (ArenaAct T)) (act : ArenaAct T) :
    a.after (acts ++ [act]) = (a.after acts).step act := Runs.run_snoc ..

/-- The shot after more acts. -/
def Shot.later (more : List (ArenaAct T)) (s : Shot P) : Shot P :=
  { s with since := s.since ++ dts s.owner more }

theorem fired_append (a : Arena P) (acts more : List (ArenaAct T)) :
    fired a (acts ++ more)
      = (fired a acts).map (Shot.later more) ++ fired (a.after acts) more := by
  induction acts generalizing a with
  | nil => rfl
  | cons b acts ih =>
    rw [List.cons_append, fired, fired, ih, List.map_append, List.append_assoc]
    congr 1
    cases a.shot b with
    | none => rfl
    | some s =>
      show [(⟨s.1, s.2, dts s.1 (acts ++ more)⟩ : Shot P)]
        = [⟨s.1, s.2, dts s.1 acts ++ dts s.1 more⟩]
      rw [dts_append]

theorem fired_snoc (a : Arena P) (acts : List (ArenaAct T)) (act : ArenaAct T) :
    fired a (acts ++ [act]) = (fired a acts).map (Shot.later [act])
      ++ (((a.after acts).shot act).map fun s => ⟨s.1, s.2, []⟩).toList := by
  rw [fired_append]
  congr 1
  exact List.append_nil _

/-! ## the countdown -/

/-- What the updates since have left of the six seconds of a bullet. -/
def countdown (since : List T) : T := since.foldl (fun lifetime dt => lifetime - dt) 6

theorem countdown_snoc (since : List T) (dt : T) :
    countdown (since ++ [dt]) = countdown since - dt := List.foldl_concat ..

/-- No update since has left nothing. -/
def Live (since : List T) : Prop := ∀ pre ∈ since.inits, pre ≠ [] → ¬ countdown pre ≤ 0

instance : DecidablePred (Live : List T → Prop) := fun since =>
  inferInstanceAs (Decidable (∀ pre ∈ since.inits, pre ≠ [] → ¬ countdown pre ≤ 0))

theorem live_nil : Live ([] : List T) := by
  intro pre hpre hne
  rw [List.mem_inits, List.prefix_nil] at hpre
  exact absurd hpre hne

theorem live_snoc (since : List T) (dt : T) :
    Live (since ++ [dt]) ↔ Live since ∧ ¬ countdown since - dt ≤ 0 := by
  unfold Live
  simp only [List.mem_inits]
  refine ⟨?_, ?_⟩
  · intro h
    refine ⟨fun pre hpre => h pre (hpre.trans (List.prefix_append _ _)), ?_⟩
    rw [← countdown_snoc]
    exact h _ (List.prefix_refl _) (List.append_ne_nil_of_right_ne_nil _ (List.cons_ne_nil _ _))
  · rintro ⟨h, hlast⟩ pre hpre hne
    rcases List.prefix_concat_iff.1 hpre with rfl | hpre
    · rw [countdown_snoc]
      exact hlast
    · exact h pre hpre hne

/-- The bullet of a live shot. -/
def Shot.bullet (s : Shot P) : Bullet P := ⟨s.body, true, countdown s.since⟩

theorem tick_bullet (dt : T) (s : Shot P) :
    s.bullet.tick dt
      = ⟨s.body, decide (¬ countdown s.since - dt ≤ 0), countdown (s.since ++ [dt])⟩ := by
  rw [countdown_snoc]
  rfl

/-- The bullets of tank `i` after these shots. -/
def bulletsOf (i : Nat) (shots : List (Shot P)) : List (Bullet P) :=
  (shots.filter fun s => s.owner = i ∧ Live s.since).map Shot.bullet

/-- More updates since do not change whose shots they are. -/
theorem bulletsOf_later (i : Nat) (more : List (ArenaAct T)) (shots : List (Shot P)) :
    bulletsOf i (shots.map (Shot.later more))
      = (shots.filter fun s => s.owner = i ∧ Live (s.later more).since).map
        fun s => (s.later more).bullet := by
  unfold bulletsOf
  rw [List.filter_map, List.map_map]
  rfl

theorem later_of_dts {i : Nat} {more : List (ArenaAct T)} {s : Shot P} (h : s.owner = i) :
    s.later more = { s with since := s.since ++ dts i more } := by
  unfold Shot.later
  rw [h]

/-- **An update keeps the shots that stay live.** -/
theorem survivors_bulletsOf (i : Nat) (dt : T) (shots : List (Shot P)) :
    survivors dt (bulletsOf i shots)
      = bulletsOf i (shots.map (Shot.later [.tank i (.Update dt)])) := by
  have hkept : ∀ s : Shot P, (s.bullet.tick dt).active = true ∧ s.owner = i ∧ Live s.since
      ↔ s.owner = i ∧ Live (s.later [.tank i (.Update dt)]).since := by
    intro s
    rw [tick_bullet, decide_eq_true_iff]
    by_cases ho : s.owner = i
    · rw [later_of_dts ho, dts_update, live_snoc]
      tauto
    · simp [ho]
  rw [bulletsOf_later]
  unfold survivors bulletsOf
  rw [List.map_map, List.filter_map, List.filter_filter]
  have hfilter : (shots.filter fun s =>
        ((fun b : Bullet P => b.active) ∘ Bullet.tick dt ∘ Shot.bullet) s
          && decide (s.owner = i ∧ Live s.since))
      = shots.filter fun s => s.owner = i ∧ Live (s.later [.tank i (.Update dt)]).since := by
    apply List.filter_congr
    intro s _
    rw [Bool.eq_iff_iff, Bool.and_eq_true, decide_eq_true_iff, decide_eq_true_iff]
    exact hkept s
  rw [hfilter]
  apply List.map_congr_left
  intro s hs
  have hlive := of_decide_eq_true (List.mem_filter.1 hs).2
  obtain ⟨hactive, ho, _⟩ := (hkept s).2 hlive
  rw [later_of_dts ho, dts_update]
  show s.bullet.tick dt = ⟨s.body, true, countdown (s.since ++ [dt])⟩
  rw [tick_bullet] at hactive ⊢
  rw [show decide (¬ countdown s.since - dt ≤ 0) = true from hactive]

/-- Nothing but an update of the tank counts a bullet down. -/
theorem bulletsOf_other {more : List (ArenaAct T)} {i : Nat} (h : dts i more = [])
    (shots : List (Shot P)) : bulletsOf i (shots.map (Shot.later more)) = bulletsOf i shots := by
  have hself : ∀ s : Shot P, s.owner = i → s.later more = s := by
    intro s ho
    rw [later_of_dts ho, h, List.append_nil]
  have hfilter : (shots.filter fun s => s.owner = i ∧ Live (s.later more).since)
      = shots.filter fun s => s.owner = i ∧ Live s.since := by
    apply List.filter_congr
    intro s _
    rw [decide_eq_decide]
    by_cases ho : s.owner = i
    · rw [hself s ho]
    · simp [ho]
  rw [bulletsOf_later, hfilter]
  apply List.map_congr_left
  intro s hs
  have hlive := of_decide_eq_true (List.mem_filter.1 hs).2
  rw [hself s hlive.1]

theorem bulletsOf_append (i : Nat) (shots more : List (Shot P)) :
    bulletsOf i (shots ++ more) = bulletsOf i shots ++ bulletsOf i more := by
  unfold bulletsOf
  rw [List.filter_append, List.map_append]

/-! ## the vectors -/

theorem step_none {a : Arena P} {k : Nat} (h : a.tanks[k]? = none) (c : Call T) :
    a.step (.tank k c) = a := by
  simp only [Arena.step, h]

theorem step_some {a : Arena P} {k : Nat} {tank : PlayerController P}
    (h : a.tanks[k]? = some tank) (c : Call T) :
    a.step (.tank k c)
      = ⟨(tank.call a.world c).1, a.tanks.set k (tank.call a.world c).2⟩ := by
  simp only [Arena.step, h]

theorem shot_some {a : Arena P} {k : Nat} {tank : PlayerController P}
    (h : a.tanks[k]? = some tank) (direction : Vec2f) :
    a.shot (.tank k (.Shoot direction))
      = some (k, (tank.fire direction a.world).2.body_handle) := by
  show a.tanks[k]?.map _ = _
  rw [h]
  rfl

/-- Only `Shoot` on a tank that is there fires. -/
theorem shot_eq_some {a : Arena P} {act : ArenaAct T} {s : Nat × P.BodyHandle}
    (h : a.shot act = some s) : ∃ k direction tank, act = .tank k (.Shoot direction)
      ∧ a.tanks[k]? = some tank ∧ s = (k, (tank.fire direction a.world).2.body_handle) := by
  cases act with
  | worldUpdate dt => cases h
  | tank k c =>
    cases c with
    | Shoot direction =>
      obtain ⟨tank, htank, rfl⟩ := Option.map_eq_some_iff.1 h
      exact ⟨k, direction, tank, rfl, htank, rfl⟩
    | _ => cases h

theorem shot_absent {a : Arena P} {k : Nat} (h : a.tanks[k]? = none) (c : Call T) :
    a.shot (.tank k c) = none := by
  rw [Option.eq_none_iff_forall_ne_some]
  intro s hs
  obtain ⟨k', direction, tank, hact, htank, _⟩ := shot_eq_some hs
  cases hact
  rw [h] at htank
  cases htank

/-- Every call keeps the handle and the speed of the tank. -/
theorem call_tank (tank : PlayerController P) (world : P.PhysicsWorld) (c : Call T) :
    (tank.call world c).2 = { tank with bullets := (tank.call world c).2.bullets } := by
  cases c <;> rfl

theorem tanks_step (a : Arena P) (act : ArenaAct T) (i : Nat) :
    (a.step act).tanks[i]? = a.tanks[i]?.map fun tank =>
      match act with
      | .tank k c => if k = i then (tank.call a.world c).2 else tank
      | .worldUpdate _ => tank := by
  cases act with
  | worldUpdate dt => simp [Arena.step]
  | tank k c =>
    cases hk : a.tanks[k]? with
    | none =>
      rw [step_none hk]
      by_cases hki : k = i
      · subst hki
        rw [hk]
        rfl
      · simp [hki]
    | some tank =>
      have hlt : k < a.tanks.length := (List.getElem?_eq_some_iff.1 hk).1
      rw [step_some hk]
      show (a.tanks.set k _)[i]? = _
      rw [List.getElem?_set]
      by_cases hki : k = i
      · subst hki
        rw [hk, if_pos rfl, if_pos hlt]
        simp
      · simp [hki]

/-- What one more act does to the bullets of a tank, in terms of the shots. -/
theorem bulletsOf_step {a : Arena P} {tank : PlayerController P} {i : Nat}
    (htank : a.tanks[i]? = some tank) {shots : List (Shot P)}
    (hb : tank.bullets = bulletsOf i shots) (act : ArenaAct T) :
    bulletsOf i (shots.map (Shot.later [act]) ++ ((a.shot act).map fun s => ⟨s.1, s.2, []⟩).toList)
      = match act with
        | .tank k c => if k = i then (tank.call a.world c).2.bullets else tank.bullets
        | .worldUpdate _ => tank.bullets := by
  rw [bulletsOf_append]
  cases act with
  | worldUpdate dt =>
    rw [bulletsOf_other rfl, hb]
    exact List.append_nil _
  | tank k c =>
    by_cases hki : k = i
    · subst hki
      simp only [if_true]
      cases c with
      | Update dt =>
        rw [← survivors_bulletsOf, ← hb]
        show _ ++ [] = (tank.Update dt a.world).2.bullets
        rw [update_bullets, List.append_nil]
      | Move direction =>
        rw [bulletsOf_other rfl, ← hb]
        exact List.append_nil _
      | pos p =>
        rw [bulletsOf_other rfl, ← hb]
        exact List.append_nil _
      | Shoot direction =>
        rw [bulletsOf_other rfl, ← hb, shot_some htank]
        show _ ++ bulletsOf k [_] = tank.bullets ++ [(tank.fire direction a.world).2]
        congr 1
        unfold bulletsOf
        simp [live_nil, Shot.bullet]
        rfl
    · have hdts : dts i [.tank k c] = [] := by
        cases c <;> simp [dts, hki]
      have hnone : bulletsOf i ((a.shot (.tank k c)).map
          fun s => (⟨s.1, s.2, []⟩ : Shot P)).toList = [] := by
        cases c with
        | Shoot direction =>
          show bulletsOf i ((a.tanks[k]?.map _).map _).toList = []
          cases a.tanks[k]? <;> simp [bulletsOf, hki]
        | _ => rfl
      simp only [if_neg hki]
      rw [bulletsOf_other hdts, hnone, List.append_nil, hb]

/-- **Every tank keeps its handle and its speed, and its vector lists its live shots.** -/
theorem tanks_after {a : Arena P} (h0 : ∀ tank ∈ a.tanks, tank.bullets = [])
    (acts : List (ArenaAct T)) (i : Nat) :
    (a.after acts).tanks[i]?
      = a.tanks[i]?.map fun tank => { tank with bullets := bulletsOf i (fired a acts) } := by
  induction acts using List.reverseRecOn with
  | nil =>
    show a.tanks[i]? = _
    cases hi : a.tanks[i]? with
    | none => rfl
    | some tank =>
      have hb := h0 tank (List.mem_of_getElem? hi)
      show some tank = some { tank with bullets := [] }
      rw [← hb]
  | append_singleton acts act ih =>
    rw [after_snoc, tanks_step, ih, fired_snoc, Option.map_map]
    cases hi : a.tanks[i]? with
    | none => rfl
    | some tank =>
      have htank : (a.after acts).tanks[i]?
          = some { tank with bullets := bulletsOf i (fired a acts) } := by
        rw [ih, hi]
        rfl
      rw [bulletsOf_step htank rfl act]
      cases act with
      | worldUpdate dt => rfl
      | tank k c =>
        by_cases hki : k = i
        · simp only [Option.map_some, Function.comp_apply, if_pos hki]
          rw [call_tank]
        · simp only [Option.map_some, Function.comp_apply, if_neg hki]

/-! ## the world -/

/-- The bodies the colliders of a world belong to. -/
def owners (w : P.PhysicsWorld) : List P.BodyHandle := (P.colliders w).map Collider.body_handle

theorem bodies_advance (hP : P.Lawful) (dt : T) (w : P.PhysicsWorld) (hs : List P.BodyHandle) :
    (P.bodies (advance dt w hs)).Perm (P.bodies w) := by
  induction hs generalizing w with
  | nil => exact List.Perm.refl _
  | cons h hs ih => exact (ih _).trans (hP.bodies_mutate h _ w)

theorem colliders_advance (hP : P.Lawful) (dt : T) (w : P.PhysicsWorld) (hs : List P.BodyHandle) :
    (P.colliders (advance dt w hs)).Perm (P.colliders w) := by
  induction hs generalizing w with
  | nil => exact List.Perm.refl _
  | cons h hs ih => exact (ih _).trans (hP.colliders_mutate h _ w)

/-- **A shot adds one body and one collider, the circle at the spawn position.** -/
theorem fire_adds (hP : P.Lawful) (direction : Vec2f) (tank : PlayerController P)
    (w : P.PhysicsWorld) :
    (tank.fire direction w).2.body_handle ∉ P.bodies w
      ∧ (P.bodies (tank.fire direction w).1).Perm
        ((tank.fire direction w).2.body_handle :: P.bodies w)
      ∧ (P.colliders (tank.fire direction w).1).Perm
        (Bullet.projCollider (tank.spawn_position direction w) (tank.fire direction w).2.body_handle
          :: P.colliders w) := by
  refine ⟨hP.fresh _ w, ?_, ?_⟩
  · exact ((hP.bodies_mutate _ _ _).trans (hP.bodies_createCollider _ _ _)).trans
      (hP.bodies_createBody _ w)
  · exact ((hP.colliders_mutate _ _ _).trans (hP.colliders_createCollider _ _ _)).trans
      ((hP.colliders_createBody _ w).cons _)

/-- The bodies that an act adds. -/
def Arena.born (a : Arena P) (act : ArenaAct T) : List P.BodyHandle :=
  ((a.shot act).map Prod.snd).toList

theorem bodies_step (hP : P.Lawful) (a : Arena P) (act : ArenaAct T) :
    (P.bodies (a.step act).world).Perm (a.born act ++ P.bodies a.world)
      ∧ (owners (a.step act).world).Perm (a.born act ++ owners a.world) := by
  have hsame : ∀ w : P.PhysicsWorld, (P.bodies w).Perm (P.bodies a.world) →
      (P.colliders w).Perm (P.colliders a.world) →
      (P.bodies w).Perm ([] ++ P.bodies a.world) ∧ (owners w).Perm ([] ++ owners a.world) :=
    fun w hb hc => ⟨hb, hc.map _⟩
  cases act with
  | worldUpdate dt =>
    exact hsame _ (hP.bodies_updateWorld dt _) (hP.colliders_updateWorld dt _)
  | tank k c =>
    cases hk : a.tanks[k]? with
    | none =>
      have hborn : a.born (.tank k c) = [] := by
        unfold Arena.born
        rw [shot_absent hk]
        rfl
      rw [step_none hk, hborn]
      exact hsame _ (List.Perm.refl _) (List.Perm.refl _)
    | some tank =>
      rw [step_some hk]
      cases c with
      | Update dt =>
        show (P.bodies (tank.Update dt a.world).1).Perm _
          ∧ (owners (tank.Update dt a.world).1).Perm _
        rw [update_bullets]
        exact hsame _ (bodies_advance hP dt _ _) (colliders_advance hP dt _ _)
      | Move direction => exact hsame _ (hP.bodies_mutate _ _ _) (hP.colliders_mutate _ _ _)
      | pos p => exact hsame _ (hP.bodies_mutate _ _ _) (hP.colliders_mutate _ _ _)
      | Shoot direction =>
        obtain ⟨_, hb, hc⟩ := fire_adds hP direction tank a.world
        unfold Arena.born
        rw [shot_some hk]
        exact ⟨hb, hc.map _⟩

/-- **Every shot of a run still has its body and its collider in the world.** -/
theorem bodies_after (hP : P.Lawful) (a : Arena P) (acts : List (ArenaAct T)) :
    (P.bodies (a.after acts).world).Perm ((fired a acts).map Shot.body ++ P.bodies a.world)
      ∧ (owners (a.after acts).world).Perm
        ((fired a acts).map Shot.body ++ owners a.world) := by
  induction acts using List.reverseRecOn with
  | nil => exact ⟨List.Perm.refl _, List.Perm.refl _⟩
  | append_singleton acts act ih =>
    have hbodies : (fired a (acts ++ [act])).map Shot.body
        = (fired a acts).map Shot.body ++ (a.after acts).born act := by
      rw [fired_snoc, List.map_append, List.map_map]
      congr 1
      unfold Arena.born
      cases (a.after acts).shot act <;> rfl
    have hmove : ∀ l : List P.BodyHandle, ((a.after acts).born act
        ++ ((fired a acts).map Shot.body ++ l)).Perm
          (((fired a acts).map Shot.body ++ (a.after acts).born act) ++ l) := by
      intro l
      rw [← List.append_assoc]
      exact List.perm_append_comm.append_right l
    obtain ⟨hb, hc⟩ := bodies_step hP (a.after acts) act
    rw [after_snoc, hbodies]
    exact ⟨(hb.trans (ih.1.append_left _)).trans (hmove _),
      (hc.trans (ih.2.append_left _)).trans (hmove _)⟩

/-- **No two shots share a body, and none has a body that was there before.** -/
theorem fired_fresh (hP : P.Lawful) (a : Arena P) (acts : List (ArenaAct T)) :
    ((fired a acts).map Shot.body).Nodup
      ∧ ∀ s ∈ fired a acts, s.body ∉ P.bodies a.world := by
  induction acts using List.reverseRecOn with
  | nil =>
    refine ⟨List.nodup_nil, ?_⟩
    intro s hs
    cases hs
  | append_singleton acts act ih =>
    have hold := (bodies_after hP a acts).1
    have hnew : ∀ s, (a.after acts).shot act = some s → s.2 ∉ P.bodies (a.after acts).world := by
      intro s hs
      obtain ⟨k, direction, tank, _, _, rfl⟩ := shot_eq_some hs
      exact (fire_adds hP direction tank (a.after acts).world).1
    have hmap : (fired a acts).map (Shot.body ∘ Shot.later [act])
        = (fired a acts).map Shot.body := rfl
    rw [fired_snoc, List.map_append, List.map_map, hmap]
    cases hshot : (a.after acts).shot act with
    | none =>
      refine ⟨?_, ?_⟩
      · simpa using ih.1
      · intro s hs
        simp only [Option.map_none, Option.toList_none, List.append_nil] at hs
        obtain ⟨t, ht, rfl⟩ := List.mem_map.1 hs
        exact ih.2 t ht
    | some s =>
      have hs := hnew s hshot
      rw [hold.mem_iff, List.mem_append, not_or] at hs
      refine ⟨?_, ?_⟩
      · show ((fired a acts).map Shot.body ++ [s.2]).Nodup
        rw [List.nodup_append]
        refine ⟨ih.1, List.nodup_singleton _, ?_⟩
        rintro h hh _ hmem rfl
        rw [List.mem_singleton] at hmem
        exact hs.1 (hmem ▸ hh)
      · intro t ht
        rcases List.mem_append.1 ht with ht | ht
        · obtain ⟨u, hu, rfl⟩ := List.mem_map.1 ht
          exact ih.2 u hu
        · rw [show t = ⟨s.1, s.2, []⟩ from List.mem_singleton.1 ht]
          exact hs.2

end

end Game
