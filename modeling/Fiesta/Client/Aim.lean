import Fiesta.Client.Bullets
import Fiesta.Lib.Square
import Mathlib.Data.Multiset.ZeroCons
import Mathlib.Tactic.NormNum

/-!
# Where a bullet is born

* `Shape.covers`     the points of a collider;
* `BornClear`        the new bullet has none in common with its tank;
* `born_clear_iff`   which directions leave it clear.
-/

namespace Game

section
variable {T : Type} [Sub T] [LE T] [DecidableLE T] [OfNat T 0] [OfNat T 6] {P : Physics T}

/-- A circle has its own centre; a box lies centred on its body, the way the tank is drawn. -/
def Shape.covers (body : Vec2f) : Shape → Vec2f → Prop
  | .circle center radius, q => Square.InDisc radius center.x center.y q.x q.y
  | .aabb minBound maxBound, q =>
    |q.x - body.x| ≤ (maxBound.x - minBound.x) / 2 ∧ |q.y - body.y| ≤ (maxBound.y - minBound.y) / 2

/-- No point of the tank's box is in the collider that `Shoot` adds to the world. -/
def BornClear (direction : Vec2f) (tank : PlayerController P) (world : P.PhysicsWorld) : Prop :=
  ∀ c, (P.colliders (tank.Shoot direction world).1).Perm (c :: P.colliders world) →
    ∀ q, (PlayerController.playerCollider tank.body_handle_).shape.covers
        (P.position (P.GetBody world tank.body_handle_)) q →
      ¬ c.shape.covers (tank.spawn_position direction world) q

/-- `Shoot` adds one collider and no other. -/
theorem shoot_adds (hP : P.Lawful) (direction : Vec2f) (tank : PlayerController P)
    (world : P.PhysicsWorld) (c : Collider P.BodyHandle) :
    (P.colliders (tank.Shoot direction world).1).Perm (c :: P.colliders world)
      ↔ c = Bullet.projCollider (tank.spawn_position direction world)
        (tank.fire direction world).2.body_handle := by
  obtain ⟨_, _, hadds⟩ := fire_adds hP direction tank world
  refine ⟨?_, ?_⟩
  · intro hc
    have hcons := Multiset.coe_eq_coe.2 (hc.symm.trans hadds)
    rw [← Multiset.cons_coe, ← Multiset.cons_coe] at hcons
    exact (Multiset.cons_inj_left _).1 hcons
  · rintro rfl
    exact hadds

/-- Seen from the tank the bullet is 35 along the direction. -/
theorem bornClear_iff_apart (hP : P.Lawful) (direction : Vec2f)
    (hunit : direction.x * direction.x + direction.y * direction.y = 1)
    (tank : PlayerController P) (world : P.PhysicsWorld) :
    BornClear direction tank world
      ↔ Square.Apart 25 5 (direction.x * 35) (direction.y * 35) := by
  have hspawn : tank.spawn_position direction world
      = (P.position (P.GetBody world tank.body_handle_)).add (direction.mul 35) := by
    unfold PlayerController.spawn_position
    rw [hP.normalized_unit direction hunit]
  unfold BornClear
  simp only [shoot_adds hP, forall_eq, hspawn]
  generalize P.position (P.GetBody world tank.body_handle_) = p
  have hbox : ∀ q, (PlayerController.playerCollider tank.body_handle_).shape.covers p q
      ↔ Square.Inside 25 (q.x - p.x) (q.y - p.y) := by
    intro q
    show |q.x - p.x| ≤ (50 - 0) / 2 ∧ |q.y - p.y| ≤ (50 - 0) / 2 ↔ _
    norm_num [Square.Inside]
  have hcircle : ∀ (h : P.BodyHandle) (q : Vec2f), (Bullet.projCollider (p.add (direction.mul 35)) h).shape.covers
        (p.add (direction.mul 35)) q
      ↔ Square.InDisc 5 (direction.x * 35) (direction.y * 35) (q.x - p.x) (q.y - p.y) := by
    intro h q
    show Square.InDisc 5 (p.x + direction.x * 35) (p.y + direction.y * 35) q.x q.y ↔ _
    unfold Square.InDisc
    rw [sub_sub, sub_sub]
  simp only [hbox, hcircle]
  refine ⟨?_, ?_⟩
  · intro hclear x y
    have hq := hclear ⟨x + p.x, y + p.y⟩
    simpa only [add_sub_cancel_right] using hq
  · intro hap q
    exact hap _ _

/-- **A bullet is born clear exactly when a coordinate of its direction is 6/7 or more.** -/
theorem born_clear_iff (hP : P.Lawful) (direction : Vec2f)
    (hunit : direction.x * direction.x + direction.y * direction.y = 1)
    (tank : PlayerController P) (world : P.PhysicsWorld) :
    BornClear direction tank world ↔ 6 / 7 ≤ |direction.x| ∨ 6 / 7 ≤ |direction.y| := by
  have h35 : ∀ t : ℚ, |t * 35| = |t| * 35 := by
    intro t
    rw [abs_mul, abs_of_pos (by norm_num : (0 : ℚ) < 35)]
  -- a unit direction does not point past 5/7 along both axes
  have hside : |direction.x * 35| ≤ 25 ∨ |direction.y * 35| ≤ 25 := by
    by_contra hcorner
    rw [not_or, not_le, not_le, h35, h35] at hcorner
    have hx : 5 / 7 * (5 / 7) < |direction.x| * |direction.x| :=
      mul_self_lt_mul_self (by norm_num) (by linarith [hcorner.1])
    have hy : 5 / 7 * (5 / 7) < |direction.y| * |direction.y| :=
      mul_self_lt_mul_self (by norm_num) (by linarith [hcorner.2])
    rw [abs_mul_abs_self] at hx hy
    linarith
  rw [bornClear_iff_apart hP direction hunit, Square.apart_iff (by norm_num) hside, h35, h35]
  refine ⟨?_, ?_⟩
  · rintro (h | h)
    · exact Or.inl (by linarith)
    · exact Or.inr (by linarith)
  · rintro (h | h)
    · exact Or.inl (by linarith)
    · exact Or.inr (by linarith)

end

/-- A tank somewhere, with nobody else in the world. -/
def tankAt (p : Vec2f) : NewtonWorld × PlayerController (Newton (id : ℚ → ℚ)) :=
  @PlayerController.new ℚ (Newton id) 100 p ⟨[], []⟩

theorem born_clear_right :
    BornClear ⟨1, 0⟩ (tankAt ⟨100, 100⟩).2 (tankAt ⟨100, 100⟩).1
      ↔ 6 / 7 ≤ |(1 : ℚ)| ∨ 6 / 7 ≤ |(0 : ℚ)| :=
  born_clear_iff (newton_lawful id) ⟨1, 0⟩ (by norm_num) _ _

/-- Fired along (3/5, 4/5) the bullet reaches back into the tank. -/
theorem born_clear_fails :
    ¬ ∀ (P : Physics ℚ), P.Lawful → ∀ direction : Vec2f,
      direction.x * direction.x + direction.y * direction.y = 1 →
      ∀ (tank : PlayerController P) (world : P.PhysicsWorld), BornClear direction tank world := by
  intro h
  have hunit : (3 / 5 : ℚ) * (3 / 5) + 4 / 5 * (4 / 5) = 1 := by norm_num
  have hclear := h _ (newton_lawful id) ⟨3 / 5, 4 / 5⟩ hunit (tankAt ⟨100, 100⟩).2
    (tankAt ⟨100, 100⟩).1
  have hapart := (bornClear_iff_apart (newton_lawful id) _ hunit _ _).1 hclear
  refine hapart 21 25 ⟨?_, ?_⟩ ?_
  · norm_num [abs_of_pos]
  · norm_num [abs_of_pos]
  · norm_num [Square.InDisc]

end Game
