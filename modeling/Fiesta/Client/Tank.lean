import Fiesta.Lib.Runs
import Fiesta.Lib.Sweep
import Mathlib.Algebra.Order.Ring.Rat
import Mathlib.Data.List.Perm.Basic

/-!
# Tanks and bullets (bullet.h, player_controler.h)

The physics library is not part of the repository: it is a parameter, `Physics`, and what the game
relies on is `Physics.Lawful`.  Positions and speeds are exact rationals here.  Seconds are of any type
`T` that a bullet can count down in: the floats of the source, or exact rationals.

* `Bullet.Init`, `Bullet.Update`          a bullet, created and counted down;
* `PlayerController.Update`, `Shoot`      a tank with its vector of bullets;
* `Arena`                                 a world with any number of tanks, and the calls on them;
* `Bullet.tick`, `update_bullets`         the vector after an `Update`, and the bodies it advances.
-/

set_option linter.unusedSectionVars false

namespace Game

/-! ## the physics library -/

structure Vec2f where
  x : ℚ
  y : ℚ
deriving DecidableEq

def Vec2f.add (a b : Vec2f) : Vec2f := ⟨a.x + b.x, a.y + b.y⟩
def Vec2f.mul (a : Vec2f) (k : ℚ) : Vec2f := ⟨a.x * k, a.y * k⟩

inductive Shape where
  | circle (center : Vec2f) (radius : ℚ)
  | aabb (minBound maxBound : Vec2f)

structure Collider (BodyHandle : Type) where
  shape : Shape
  bounciness : ℚ
  friction : ℚ
  trigger : Bool
  body_handle : BodyHandle

/-- What the game uses of the library. A call on the reference that `GetMutableBody` returns is
`mutate`; `bodies` and `colliders` are the objects a world holds, which the game never lists. -/
structure Physics (T : Type) where
  Body : Type
  BodyHandle : Type
  PhysicsWorld : Type
  newBody : Body
  newHandle : BodyHandle
  set_position : Vec2f → Body → Body
  set_mass : ℚ → Body → Body
  ApplyForce : Vec2f → Body → Body
  UpdateBody : T → Body → Body
  position : Body → Vec2f
  Normalized : Vec2f → Vec2f
  CreateBody : Body → PhysicsWorld → PhysicsWorld × BodyHandle
  CreateCollider : BodyHandle → Collider BodyHandle → PhysicsWorld → PhysicsWorld
  GetBody : PhysicsWorld → BodyHandle → Body
  mutate : BodyHandle → (Body → Body) → PhysicsWorld → PhysicsWorld
  UpdateWorld : T → PhysicsWorld → PhysicsWorld
  bodies : PhysicsWorld → List BodyHandle
  colliders : PhysicsWorld → List (Collider BodyHandle)

/-- The calls that create an object add that one, a body under a new handle; no other call adds or
removes any. A vector of length 1 is its own normal form. -/
structure Physics.Lawful {T : Type} (P : Physics T) : Prop where
  fresh : ∀ b w, (P.CreateBody b w).2 ∉ P.bodies w
  bodies_createBody : ∀ b w,
    (P.bodies (P.CreateBody b w).1).Perm ((P.CreateBody b w).2 :: P.bodies w)
  colliders_createBody : ∀ b w, (P.colliders (P.CreateBody b w).1).Perm (P.colliders w)
  bodies_createCollider : ∀ h c w, (P.bodies (P.CreateCollider h c w)).Perm (P.bodies w)
  colliders_createCollider : ∀ h c w,
    (P.colliders (P.CreateCollider h c w)).Perm (c :: P.colliders w)
  bodies_mutate : ∀ h f w, (P.bodies (P.mutate h f w)).Perm (P.bodies w)
  colliders_mutate : ∀ h f w, (P.colliders (P.mutate h f w)).Perm (P.colliders w)
  bodies_updateWorld : ∀ dt w, (P.bodies (P.UpdateWorld dt w)).Perm (P.bodies w)
  colliders_updateWorld : ∀ dt w, (P.colliders (P.UpdateWorld dt w)).Perm (P.colliders w)
  normalized_unit : ∀ v : Vec2f, v.x * v.x + v.y * v.y = 1 → P.Normalized v = v

/-! ## a bullet -/

section
variable {T : Type} [Sub T] [LE T] [DecidableLE T] [OfNat T 0] [OfNat T 6] (P : Physics T)

/-- The pointer to the world is the one world of the game. -/
structure Bullet where
  body_handle : P.BodyHandle
  active : Bool
  lifetime : T

/-- `Bullet()` -/
def Bullet.new : Bullet P := ⟨P.newHandle, false, 0⟩

variable {P}

def Bullet.projBody (position : Vec2f) : P.Body := P.set_mass (1 / 10) (P.set_position position P.newBody)

def Bullet.projCollider (position : Vec2f) (body_handle : P.BodyHandle) : Collider P.BodyHandle :=
  ⟨.circle position 5, 49 / 50, 1 / 10, false, body_handle⟩

def Bullet.Init (bullet : Bullet P) (position direction : Vec2f) (world : P.PhysicsWorld) :
    P.PhysicsWorld × Bullet P :=
  if bullet.active then (world, bullet)
  else
    let created := P.CreateBody (projBody position) world
    let body_handle := created.2
    let world := P.CreateCollider body_handle (projCollider position body_handle) created.1
    let normalizedDirection := P.Normalized direction
    (P.mutate body_handle (P.ApplyForce (normalizedDirection.mul 1000)) world,
      { body_handle, active := true, lifetime := 6 })

def Bullet.Update (dt : T) (world : P.PhysicsWorld) (bullet : Bullet P) :
    P.PhysicsWorld × Bullet P :=
  if bullet.active then
    let lifetime := bullet.lifetime - dt
    if lifetime ≤ 0 then (world, { bullet with lifetime, active := false })
    else (P.mutate bullet.body_handle (P.UpdateBody dt) world, { bullet with lifetime })
  else (world, bullet)

/-! ## a tank -/

variable (P) in
structure PlayerController where
  bullets : List (Bullet P)
  move_speed : ℚ
  body_handle_ : P.BodyHandle

def PlayerController.playerCollider (body_handle : P.BodyHandle) : Collider P.BodyHandle :=
  ⟨.aabb ⟨0, 0⟩ ⟨50, 50⟩, 1 / 2, 1 / 2, false, body_handle⟩

/-- The constructor. -/
def PlayerController.new (m : ℚ) (pos : Vec2f) (world : P.PhysicsWorld) :
    P.PhysicsWorld × PlayerController P :=
  let playerBody := P.set_mass 1 (P.set_position pos P.newBody)
  let created := P.CreateBody playerBody world
  (P.CreateCollider created.2 (playerCollider created.2) created.1, ⟨[], m, created.2⟩)

def PlayerController.Update (dt : T) (tank : PlayerController P) (world : P.PhysicsWorld) :
    P.PhysicsWorld × PlayerController P :=
  let world := P.mutate tank.body_handle_ (P.UpdateBody dt) world
  let r := Sweep.sweep (Bullet.Update dt) (fun it => !it.active) world tank.bullets 0
  (r.1, { tank with bullets := r.2 })

def PlayerController.Move (direction : Vec2f) (tank : PlayerController P)
    (world : P.PhysicsWorld) : P.PhysicsWorld :=
  P.mutate tank.body_handle_ (P.ApplyForce (direction.mul tank.move_speed)) world

def PlayerController.pos (pos : Vec2f) (tank : PlayerController P) (world : P.PhysicsWorld) :
    P.PhysicsWorld :=
  P.mutate tank.body_handle_ (P.set_position pos) world

def PlayerController.spawn_position (direction : Vec2f) (tank : PlayerController P)
    (world : P.PhysicsWorld) : Vec2f :=
  let dir_normalized := P.Normalized direction
  let offset_distance := 35
  (P.position (P.GetBody world tank.body_handle_)).add (dir_normalized.mul offset_distance)

/-- The bullet that `Shoot` creates. -/
def PlayerController.fire (direction : Vec2f) (tank : PlayerController P)
    (world : P.PhysicsWorld) : P.PhysicsWorld × Bullet P :=
  (Bullet.new P).Init (tank.spawn_position direction world) direction world

def PlayerController.Shoot (direction : Vec2f) (tank : PlayerController P)
    (world : P.PhysicsWorld) : P.PhysicsWorld × PlayerController P :=
  let r := tank.fire direction world
  (r.1, { tank with bullets := tank.bullets ++ [r.2] })

/-! ## tanks that share a world -/

variable (P) in
structure Arena where
  world : P.PhysicsWorld
  tanks : List (PlayerController P)

inductive Call (T : Type) where
  | Update (dt : T)
  | Move (direction : Vec2f)
  | pos (p : Vec2f)
  | Shoot (direction : Vec2f)

/-- A call on one of the tanks, by the order they were constructed in, or on the world. -/
inductive ArenaAct (T : Type) where
  | tank (i : Nat) (c : Call T)
  | worldUpdate (dt : T)

def PlayerController.call (tank : PlayerController P) (world : P.PhysicsWorld) :
    Call T → P.PhysicsWorld × PlayerController P
  | .Update dt => tank.Update dt world
  | .Move direction => (tank.Move direction world, tank)
  | .pos p => (tank.pos p world, tank)
  | .Shoot direction => tank.Shoot direction world

/-- One more tank, with its speed and position. -/
def Arena.construct (a : Arena P) (t : ℚ × Vec2f) : Arena P :=
  let r := PlayerController.new t.1 t.2 a.world
  ⟨r.1, a.tanks ++ [r.2]⟩

/-- Any number of tanks in a world. -/
def Arena.start (world : P.PhysicsWorld) (ts : List (ℚ × Vec2f)) : Arena P :=
  Runs.run Arena.construct ⟨world, []⟩ ts

def Arena.step (a : Arena P) : ArenaAct T → Arena P
  | .tank i c =>
    match a.tanks[i]? with
    | none => a
    | some tank =>
      let r := tank.call a.world c
      ⟨r.1, a.tanks.set i r.2⟩
  | .worldUpdate dt => { a with world := P.UpdateWorld dt a.world }

/-! ## one update -/

/-- What the countdown does to a bullet. -/
def Bullet.tick (dt : T) (bullet : Bullet P) : Bullet P :=
  if bullet.active then
    { bullet with
      lifetime := bullet.lifetime - dt, active := decide (¬ bullet.lifetime - dt ≤ 0) }
  else bullet

theorem bullet_update (dt : T) (world : P.PhysicsWorld) (bullet : Bullet P) :
    bullet.Update dt world
      = (if !(bullet.tick dt).active then world
          else P.mutate (bullet.tick dt).body_handle (P.UpdateBody dt) world, bullet.tick dt) := by
  unfold Bullet.Update Bullet.tick
  cases hb : bullet.active with
  | false => simp [hb]
  | true =>
    by_cases hl : bullet.lifetime - dt ≤ 0
    · simp [hl]
    · simp [hl]

/-- The bodies that get a `Body::Update(dt)`, one after the other. -/
def advance (dt : T) (world : P.PhysicsWorld) (hs : List P.BodyHandle) : P.PhysicsWorld :=
  hs.foldl (fun world h => P.mutate h (P.UpdateBody dt) world) world

/-- The bullets that an `Update` keeps. -/
def survivors (dt : T) (bullets : List (Bullet P)) : List (Bullet P) :=
  (bullets.map (Bullet.tick dt)).filter fun b => b.active

/-- **`Update` advances the tank and each bullet that it keeps, once and in order.** -/
theorem update_bullets (dt : T) (tank : PlayerController P) (world : P.PhysicsWorld) :
    tank.Update dt world
      = (advance dt world (tank.body_handle_ :: (survivors dt tank.bullets).map Bullet.body_handle),
        { tank with bullets := survivors dt tank.bullets }) := by
  have hpass : Sweep.pass (Bullet.Update dt) (fun b : Bullet P => !b.active)
        (P.mutate tank.body_handle_ (P.UpdateBody dt) world) tank.bullets
      = ((survivors dt tank.bullets).foldl
          (fun world b => P.mutate b.body_handle (P.UpdateBody dt) world)
          (P.mutate tank.body_handle_ (P.UpdateBody dt) world), survivors dt tank.bullets) := by
    have hpass := @Sweep.pass_eq _ _ (Bullet.Update dt) (fun b : Bullet P => !b.active)
      (Bullet.tick dt) (fun world b => P.mutate b.body_handle (P.UpdateBody dt) world)
      (bullet_update dt) (P.mutate tank.body_handle_ (P.UpdateBody dt) world) tank.bullets
    simpa only [survivors, Bool.not_not] using hpass
  unfold PlayerController.Update
  simp only [Sweep.sweep_all, hpass]
  unfold advance
  rw [List.foldl_cons, List.foldl_map]

end

/-! ## a world for runs on fixed calls -/

structure NewtonBody where
  position : Vec2f
  velocity : Vec2f
  force : Vec2f
  mass : ℚ

structure NewtonWorld where
  bodies : List NewtonBody
  colliders : List (Collider Nat)

def NewtonBody.update (dt : ℚ) (b : NewtonBody) : NewtonBody :=
  let velocity := b.velocity.add (b.force.mul (dt / b.mass))
  { b with position := b.position.add (velocity.mul dt), velocity, force := ⟨0, 0⟩ }

/-- Vectors of bodies and colliders without collisions; directions have length 1, and `seconds` is the
exact value of a time. -/
def Newton {T : Type} (seconds : T → ℚ) : Physics T where
  Body := NewtonBody
  BodyHandle := Nat
  PhysicsWorld := NewtonWorld
  newBody := ⟨⟨0, 0⟩, ⟨0, 0⟩, ⟨0, 0⟩, 1⟩
  newHandle := 0
  set_position p b := { b with position := p }
  set_mass m b := { b with mass := m }
  ApplyForce f b := { b with force := b.force.add f }
  UpdateBody dt := NewtonBody.update (seconds dt)
  position := NewtonBody.position
  Normalized v := v
  CreateBody b w := ({ w with bodies := w.bodies ++ [b] }, w.bodies.length)
  CreateCollider _ c w := { w with colliders := c :: w.colliders }
  GetBody w h := w.bodies.getD h ⟨⟨0, 0⟩, ⟨0, 0⟩, ⟨0, 0⟩, 1⟩
  mutate h f w := { w with bodies := w.bodies.modify h f }
  UpdateWorld dt w := { w with bodies := w.bodies.map (NewtonBody.update (seconds dt)) }
  bodies w := List.range w.bodies.length
  colliders := NewtonWorld.colliders

theorem range_modify {α : Type} (l : List α) (h : Nat) (f : α → α) :
    List.range (l.modify h f).length = List.range l.length := by
  rw [List.length_modify]

theorem range_snoc {α : Type} (l : List α) (b : α) :
    (List.range (l ++ [b]).length).Perm (l.length :: List.range l.length) := by
  rw [List.length_append, List.length_singleton, List.range_succ]
  exact List.perm_append_singleton _ _

theorem newton_lawful {T : Type} (seconds : T → ℚ) : (Newton seconds).Lawful where
  fresh _ _ := List.not_mem_range_self
  bodies_createBody b w := range_snoc (NewtonWorld.bodies w) b
  colliders_createBody _ _ := List.Perm.refl _
  bodies_createCollider _ _ _ := List.Perm.refl _
  colliders_createCollider _ _ _ := List.Perm.refl _
  bodies_mutate h f w := List.Perm.of_eq (range_modify (NewtonWorld.bodies w) h f)
  colliders_mutate _ _ _ := List.Perm.refl _
  bodies_updateWorld _ _ := List.Perm.of_eq (congrArg List.range (List.length_map _))
  colliders_updateWorld _ _ := List.Perm.refl _
  normalized_unit _ _ := rfl

end Game
