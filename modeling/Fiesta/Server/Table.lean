import Mathlib.Data.List.Perm.Subperm
import Fiesta.Server.Fanout

/-!
# The slot table and the selector over a whole run

* `SameTable`          what a pass over the ready sockets leaves alone: table, selector, handles;
* `iteration_inv`      an invariant of `beforeSelect` and of one ready socket is one of the loop;
* `all_held_iff`       every accepted socket is still held iff no reaping pass has cleared a slot;
* `selector_exact`     the selector watches exactly the held sockets iff no pass has cleared one;
* `forgets_iff`        with honest port readings the loop forgets nobody that has ended.

The reaping pass asks `getLocalPort()`, which is about the server's OWN handle, and no path of the
loop closes a handle before its slot is cleared; it also drops a socket without taking it out of
the selector.
-/

namespace Relay

/-! ## what a pass over the ready sockets leaves alone -/

def SameTable (w w' : World) : Prop :=
  w'.sockets = w.sockets ∧ w'.socketSelector = w.socketSelector ∧ w'.accepted = w.accepted ∧
    w'.handle = w.handle ∧ w'.since = w.since

theorem SameTable.refl (w : World) : SameTable w w := ⟨rfl, rfl, rfl, rfl, rfl⟩

theorem SameTable.trans {u v w : World} (h : SameTable u v) (h' : SameTable v w) :
    SameTable u w := by
  obtain ⟨h1, h2, h3, h4, h5⟩ := h
  obtain ⟨g1, g2, g3, g4, g5⟩ := h'
  exact ⟨g1.trans h1, g2.trans h2, g3.trans h3, g4.trans h4, g5.trans h5⟩

theorem onReady_sameTable {env : Env} {s : SocketId} {w w' : World}
    (h : onReady env s w = some w') : SameTable w w' := by
  rcases onReady_cases h with rfl | rfl | ⟨n, out', _, _, _, rfl⟩
  · exact SameTable.refl _
  · exact ⟨rfl, rfl, rfl, rfl, rfl⟩
  · exact ⟨rfl, rfl, rfl, rfl, rfl⟩

/-- **One pass over the slots**: an invariant of each ready socket is an invariant of the pass. -/
theorem poll_inv (env : Env) (I : World → Prop) (cells : List (Option SocketId))
    (hs : ∀ s w w', some s ∈ cells → I w → onReady env s w = some w' → I w') (w w' : World)
    (h : poll env cells w = some w') (hI : I w) : I w' := by
  induction cells generalizing w with
  | nil =>
    obtain rfl : w = w' := Option.some.inj h
    exact hI
  | cons c cells ih =>
    have ih' := ih (fun s v v' hc => hs s v v' (List.mem_cons_of_mem _ hc))
    cases c with
    | none => exact ih' w h hI
    | some s =>
      rw [poll] at h
      cases hready : isReady env w s with
      | false =>
        rw [hready, if_neg Bool.false_ne_true] at h
        exact ih' w h hI
      | true =>
        rw [hready, if_pos rfl] at h
        obtain ⟨v, hv, hrest⟩ := Option.bind_eq_some_iff.mp h
        exact ih' v hrest (hs s w v List.mem_cons_self hI hv)

/-- an invariant that holds at the select and survives each ready socket holds after the round -/
theorem iteration_inv {env : Env} {w w' : World} (I : World → Prop)
    (h0 : I (beforeSelect env w))
    (hs : ∀ s v v', s ∈ (beforeSelect env w).sockets → I v → onReady env s v = some v' → I v')
    (h : iteration w env = some w') : I w' := by
  unfold iteration at h
  cases hw : env.wait with
  | false =>
    rw [hw, if_neg Bool.false_ne_true] at h
    exact Option.some.inj h ▸ h0
  | true =>
    rw [hw, if_pos rfl] at h
    exact poll_inv env I _ hs _ _ h h0

theorem iteration_sameTable {env : Env} {w w' : World} (h : iteration w env = some w') :
    SameTable (beforeSelect env w) w' :=
  iteration_inv (SameTable (beforeSelect env w)) (SameTable.refl _)
    (fun _ _ _ _ hv hstep => hv.trans (onReady_sameTable hstep)) h

/-! ## the table at the select -/

section
variable (env : Env) (w : World)

theorem accept_true (h : env.acceptDone = true) :
    (accept env w).socketSelector = w.socketSelector ++ [w.accepted] ∧
      (accept env w).sockets = w.sockets.put w.accepted (accepted_not_mem w) ∧
      (accept env w).accepted = w.accepted + 1 ∧
      (accept env w).handle = Function.update w.handle w.accepted true ∧
      (accept env w).since = Function.update w.since w.accepted w.relayed.length := by
  unfold accept
  rw [if_pos h]
  exact ⟨rfl, rfl, rfl, rfl, rfl⟩

theorem accept_false (h : env.acceptDone = false) : accept env w = w := by
  unfold accept
  rw [h]
  rfl

/-- the streams and the history of messages are not touched by an accept -/
theorem accept_streams : (accept env w).incoming = w.incoming ∧ (accept env w).wrote = w.wrote ∧
    (accept env w).out = w.out ∧ (accept env w).relayed = w.relayed ∧
    (accept env w).ended = w.ended := by
  cases h : env.acceptDone with
  | false =>
    rw [accept_false env w h]
    exact ⟨rfl, rfl, rfl, rfl, rfl⟩
  | true =>
    unfold accept
    rw [if_pos h]
    exact ⟨rfl, rfl, rfl, rfl, rfl⟩

theorem mem_reap (s : SocketId) :
    s ∈ (reap env w).sockets ↔ s ∈ w.sockets ∧ env.localPortZero s = false :=
  Slots.mem_clear _ _ _

theorem mem_beforeSelect (s : SocketId) :
    s ∈ (beforeSelect env w).sockets ↔
      (s ∈ w.sockets ∧ env.localPortZero s = false) ∨ (env.acceptDone = true ∧ s = w.accepted) := by
  show s ∈ (accept env (reap env w)).sockets ↔ _
  cases h : env.acceptDone with
  | false =>
    rw [accept_false env _ h, mem_reap]
    simp
  | true =>
    rw [(accept_true env _ h).2.1, Slots.mem_put, mem_reap]
    show s = w.accepted ∨ _ ↔ _
    simp only [true_and]
    exact or_comm

theorem beforeSelect_accepted : (beforeSelect env w).accepted =
    if env.acceptDone then w.accepted + 1 else w.accepted := by
  show (accept env (reap env w)).accepted = _
  cases h : env.acceptDone with
  | false =>
    rw [accept_false env _ h]
    rfl
  | true =>
    rw [(accept_true env _ h).2.2.1]
    rfl

theorem beforeSelect_selector : (beforeSelect env w).socketSelector =
    if env.acceptDone then w.socketSelector ++ [w.accepted] else w.socketSelector := by
  show (accept env (reap env w)).socketSelector = _
  cases h : env.acceptDone with
  | false =>
    rw [accept_false env _ h]
    rfl
  | true =>
    rw [(accept_true env _ h).1]
    rfl

theorem beforeSelect_ended : (beforeSelect env w).ended = w.ended :=
  (accept_streams env (reap env w)).2.2.2.2

/-- a held socket whose port does not read 0 keeps its handle, a new one has an open handle -/
theorem beforeSelect_handle (s : SocketId) (hs : s ∈ (beforeSelect env w).sockets)
    (hw : ∀ s ∈ w.sockets, w.handle s = true) : (beforeSelect env w).handle s = true := by
  show (accept env (reap env w)).handle s = true
  have hold : ∀ s ∈ w.sockets, env.localPortZero s = false → (reap env w).handle s = true := by
    intro s hs hp
    show (w.handle s && !(decide (s ∈ w.sockets) && env.localPortZero s)) = true
    rw [hw s hs, hp, Bool.and_false]
    rfl
  rcases (mem_beforeSelect env w s).mp hs with ⟨hmem, hp⟩ | ⟨hacc, rfl⟩
  · cases h : env.acceptDone with
    | false =>
      rw [accept_false env _ h]
      exact hold s hmem hp
    | true =>
      have hne : s ≠ (reap env w).accepted := Nat.ne_of_lt (w.fresh s hmem)
      rw [(accept_true env _ h).2.2.2.1, Function.update_of_ne hne]
      exact hold s hmem hp
  · rw [(accept_true env _ hacc).2.2.2.1]
    exact Function.update_self ..

end

/-! ## has a slot ever been cleared -/

/-- the reaping pass of `env` reads no held socket's port as 0 -/
def ReapsNone (w : World) (env : Env) : Prop := ∀ s ∈ w.sockets, env.localPortZero s = false

/-- everybody ever accepted is held -/
def AllHeld (w : World) : Prop := ∀ s, s < w.accepted → s ∈ w.sockets

theorem allHeld_beforeSelect (env : Env) (w : World) :
    AllHeld (beforeSelect env w) ↔ AllHeld w ∧ ReapsNone w env := by
  unfold AllHeld
  refine ⟨?_, ?_⟩
  · intro h
    have hold : ∀ s, s < w.accepted → s ∈ w.sockets ∧ env.localPortZero s = false := by
      intro s hs
      have hlt : s < (beforeSelect env w).accepted := by
        rw [beforeSelect_accepted]
        split <;> omega
      rcases (mem_beforeSelect env w s).mp (h s hlt) with hmem | ⟨_, rfl⟩
      · exact hmem
      · exact absurd hs (Nat.lt_irrefl _)
    exact ⟨fun s hs => (hold s hs).1, fun s hs => (hold s (w.fresh s hs)).2⟩
  · rintro ⟨hall, hnone⟩ s hs
    rw [beforeSelect_accepted] at hs
    rw [mem_beforeSelect]
    by_cases hlt : s < w.accepted
    · exact Or.inl ⟨hall s hlt, hnone s (hall s hlt)⟩
    · cases h : env.acceptDone with
      | false =>
        rw [h, if_neg Bool.false_ne_true] at hs
        exact absurd hs hlt
      | true =>
        rw [h, if_pos rfl] at hs
        exact Or.inr ⟨rfl, Nat.eq_of_lt_succ_of_not_lt hs hlt⟩

theorem allHeld_iteration {env : Env} {w w' : World} (h : iteration w env = some w') :
    AllHeld w' ↔ AllHeld w ∧ ReapsNone w env := by
  obtain ⟨hsock, _, hacc, _, _⟩ := iteration_sameTable h
  rw [← allHeld_beforeSelect]
  unfold AllHeld
  rw [hsock, hacc]

/-- **Nobody is missing iff no reaping pass of the run has cleared a slot.** -/
theorem all_held_iff (envs : List Env) (w : World) (h : serve envs = some w) :
    AllHeld w ↔ Runs.Along iteration ReapsNone start envs := by
  refine Runs.exec_hist iteration start (fun l v => AllHeld v ↔ Runs.Along iteration ReapsNone start l)
    ?_ ?_ envs w h
  · exact ⟨fun _ => trivial, fun _ s hs => absurd hs (Nat.not_lt_zero s)⟩
  · intro l v env v' hl hv hstep
    rw [Runs.along_snoc hl, ← hv, allHeld_iteration hstep]

/-! ## the selector -/

/-- every accepted socket is registered, and stays so -/
theorem selector_range (envs : List Env) (w : World) (h : serve envs = some w) :
    w.socketSelector = List.range w.accepted := by
  refine Runs.exec_hist iteration start (fun _ v => v.socketSelector = List.range v.accepted)
    rfl ?_ envs w h
  intro l v env v' _ hv hstep
  obtain ⟨_, hsel, hacc, _, _⟩ := iteration_sameTable hstep
  rw [hsel, hacc, beforeSelect_selector, beforeSelect_accepted]
  cases env.acceptDone
  · exact hv
  · rw [if_pos rfl, if_pos rfl, List.range_succ, hv]

theorem beforeSelect_selector_range (env : Env) (w : World)
    (h : w.socketSelector = List.range w.accepted) :
    (beforeSelect env w).socketSelector = List.range (beforeSelect env w).accepted := by
  rw [beforeSelect_selector, beforeSelect_accepted]
  cases env.acceptDone
  · exact h
  · rw [if_pos rfl, if_pos rfl, List.range_succ, h]

/-- the selector watches exactly the held sockets -/
def WatchesHeld (w : World) : Prop := ∀ s, s ∈ w.socketSelector ↔ s ∈ w.sockets

theorem watchesHeld_iff (w : World) (h : w.socketSelector = List.range w.accepted) :
    WatchesHeld w ↔ AllHeld w := by
  unfold WatchesHeld
  rw [h]
  refine ⟨?_, ?_⟩
  · intro hw s hs
    exact (hw s).mp (List.mem_range.mpr hs)
  · intro hall s
    exact ⟨fun hs => hall s (List.mem_range.mp hs), fun hs => List.mem_range.mpr (w.fresh s hs)⟩

/-- **The selector**: at the head of the loop and at the next select it watches exactly the held
sockets if and only if no reaping pass so far has cleared a slot. -/
theorem selector_exact (envs : List Env) (w : World) (h : serve envs = some w) (env : Env) :
    (WatchesHeld w ↔ Runs.Along iteration ReapsNone start envs) ∧
      (WatchesHeld (beforeSelect env w) ↔
        Runs.Along iteration ReapsNone start (envs ++ [env])) := by
  have hrange := selector_range envs w h
  have hall := all_held_iff envs w h
  refine ⟨?_, ?_⟩
  · rw [watchesHeld_iff w hrange, hall]
  · rw [watchesHeld_iff _ (beforeSelect_selector_range env w hrange), allHeld_beforeSelect, hall,
      ← Runs.along_snoc h]

/-- a round in which somebody is accepted and everything else is quiet -/
def joinEnv : Env where
  localPortZero := fun _ => false
  acceptDone := true
  arrivals := fun _ => []
  wait := false
  ready := fun _ => false
  recv := fun _ => .notReady
  send := fun _ _ => []

/-- a round in which every held socket's port reads 0 -/
def reapEnv : Env := { joinEnv with acceptDone := false, localPortZero := fun _ => true }

theorem selector_exact_join : ∃ w, serve [joinEnv] = some w ∧
    (WatchesHeld w ↔ Runs.Along iteration ReapsNone start [joinEnv]) ∧
      (WatchesHeld (beforeSelect reapEnv w) ↔
        Runs.Along iteration ReapsNone start ([joinEnv] ++ [reapEnv])) :=
  ⟨_, rfl, selector_exact [joinEnv] _ rfl reapEnv⟩

/-- The socket that a reaping pass has destroyed stays registered. -/
theorem selector_keeps_destroyed :
    ¬ ∀ (envs : List Env) (w : World), serve envs = some w → WatchesHeld w := by
  intro h
  obtain ⟨w, hw⟩ : ∃ w, serve [joinEnv, reapEnv] = some w := ⟨_, rfl⟩
  have hwatch := h _ w hw 0
  have hsel : 0 ∈ w.socketSelector := by
    cases hw
    decide
  have hgone : 0 ∉ w.sockets := by
    cases hw
    decide
  exact hgone (hwatch.mp hsel)

/-! ## clients that have gone -/

/-- what SFML promises of `getLocalPort()`: it reads 0 exactly when the own handle is closed -/
def HonestPorts (w : World) (env : Env) : Prop :=
  ∀ s ∈ w.sockets, (env.localPortZero s = true ↔ w.handle s = false)

/-- the loop never closes the handle of a socket it holds -/
theorem handle_open (envs : List Env) (w : World) (h : serve envs = some w) :
    ∀ s ∈ w.sockets, w.handle s = true := by
  refine Runs.exec_hist iteration start (fun _ v => ∀ s ∈ v.sockets, v.handle s = true)
    ?_ ?_ envs w h
  · exact fun s hs => absurd hs (Slots.not_mem_empty s)
  · intro l v env v' _ hv hstep s hs
    obtain ⟨hsock, _, _, hhandle, _⟩ := iteration_sameTable hstep
    rw [hhandle]
    rw [hsock] at hs
    exact beforeSelect_handle env v s hs hv

/-- so with honest readings the reaping pass clears nothing -/
theorem reapsNone_of_honest {envs : List Env} {w : World} (h : serve envs = some w) {env : Env}
    (hport : HonestPorts w env) : ReapsNone w env := by
  intro s hs
  cases hp : env.localPortZero s with
  | false => rfl
  | true =>
    have hopen := handle_open envs w h s hs
    rw [(hport s hs).mp hp] at hopen
    exact absurd hopen Bool.false_ne_true

/-- a receive reports an end only on a held socket -/
theorem ended_held {env : Env} {w w' : World} (hstep : iteration w env = some w')
    (hw : ∀ s ∈ w.ended, s ∈ (beforeSelect env w).sockets) :
    ∀ s ∈ w'.ended, s ∈ w'.sockets := by
  rw [(iteration_sameTable hstep).1]
  refine iteration_inv (fun v => ∀ s ∈ v.ended, s ∈ (beforeSelect env w).sockets) ?_ ?_ hstep
  · rw [beforeSelect_ended]
    exact hw
  · intro s v v' hs hv h
    rcases onReady_cases h with rfl | rfl | ⟨n, out', _, _, _, rfl⟩
    · exact hv
    · intro q hq
      rcases List.mem_append.mp hq with hq | hq
      · exact hv q hq
      · obtain rfl : q = s := List.mem_singleton.mp hq
        exact hs
    · exact hv

theorem ended_stays (envs : List Env) (w : World) (h : serve envs = some w)
    (hport : Runs.Along iteration HonestPorts start envs) : ∀ s ∈ w.ended, s ∈ w.sockets := by
  refine Runs.exec_hist iteration start
    (fun l v => Runs.Along iteration HonestPorts start l → ∀ s ∈ v.ended, s ∈ v.sockets)
    ?_ ?_ envs w h hport
  · exact fun _ s hs => absurd hs List.not_mem_nil
  · intro l v env v' hl hv hstep halong
    obtain ⟨hbefore, hlast⟩ := (Runs.along_snoc hl).mp halong
    refine ended_held hstep (fun s hs => (mem_beforeSelect env v s).mpr (Or.inl ?_))
    have hmem := hv hbefore s hs
    exact ⟨hmem, reapsNone_of_honest hl hlast s hmem⟩

/-- no more sockets are held than were accepted -/
theorem held_le_accepted (w : World) : w.sockets.held.length ≤ w.accepted := by
  have hsub : w.sockets.held ⊆ List.range w.accepted := fun s hs =>
    List.mem_range.mpr (w.fresh s ((Slots.mem_held _ s).mp hs))
  have hle := (List.subperm_of_subset w.sockets.held_nodup hsub).length_le
  rwa [List.length_range] at hle

/-- the accepted peers whose end no receive has reported -/
def alive (w : World) : List SocketId :=
  (List.range w.accepted).filter fun s => decide (s ∉ w.ended)

/-- in the next round, whoever has ended is out of its slot after the reaping pass, and at the
select no more slots are taken than peers are alive -/
def Forgets (env : Env) (w : World) : Prop :=
  (∀ s ∈ w.ended, s ∉ (reap env w).sockets) ∧
    (beforeSelect env w).sockets.held.length ≤ (alive (beforeSelect env w)).length

/-- **Clients that have gone**: with honest port readings the loop forgets everybody who has ended
if and only if nobody has. -/
theorem forgets_iff (envs : List Env) (w : World) (h : serve envs = some w) (env : Env)
    (hport : Runs.Along iteration HonestPorts start (envs ++ [env])) :
    Forgets env w ↔ w.ended = [] := by
  obtain ⟨hbefore, hlast⟩ := (Runs.along_snoc h).mp hport
  refine ⟨?_, ?_⟩
  · rintro ⟨hgone, _⟩
    cases he : w.ended with
    | nil => rfl
    | cons s rest =>
      have hs : s ∈ w.ended := he ▸ List.mem_cons_self
      have hmem := ended_stays envs w h hbefore s hs
      have hkept := (mem_reap env w s).mpr ⟨hmem, reapsNone_of_honest h hlast s hmem⟩
      exact absurd hkept (hgone s hs)
  · intro he
    refine ⟨?_, ?_⟩
    · rw [he]
      exact fun s hs => absurd hs List.not_mem_nil
    · have halive : alive (beforeSelect env w) = List.range (beforeSelect env w).accepted := by
        unfold alive
        rw [beforeSelect_ended, he]
        exact List.filter_eq_self.mpr fun s _ => by simp
      rw [halive, List.length_range]
      exact held_le_accepted _

/-- a client joins and is gone when its socket is first read -/
def goneEnv : Env :=
  { joinEnv with wait := true, ready := fun _ => true, recv := fun _ => .disconnected }

theorem honest_gone : Runs.Along iteration HonestPorts start ([goneEnv] ++ [joinEnv]) := by
  refine ⟨fun s hs => absurd hs (Slots.not_mem_empty s), fun w hw => ⟨fun s hs => ?_, fun _ _ => trivial⟩⟩
  have hopen := handle_open [goneEnv] w (by rw [serve, Runs.exec_cons, hw]; rfl) s hs
  rw [hopen]
  exact ⟨fun h => absurd h Bool.false_ne_true, fun h => absurd h.symm Bool.false_ne_true⟩

theorem forgets_iff_gone : ∃ w, serve [goneEnv] = some w ∧ (Forgets joinEnv w ↔ w.ended = []) :=
  ⟨_, rfl, forgets_iff [goneEnv] _ rfl joinEnv honest_gone⟩

/-- A client that has disconnected keeps its slot. -/
theorem forgets_never :
    ¬ ∀ (envs : List Env) (env : Env) (w : World), serve envs = some w →
      Runs.Along iteration HonestPorts start (envs ++ [env]) → Forgets env w := by
  intro h
  obtain ⟨w, hw⟩ : ∃ w, serve [goneEnv] = some w := ⟨_, rfl⟩
  have hforgets := h [goneEnv] joinEnv w hw honest_gone
  have hended : 0 ∈ w.ended := by
    cases hw
    decide
  have hheld : 0 ∈ (reap joinEnv w).sockets := by
    cases hw
    decide
  exact hforgets.1 0 hended hheld

end Relay
