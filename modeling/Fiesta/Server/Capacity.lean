import Mathlib.Order.Bounds.Defs
import Fiesta.Server.Table

/-!
# The slots over a whole run

* `Arrives`      the states of the loop, at the select and at its head;
* `Keeps`        a reaping pass that does not clear a socket;
* `TableInv`     the table against the run so far: who is held, in which slot, in how many cells;
* `slot_table`   the invariant in every state, socket by socket.
-/

namespace Relay

/-- the loop has used the inputs `envs`, the last of them at least up to the select -/
def Arrives (envs : List Env) (v : World) : Prop :=
  serve envs = some v ∨
    ∃ pre env u, envs = pre ++ [env] ∧ serve pre = some u ∧ v = beforeSelect env u

/-- the reaping pass of `env` does not clear the socket `s` -/
def Keeps (s : SocketId) (w : World) (env : Env) : Prop :=
  s ∈ w.sockets → env.localPortZero s = false

theorem arrives_nil {u : World} (h : Arrives [] u) : u = start := by
  rcases h with h | ⟨pre, env, v, hnil, _⟩
  · exact (Option.some.inj h).symm
  · exact absurd hnil.symm (List.append_ne_nil_of_right_ne_nil _ (List.cons_ne_nil _ _))

/-- after one more input the table is the one of the select -/
theorem arrives_snoc {l : List Env} {v u : World} {env : Env} (hl : serve l = some v)
    (h : Arrives (l ++ [env]) u) :
    u.sockets = (beforeSelect env v).sockets ∧ u.accepted = (beforeSelect env v).accepted := by
  rcases h with h | ⟨pre, env', w, heq, hw, rfl⟩
  · rw [serve, Runs.exec_snoc] at h
    obtain ⟨m, hm, hstep⟩ := Option.bind_eq_some_iff.mp h
    obtain rfl : v = m := Option.some.inj (hl.symm.trans hm)
    obtain ⟨hsock, _, hacc, _, _⟩ := iteration_sameTable hstep
    exact ⟨hsock, hacc⟩
  · obtain ⟨rfl, henv⟩ := List.append_inj' heq rfl
    obtain rfl : env = env' := (List.cons.inj henv).1
    obtain rfl : v = w := Option.some.inj (hl.symm.trans hw)
    exact ⟨rfl, rfl⟩

/-! ## one round -/

/-- **Reaping and accepting move no socket that is not cleared.** -/
theorem heldAt_beforeSelect {env : Env} {w : World} {i : Nat} {s : SocketId}
    (h : w.sockets.HeldAt i s) (hport : env.localPortZero s = false) :
    (beforeSelect env w).sockets.HeldAt i s := by
  have hreap : (reap env w).sockets.HeldAt i s := (Slots.heldAt_clear _ _ i s).mpr ⟨h, hport⟩
  show (accept env (reap env w)).sockets.HeldAt i s
  cases hacc : env.acceptDone with
  | false =>
    rw [accept_false env _ hacc]
    exact hreap
  | true =>
    rw [(accept_true env _ hacc).2.1]
    exact Slots.heldAt_put _ hreap

/-- **The vector grows to the number of held sockets, and never shrinks.** -/
theorem size_beforeSelect (env : Env) (w : World) : (beforeSelect env w).sockets.size =
    max w.sockets.size (beforeSelect env w).sockets.held.length := by
  have hsize : (reap env w).sockets.size = w.sockets.size := Slots.size_clear _ _
  show (accept env (reap env w)).sockets.size =
    max w.sockets.size (accept env (reap env w)).sockets.held.length
  cases hacc : env.acceptDone with
  | false =>
    rw [accept_false env _ hacc, hsize]
    have hle := (reap env w).sockets.held_le_size
    omega
  | true =>
    rw [(accept_true env _ hacc).2.1, Slots.size_put, Slots.length_held_put, hsize]

theorem accepted_le_iteration {env : Env} {w w' : World} (h : iteration w env = some w') :
    w.accepted ≤ w'.accepted := by
  rw [(iteration_sameTable h).2.2.1, beforeSelect_accepted]
  split
  · exact Nat.le_succ _
  · exact Nat.le_refl _

/-- no reaping pass clears a socket that has not been accepted yet -/
theorem keeps_unaccepted (s : SocketId) (envs : List Env) (w : World) (h : serve envs = some w) :
    w.accepted ≤ s → Runs.Along iteration (Keeps s) start envs := by
  refine Runs.exec_hist iteration start
    (fun l w => w.accepted ≤ s → Runs.Along iteration (Keeps s) start l) (fun _ => trivial) ?_
    envs w h
  intro l v env v' hl hv hstep hle
  have hle' := Nat.le_trans (accepted_le_iteration hstep) hle
  refine (Runs.along_snoc hl).mpr ⟨hv hle', fun hmem => ?_⟩
  exact absurd (v.fresh s hmem) (Nat.not_lt.mpr hle')

/-! ## the invariant -/

/-- the numbers of sockets that were held at the same time in the run -/
def heldCounts (envs : List Env) : Set Nat :=
  {n | ∃ pre u, pre <+: envs ∧ Arrives pre u ∧ u.sockets.held.length = n}

structure TableInv (envs : List Env) (v : World) : Prop where
  accepted : v.accepted = envs.countP fun env => env.acceptDone
  held : ∀ s, s < v.accepted → (s ∈ v.sockets ↔ Runs.Along iteration (Keeps s) start envs)
  slot : ∀ pre u, pre <+: envs → Arrives pre u → ∀ i s, u.sockets.HeldAt i s →
    Runs.Along iteration (Keeps s) start envs → v.sockets.HeldAt i s
  size : IsGreatest (heldCounts envs) v.sockets.size

/-- only the table and the number of accepts matter -/
theorem tableInv_congr {envs : List Env} {v w : World} (h : TableInv envs v)
    (hsock : w.sockets = v.sockets) (hacc : w.accepted = v.accepted) : TableInv envs w := by
  refine ⟨hacc.trans h.accepted, ?_, ?_, ?_⟩
  · rw [hsock, hacc]
    exact h.held
  · rw [hsock]
    exact h.slot
  · rw [hsock]
    exact h.size

theorem tableInv_start : TableInv [] start := by
  refine ⟨rfl, fun s hs => absurd hs (Nat.not_lt_zero s), ?_, ?_, ?_⟩
  · intro pre u hpre hu i s hi _
    obtain rfl := List.prefix_nil.mp hpre
    rw [arrives_nil hu] at hi
    exact hi
  · exact ⟨[], start, List.nil_prefix, Or.inl rfl, rfl⟩
  · rintro n ⟨pre, u, hpre, hu, rfl⟩
    obtain rfl := List.prefix_nil.mp hpre
    rw [arrives_nil hu]
    exact Nat.le_refl _

/-- **One more reaping pass and accept.** -/
theorem tableInv_beforeSelect {l : List Env} {v : World} (hl : serve l = some v)
    (h : TableInv l v) (env : Env) : TableInv (l ++ [env]) (beforeSelect env v) := by
  have halong : ∀ s, Runs.Along iteration (Keeps s) start (l ++ [env]) ↔
      Runs.Along iteration (Keeps s) start l ∧ Keeps s v env := fun s => Runs.along_snoc hl
  have hprefix : ∀ pre, pre <+: l ++ [env] → pre = l ++ [env] ∨ pre <+: l := fun pre =>
    List.prefix_concat_iff.mp
  refine ⟨?_, ?_, ?_, ?_, ?_⟩
  · rw [beforeSelect_accepted, List.countP_append, ← h.accepted, List.countP_singleton]
    cases env.acceptDone <;> rfl
  · intro s hs
    rw [halong, mem_beforeSelect]
    rw [beforeSelect_accepted] at hs
    by_cases hlt : s < v.accepted
    · rw [← h.held s hlt]
      refine ⟨?_, ?_⟩
      · rintro (⟨hmem, hport⟩ | ⟨_, rfl⟩)
        · exact ⟨hmem, fun _ => hport⟩
        · exact absurd hlt (Nat.lt_irrefl _)
      · rintro ⟨hmem, hkeep⟩
        exact Or.inl ⟨hmem, hkeep hmem⟩
    · -- the socket of this round's accept, never seen by a reaping pass
      cases hacc : env.acceptDone with
      | false =>
        rw [hacc, if_neg Bool.false_ne_true] at hs
        exact absurd hs hlt
      | true =>
        rw [hacc, if_pos rfl] at hs
        obtain rfl : s = v.accepted := Nat.eq_of_lt_succ_of_not_lt hs hlt
        refine iff_of_true (Or.inr ⟨rfl, rfl⟩) ⟨keeps_unaccepted _ l v hl (Nat.le_refl _), ?_⟩
        exact fun hmem => absurd hmem (accepted_not_mem v)
  · intro pre u hpre hu i s hi hs
    rcases hprefix pre hpre with rfl | hpre'
    · rw [(arrives_snoc hl hu).1] at hi
      exact hi
    · obtain ⟨hbefore, hkeep⟩ := (halong s).mp hs
      have hv := h.slot pre u hpre' hu i s hi hbefore
      exact heldAt_beforeSelect hv (hkeep ((Slots.mem_iff_heldAt _ s).mpr ⟨i, hv⟩))
  · rw [size_beforeSelect]
    rcases Nat.le_total (beforeSelect env v).sockets.held.length v.sockets.size with hle | hle
    · rw [Nat.max_eq_left hle]
      obtain ⟨pre, u, hpre, hu, hn⟩ := h.size.1
      exact ⟨pre, u, hpre.trans (List.prefix_append _ _), hu, hn⟩
    · rw [Nat.max_eq_right hle]
      exact ⟨l ++ [env], _, List.prefix_refl _, Or.inr ⟨l, env, v, rfl, hl, rfl⟩, rfl⟩
  · rintro n ⟨pre, u, hpre, hu, rfl⟩
    rw [size_beforeSelect]
    rcases hprefix pre hpre with rfl | hpre'
    · rw [(arrives_snoc hl hu).1]
      exact Nat.le_max_right _ _
    · exact Nat.le_trans (h.size.2 ⟨pre, u, hpre', hu, rfl⟩) (Nat.le_max_left _ _)

theorem tableInv_serve (envs : List Env) (w : World) (h : serve envs = some w) :
    TableInv envs w := by
  refine Runs.exec_hist iteration start TableInv tableInv_start ?_ envs w h
  intro l v env v' hl hv hstep
  obtain ⟨hsock, _, hacc, _, _⟩ := iteration_sameTable hstep
  exact tableInv_congr (tableInv_beforeSelect hl hv env) hsock hacc

theorem tableInv_arrives (envs : List Env) (v : World) (h : Arrives envs v) : TableInv envs v := by
  rcases h with h | ⟨pre, env, u, rfl, hu, rfl⟩
  · exact tableInv_serve envs v h
  · exact tableInv_beforeSelect hu (tableInv_serve pre u hu) env

/-- **The slot table**, at the head of the loop and at every select: every accept that was `Done` has
its socket, which is held in exactly one slot as long as no reaping pass has cleared it, and in none
from then on; it never changes its slot; and there are as many slots as sockets were ever held at the
same time. -/
theorem slot_table (envs : List Env) (v : World) (h : Arrives envs v) :
    (v.accepted = envs.countP fun env => env.acceptDone) ∧
      (∀ s, s < v.accepted →
        (Runs.Along iteration (Keeps s) start envs → ∃! i, v.sockets.HeldAt i s) ∧
          (¬ Runs.Along iteration (Keeps s) start envs → ∀ i, ¬ v.sockets.HeldAt i s)) ∧
      (∀ pre u, pre <+: envs → Arrives pre u → ∀ i s, u.sockets.HeldAt i s →
        Runs.Along iteration (Keeps s) start envs → v.sockets.HeldAt i s) ∧
      IsGreatest (heldCounts envs) v.sockets.size := by
  have hinv := tableInv_arrives envs v h
  refine ⟨hinv.accepted, fun s hs => ⟨?_, ?_⟩, hinv.slot, hinv.size⟩
  · intro hkept
    obtain ⟨i, hi⟩ := (Slots.mem_iff_heldAt _ s).mp ((hinv.held s hs).mpr hkept)
    exact ⟨i, hi, fun j hj => Slots.heldAt_unique hj hi⟩
  · intro hcleared i hi
    exact hcleared ((hinv.held s hs).mp ((Slots.mem_iff_heldAt _ s).mpr ⟨i, hi⟩))

/-- two clients join, the first is cleared, and a third takes its slot -/
def reuse : List Env := [joinEnv, joinEnv, { joinEnv with localPortZero := fun s => s == 0 }]

theorem slot_table_reuse : ∃ v, Arrives reuse v ∧ v.accepted = 3 ∧ v.sockets.HeldAt 0 2 ∧
    v.sockets.HeldAt 1 1 ∧ IsGreatest (heldCounts reuse) v.sockets.size := by
  obtain ⟨v, hv⟩ : ∃ v, serve reuse = some v := ⟨_, rfl⟩
  have h : Arrives reuse v := Or.inl hv
  obtain ⟨haccepted, _, _, hsize⟩ := slot_table reuse v h
  refine ⟨v, h, haccepted, ?_, ?_, hsize⟩
  · cases hv
    rfl
  · cases hv
    rfl

end Relay
