import Mathlib.Data.List.Induction
import Mathlib.Data.List.Infix
import Mathlib.Tactic.Common

/-!
# Runs of a deterministic machine

A machine takes one input at a time.  `run step s l` feeds the list `l` to a total machine,
`exec step s l` feeds it to a machine that can get stuck (`none`: the input never ends).

* `exec_hist`               an invariant of the inputs fed SO FAR and the state they lead to;
* `run_inv`, `exec_inv`     an invariant of the state alone, with a condition on the inputs;
* `exec_total`              a machine that no input gets stuck is total along every run;
* `Along step P s l`        `P` holds of the state and the input at every step of the run:
                            `along_snoc`;
* `AtEach X l`              `X` holds of every input and the inputs before it: `atEach_snoc`.
-/

namespace Runs

section
variable {σ ε : Type*}

/-! ## total machines -/

def run (step : σ → ε → σ) (s : σ) (l : List ε) : σ := l.foldl step s

theorem run_nil (step : σ → ε → σ) (s : σ) : run step s [] = s := rfl
theorem run_cons (step : σ → ε → σ) (s : σ) (a : ε) (l : List ε) :
    run step s (a :: l) = run step (step s a) l := rfl
theorem run_append (step : σ → ε → σ) (s : σ) (l r : List ε) :
    run step s (l ++ r) = run step (run step s l) r := List.foldl_append ..
theorem run_snoc (step : σ → ε → σ) (s : σ) (l : List ε) (a : ε) :
    run step s (l ++ [a]) = step (run step s l) a := by
  rw [run_append, run_cons, run_nil]

/-- An invariant of the state that the inputs with `P` preserve. -/
theorem run_inv (step : σ → ε → σ) (P : ε → Prop) (I : σ → Prop)
    (hs : ∀ s a, P a → I s → I (step s a)) (l : List ε) (hP : ∀ a ∈ l, P a) (s : σ) (h0 : I s) :
    I (run step s l) := by
  induction l generalizing s with
  | nil => exact h0
  | cons a l ih =>
    rw [run_cons]
    exact ih (fun b hb => hP b (List.mem_cons_of_mem _ hb)) _
      (hs s a (hP a List.mem_cons_self) h0)

/-! ## machines that can get stuck -/

def exec (step : σ → ε → Option σ) : σ → List ε → Option σ
  | s, [] => some s
  | s, a :: l => (step s a).bind fun s' => exec step s' l

theorem exec_cons (step : σ → ε → Option σ) (s : σ) (a : ε) (l : List ε) :
    exec step s (a :: l) = (step s a).bind fun s' => exec step s' l := rfl

theorem exec_append (step : σ → ε → Option σ) (s : σ) (l r : List ε) :
    exec step s (l ++ r) = (exec step s l).bind fun s' => exec step s' r := by
  induction l generalizing s with
  | nil => rfl
  | cons a l ih =>
    rw [List.cons_append, exec_cons, exec_cons, Option.bind_assoc]
    congr 1
    funext s'
    exact ih s'

theorem exec_snoc (step : σ → ε → Option σ) (s : σ) (l : List ε) (a : ε) :
    exec step s (l ++ [a]) = (exec step s l).bind fun s' => step s' a := by
  rw [exec_append]
  congr 1
  funext s'
  show (step s' a).bind some = step s' a
  exact Option.bind_fun_some _

/-- A run that ends has ended after each of its beginnings. -/
theorem exec_prefix {step : σ → ε → Option σ} {s t : σ} {l r : List ε}
    (h : exec step s (l ++ r) = some t) :
    ∃ m, exec step s l = some m ∧ exec step m r = some t := by
  rw [exec_append] at h
  exact Option.bind_eq_some_iff.mp h

/-- **History induction**: what holds at the start and survives one more input holds after
every list of inputs that ends. -/
theorem exec_hist (step : σ → ε → Option σ) (s₀ : σ) (I : List ε → σ → Prop) (h0 : I [] s₀)
    (hs : ∀ l s a s', exec step s₀ l = some s → I l s → step s a = some s' → I (l ++ [a]) s')
    (l : List ε) (s : σ) (h : exec step s₀ l = some s) : I l s := by
  induction l using List.reverseRecOn generalizing s with
  | nil =>
    obtain rfl : s₀ = s := Option.some.inj h
    exact h0
  | append_singleton l a ih =>
    rw [exec_snoc] at h
    obtain ⟨m, hm, hstep⟩ := Option.bind_eq_some_iff.mp h
    exact hs l m a s hm (ih m hm) hstep

theorem exec_inv (step : σ → ε → Option σ) (P : ε → Prop) (I : σ → Prop)
    (hs : ∀ s a s', P a → I s → step s a = some s' → I s') (l : List ε) (hP : ∀ a ∈ l, P a)
    (s : σ) (h0 : I s) (t : σ) (h : exec step s l = some t) : I t := by
  induction l generalizing s with
  | nil =>
    obtain rfl : s = t := Option.some.inj h
    exact h0
  | cons a l ih =>
    rw [exec_cons] at h
    obtain ⟨m, hm, hrest⟩ := Option.bind_eq_some_iff.mp h
    exact ih (fun b hb => hP b (List.mem_cons_of_mem _ hb)) m
      (hs s a m (hP a List.mem_cons_self) h0 hm) hrest

/-- If no input with `P` gets the machine stuck, no list of them does. -/
theorem exec_total (step : σ → ε → Option σ) (P : ε → Prop)
    (hs : ∀ s a, P a → ∃ s', step s a = some s') (l : List ε) (hP : ∀ a ∈ l, P a) (s : σ) :
    ∃ t, exec step s l = some t := by
  induction l generalizing s with
  | nil => exact ⟨s, rfl⟩
  | cons a l ih =>
    obtain ⟨m, hm⟩ := hs s a (hP a List.mem_cons_self)
    obtain ⟨t, ht⟩ := ih (fun b hb => hP b (List.mem_cons_of_mem _ hb)) m
    exact ⟨t, by rw [exec_cons, hm]; exact ht⟩

/-! ## conditions at every step -/

def Along (step : σ → ε → Option σ) (P : σ → ε → Prop) : σ → List ε → Prop
  | _, [] => True
  | s, a :: l => P s a ∧ ∀ s', step s a = some s' → Along step P s' l

theorem along_snoc {step : σ → ε → Option σ} {P : σ → ε → Prop} {s t : σ} {l : List ε} {a : ε}
    (h : exec step s l = some t) :
    Along step P s (l ++ [a]) ↔ Along step P s l ∧ P t a := by
  induction l generalizing s with
  | nil =>
    obtain rfl : s = t := Option.some.inj h
    exact ⟨fun ⟨hp, _⟩ => ⟨trivial, hp⟩, fun ⟨_, hp⟩ => ⟨hp, fun _ _ => trivial⟩⟩
  | cons b l ih =>
    obtain ⟨m, hm, hrest⟩ := Option.bind_eq_some_iff.mp h
    refine ⟨?_, ?_⟩
    · rintro ⟨hp, hl⟩
      obtain ⟨hl', ht⟩ := (ih hrest).mp (hl m hm)
      refine ⟨⟨hp, fun s' hs' => ?_⟩, ht⟩
      obtain rfl : m = s' := Option.some.inj (hm.symm.trans hs')
      exact hl'
    · rintro ⟨⟨hp, hl⟩, ht⟩
      refine ⟨hp, fun s' hs' => ?_⟩
      obtain rfl : m = s' := Option.some.inj (hm.symm.trans hs')
      exact (ih hrest).mpr ⟨hl m hm, ht⟩

/-- **Refinement**: a machine whose steps do what they should, wherever they are allowed, never gets
stuck on a run that is allowed, and ends where it should. -/
theorem exec_refines {τ : Type*} {step : σ → ε → Option σ} {P : σ → ε → Prop} {next : τ → ε → τ}
    {R : τ → σ → Prop}
    (hs : ∀ t s a, R t s → P s a → ∃ s', step s a = some s' ∧ R (next t a) s') (l : List ε) {t : τ}
    {s : σ} (h : R t s) (hP : Along step P s l) :
    ∃ s', exec step s l = some s' ∧ R (run next t l) s' := by
  induction l generalizing t s with
  | nil => exact ⟨s, rfl, h⟩
  | cons a l ih =>
    obtain ⟨m, hm, hnext⟩ := hs t s a h hP.1
    obtain ⟨s', hs', hfinal⟩ := ih hnext (hP.2 m hm)
    exact ⟨s', by rw [exec_cons, hm]; exact hs', hfinal⟩

/-! ## conditions at every input -/

def AtEach (X : List ε → ε → Prop) (l : List ε) : Prop := ∀ past a, past ++ [a] <+: l → X past a

theorem atEach_nil (X : List ε → ε → Prop) : AtEach X [] := by
  intro past a h
  simp at h

theorem atEach_snoc {X : List ε → ε → Prop} {l : List ε} {a : ε} :
    AtEach X (l ++ [a]) ↔ AtEach X l ∧ X l a := by
  refine ⟨?_, ?_⟩
  · intro h
    exact ⟨fun past b hb => h past b (hb.trans (List.prefix_append l [a])),
      h l a (List.prefix_refl _)⟩
  · rintro ⟨hl, ha⟩ past b hb
    rcases List.prefix_concat_iff.1 hb with heq | hb
    · obtain ⟨rfl, hlast⟩ := List.append_inj' heq rfl
      rw [List.singleton_inj.1 hlast]
      exact ha
    · exact hl past b hb

end

end Runs
