import Mathlib.Tactic.Common

/-!
# Machines that keep a contract

A machine answers every event with an output.  Its environment sends only events that the machine
`admits`.  A contract `Next` says, phase by phase, which outputs may follow an event, and `permits`
which events its user may send in a phase.

* `trace`, `final`       what is seen of a run, and where it ends;
* `Admitted`             every event of the run is admitted when it comes;
* `Path`                 a trace that the contract allows;
* `outputs_inv`          what the steps keep of the states holds along every run;
* `keeps_contract`       **a simulation of the steps is a simulation of the runs**, up to the first
                         event that is not permitted;
* `length_le_rank`       a run whose steps lower a rank is no longer than the rank.
-/

namespace Contract

section
variable {σ ε ω φ : Type*}

def trace (step : σ → ε → σ × ω) : σ → List ε → List (ε × ω)
  | _, [] => []
  | s, e :: l => (e, (step s e).2) :: trace step (step s e).1 l

def final (step : σ → ε → σ × ω) : σ → List ε → σ
  | s, [] => s
  | s, e :: l => final step (step s e).1 l

def Admitted (step : σ → ε → σ × ω) (admits : σ → ε → Prop) : σ → List ε → Prop
  | _, [] => True
  | s, e :: l => admits s e ∧ Admitted step admits (step s e).1 l

inductive Path (Next : φ → ε → ω → φ → Prop) : φ → List (ε × ω) → φ → Prop where
  | nil (p) : Path Next p [] p
  | cons {p q r e o l} (h : Next p e o q) (hl : Path Next q l r) : Path Next p ((e, o) :: l) r

/-- The run goes on from here only by an event that is not permitted. -/
def Stops (permits : φ → ε → Prop) (p : φ) (l : List ε) : Prop :=
  ∀ e rest, l = e :: rest → ¬ permits p e

variable {step : σ → ε → σ × ω} {admits : σ → ε → Prop} {permits : φ → ε → Prop}
  {Next : φ → ε → ω → φ → Prop}

theorem Admitted.and_imp {admits' : σ → ε → Prop} {P : Prop} {s : σ} {l : List ε}
    (h : Admitted step admits s l) (h' : P → Admitted step admits' s l) :
    Admitted step (fun s e => admits s e ∧ (P → admits' s e)) s l := by
  induction l generalizing s with
  | nil => trivial
  | cons e l ih => exact ⟨⟨h.1, fun hP => (h' hP).1⟩, ih h.2 fun hP => (h' hP).2⟩

theorem path_append_iff {p r : φ} {l l' : List (ε × ω)} :
    Path Next p (l ++ l') r ↔ ∃ q, Path Next p l q ∧ Path Next q l' r := by
  induction l generalizing p with
  | nil =>
    refine ⟨fun h => ⟨p, .nil p, h⟩, ?_⟩
    rintro ⟨q, hl, h⟩
    cases hl
    exact h
  | cons x l ih =>
    constructor
    · intro h
      cases h with
      | cons hn hl =>
        obtain ⟨q, hq, h⟩ := ih.1 hl
        exact ⟨q, .cons hn hq, h⟩
    · rintro ⟨q, hl, h⟩
      cases hl with
      | cons hn hl => exact .cons hn (ih.2 ⟨q, hl, h⟩)

theorem Path.imp {Next' : φ → ε → ω → φ → Prop} (hnext : ∀ p e o q, Next p e o q → Next' p e o q)
    {p q : φ} {l : List (ε × ω)} (h : Path Next p l q) : Path Next' p l q := by
  induction h with
  | nil p => exact .nil p
  | cons hn hl ih => exact .cons (hnext _ _ _ _ hn) ih

/-- What the steps keep of the phases, and what they say of every output while it holds. -/
theorem Path.inv {I : φ → Prop} {P : ε × ω → Prop}
    (hnext : ∀ p e o q, Next p e o q → I p → I q ∧ P (e, o)) {p q : φ} {l : List (ε × ω)}
    (h : Path Next p l q) (hp : I p) : I q ∧ ∀ x ∈ l, P x := by
  induction h with
  | nil p => exact ⟨hp, fun x hx => by cases hx⟩
  | cons hn hl ih =>
    obtain ⟨hq, hP⟩ := hnext _ _ _ _ hn hp
    obtain ⟨hr, hforall⟩ := ih hq
    exact ⟨hr, List.forall_mem_cons.2 ⟨hP, hforall⟩⟩

theorem trace_append (s : σ) (l l' : List ε) :
    trace step s (l ++ l') = trace step s l ++ trace step (final step s l) l' := by
  induction l generalizing s with
  | nil => rfl
  | cons e l ih => exact congrArg _ (ih _)

theorem final_append (s : σ) (l l' : List ε) :
    final step s (l ++ l') = final step (final step s l) l' := by
  induction l generalizing s with
  | nil => rfl
  | cons e l ih => exact ih _

theorem admitted_append {s : σ} {l l' : List ε} (h : Admitted step admits s (l ++ l')) :
    Admitted step admits s l ∧ Admitted step admits (final step s l) l' := by
  induction l generalizing s with
  | nil => exact ⟨trivial, h⟩
  | cons e l ih =>
    obtain ⟨hl, hl'⟩ := ih h.2
    exact ⟨⟨h.1, hl⟩, hl'⟩

/-- What the steps keep of the states, and what they say of every output while it holds. -/
theorem outputs_inv {I : σ → Prop} {Q : ω → Prop}
    (hstep : ∀ s e, I s → admits s e → I (step s e).1 ∧ Q (step s e).2) (l : List ε) {s : σ}
    (hI : I s) (h : Admitted step admits s l) : ∀ x ∈ trace step s l, Q x.2 := by
  induction l generalizing s with
  | nil => exact fun x hx => by cases hx
  | cons e l ih =>
    obtain ⟨hnext, hQ⟩ := hstep s e hI h.1
    exact List.forall_mem_cons.2 ⟨hQ, ih hnext h.2⟩

/-! ## contracts kept -/

/-- **A simulation of the steps is a simulation of the runs.** -/
theorem keeps_contract {R : φ → σ → Prop}
    (hstep : ∀ p s e, R p s → admits s e → permits p e →
      ∃ q, Next p e (step s e).2 q ∧ R q (step s e).1)
    (l : List ε) {p : φ} {s : σ} (hR : R p s) (h : Admitted step admits s l) :
    ∃ done rest q, l = done ++ rest ∧ Path Next p (trace step s done) q
      ∧ R q (final step s done) ∧ Stops permits q rest := by
  induction l generalizing p s with
  | nil => exact ⟨[], [], p, rfl, .nil p, hR, fun e rest h => by cases h⟩
  | cons e l ih =>
    by_cases hp : permits p e
    · obtain ⟨q, hnext, hq⟩ := hstep p s e hR h.1 hp
      obtain ⟨done, rest, r, rfl, hpath, hr, hstop⟩ := ih hq h.2
      exact ⟨e :: done, rest, r, rfl, .cons hnext hpath, hr, hstop⟩
    · refine ⟨[], e :: l, p, rfl, .nil p, hR, ?_⟩
      intro e' rest heq
      obtain ⟨rfl, -⟩ := List.cons_eq_cons.1 heq
      exact hp

/-- A run whose steps lower a rank, as long as nothing is heard, is no longer than the rank. -/
theorem length_le_rank (I : σ → Prop) (heard : ω → Prop) (rank : σ → ℕ)
    (hstep : ∀ s e, I s → admits s e → ¬ heard (step s e).2 →
      I (step s e).1 ∧ rank (step s e).1 < rank s)
    (l : List ε) {s : σ} (hI : I s) (h : Admitted step admits s l)
    (hquiet : ∀ x ∈ trace step s l, ¬ heard x.2) : l.length ≤ rank s := by
  induction l generalizing s with
  | nil => exact Nat.zero_le _
  | cons e l ih =>
    obtain ⟨hI', hlt⟩ := hstep s e hI h.1 (hquiet _ List.mem_cons_self)
    have hle := ih hI' h.2 fun x hx => hquiet x (List.mem_cons_of_mem _ hx)
    rw [List.length_cons]
    omega

end

end Contract
