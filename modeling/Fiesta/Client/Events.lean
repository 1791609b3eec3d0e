import Fiesta.Client.MyClient
import Fiesta.Lib.Store

/-!
# What events do to a client

* `decode`                          the position a text carries;
* `customEventAction_returns_iff`   the events that raise no exception, one by one and in a service
                                    call;
* `last_valid_writer`               `directions_` after any events holds the last valid positions.
-/

namespace Game

open Photon Binary32 Strtof

section
variable (erange : Nat → Nat → Bool)

/-! ## the position in a text -/

/-- The two numbers around the first comma. -/
def decode (text : List Char) : Option Vector2f :=
  match text.idxOf? ',' with
  | none => none
  | some i =>
    match stof erange (text.take i), stof erange (text.drop (i + 1)) with
    | .ok x, .ok y => some ⟨x, y⟩
    | _, _ => none

theorem decode_no_comma {text : List Char} (h : ',' ∉ text) : decode erange text = none := by
  rcases find_comma text with ⟨hnone, _⟩ | ⟨i, _, heq, _⟩
  · simp only [decode, hnone]
  · rw [heq] at h
    simp at h

theorem decode_comma {text a b : List Char} (h : FirstComma text a b) :
    decode erange text
      = match stof erange a, stof erange b with
        | .ok x, .ok y => some ⟨x, y⟩
        | _, _ => none := by
  rcases find_comma text with ⟨_, hnot⟩ | ⟨i, hi, hfirst⟩
  · obtain ⟨rfl, _⟩ := h
    simp at hnot
  · obtain ⟨rfl, rfl⟩ := h.unique hfirst
    simp only [decode, hi]

theorem decode_eq_some {text : List Char} {v : Vector2f} :
    decode erange text = some v
      ↔ ∃ a b, FirstComma text a b ∧ stof erange a = .ok v.x ∧ stof erange b = .ok v.y := by
  refine ⟨?_, ?_⟩
  · intro h
    rcases find_comma text with ⟨_, hnot⟩ | ⟨i, hi, hfirst⟩
    · rw [decode_no_comma erange hnot] at h
      cases h
    · rw [decode_comma erange hfirst] at h
      refine ⟨_, _, hfirst, ?_⟩
      split at h
      · rename_i x y hx hy
        cases h
        exact ⟨hx, hy⟩
      · cases h
  · rintro ⟨a, b, hfirst, hx, hy⟩
    rw [decode_comma erange hfirst, hx, hy]

theorem storeDirection_decoded (c : MyClient) (nr : Int) {message : JString} {v : Vector2f}
    (h : decode erange (cstr message) = some v) :
    c.storeDirection erange nr message
      = .ok { c with directions_ := Function.update c.directions_ nr (some v) } := by
  obtain ⟨a, b, hfirst, hx, hy⟩ := (decode_eq_some erange).1 h
  rcases storeDirection_cases erange c nr message with ⟨hnot, _⟩ | ⟨a', b', hfirst', hstore⟩
  · rw [hfirst.1] at hnot
    simp at hnot
  · obtain ⟨rfl, rfl⟩ := hfirst.unique hfirst'
    rw [hstore, hx, hy]
    rfl

theorem storeDirection_undecoded (c : MyClient) (nr : Int) {message : JString}
    (h : decode erange (cstr message) = none) :
    c.storeDirection erange nr message = .ok c
      ∨ ∃ t, c.storeDirection erange nr message = .error t := by
  rcases storeDirection_cases erange c nr message with ⟨_, hstore⟩ | ⟨a, b, hfirst, hstore⟩
  · exact Or.inl hstore
  · rw [decode_comma erange hfirst] at h
    rw [hstore]
    cases hx : stof erange a with
    | error t => exact Or.inr ⟨t, rfl⟩
    | ok x =>
      cases hy : stof erange b with
      | error t => exact Or.inr ⟨t, rfl⟩
      | ok y =>
        rw [hx, hy] at h
        cases h

/-! ## exceptions -/

/-- The event is no position event, or both halves of its text around the first comma start with
a numeral in range. -/
def Harmless (e : Event) : Prop :=
  e.eventCode = 2 → ∀ a b, FirstComma (cstr (ValueObject.getDataCopy e.eventContent)) a b →
    Convertible erange a ∧ Convertible erange b

theorem storeDirection_returns_iff (c : MyClient) (nr : Int) (message : JString) :
    (∃ c', c.storeDirection erange nr message = .ok c')
      ↔ ∀ a b, FirstComma (cstr message) a b → Convertible erange a ∧ Convertible erange b := by
  rcases storeDirection_cases erange c nr message with ⟨hnot, hstore⟩ | ⟨a, b, hfirst, hstore⟩
  · apply iff_of_true ⟨c, hstore⟩
    rintro a b ⟨heq, _⟩
    rw [heq] at hnot
    simp at hnot
  · have honly : (∀ a' b', FirstComma (cstr message) a' b' →
        Convertible erange a' ∧ Convertible erange b')
          ↔ Convertible erange a ∧ Convertible erange b := by
      refine ⟨?_, ?_⟩
      · intro h
        exact h a b hfirst
      · intro h a' b' h'
        obtain ⟨rfl, rfl⟩ := hfirst.unique h'
        exact h
    rw [honly, hstore, ← stof_ok_iff, ← stof_ok_iff]
    refine ⟨?_, ?_⟩
    · rintro ⟨c', h⟩
      cases hx : stof erange a with
      | error t =>
        rw [hx] at h
        cases h
      | ok x =>
        cases hy : stof erange b with
        | error t =>
          rw [hx, hy] at h
          cases h
        | ok y => exact ⟨⟨x, rfl⟩, ⟨y, rfl⟩⟩
    · rintro ⟨⟨x, hx⟩, ⟨y, hy⟩⟩
      rw [hx, hy]
      exact ⟨_, rfl⟩

theorem action_returns (c : MyClient) (e : Event) :
    (∃ c', c.customEventAction erange e = .ok c') ↔ Harmless erange e := by
  unfold MyClient.customEventAction Harmless
  by_cases h1 : e.eventCode = 1
  · rw [if_pos h1]
    apply iff_of_true ⟨_, rfl⟩
    intro h2
    rw [h1] at h2
    exact absurd h2 (by decide)
  · rw [if_neg h1]
    by_cases h2 : e.eventCode = 2
    · rw [if_pos h2, storeDirection_returns_iff]
      exact ⟨fun h _ => h, fun h => h h2⟩
    · rw [if_neg h2]
      exact iff_of_true ⟨c, rfl⟩ (fun h => absurd h h2)

theorem tick_returns (n : Net) (ps : List Packet) :
    (Tick erange n ps).2 = none ↔ ∀ e, Packet.custom e ∈ ps → Harmless erange e := by
  induction ps generalizing n with
  | nil => simp [Tick]
  | cons p ps ih =>
    have hcons : (∀ e, Packet.custom e ∈ p :: ps → Harmless erange e)
        ↔ (∀ e, p = .custom e → Harmless erange e)
          ∧ ∀ e, Packet.custom e ∈ ps → Harmless erange e := by
      refine ⟨?_, ?_⟩
      · intro h
        exact ⟨fun e he => h e (he ▸ List.mem_cons_self),
          fun e he => h e (List.mem_cons_of_mem _ he)⟩
      · rintro ⟨hp, hps⟩ e he
        rcases List.mem_cons.1 he with he | he
        · exact hp e he.symm
        · exact hps e he
    have hdispatch : (∃ n', n.dispatch erange p = .ok n')
        ↔ ∀ e, p = .custom e → Harmless erange e := by
      cases p with
      | custom e =>
        have hone : (∀ e', Packet.custom e = .custom e' → Harmless erange e')
            ↔ Harmless erange e := by simp
        rw [hone, ← action_returns erange n.my e]
        show (∃ n', (n.my.customEventAction erange e).map _ = .ok n') ↔ _
        cases h : n.my.customEventAction erange e with
        | error t => exact iff_of_false (by rintro ⟨_, h'⟩; cases h') (by rintro ⟨_, h'⟩; cases h')
        | ok c => exact iff_of_true ⟨_, rfl⟩ ⟨_, rfl⟩
      | joined nr l => exact iff_of_true ⟨_, rfl⟩ (by simp)
      | join nr => exact iff_of_true ⟨_, rfl⟩ (by simp)
      | leave nr => exact iff_of_true ⟨_, rfl⟩ (by simp)
    rw [hcons, ← hdispatch, Tick]
    cases h : n.dispatch erange p with
    | error t => exact iff_of_false (by simp) (by rintro ⟨⟨_, h'⟩, _⟩; cases h')
    | ok n' =>
      rw [show (Tick erange n' ps).2 = none ↔ _ from ih n']
      exact ⟨fun h => ⟨⟨_, rfl⟩, h⟩, fun h => h.2⟩

/-- **Exactly the harmless events return, whatever the state of the client; and a service call
returns exactly when all the events it dispatches are harmless.** -/
theorem customEventAction_returns_iff :
    (∀ (c : MyClient) (e : Event),
      (∃ c', c.customEventAction erange e = .ok c') ↔ Harmless erange e)
      ∧ ∀ (n : Net) (ps : List Packet),
        (Tick erange n ps).2 = none ↔ ∀ e, Packet.custom e ∈ ps → Harmless erange e :=
  ⟨action_returns erange, tick_returns erange⟩

end

/-- A position text that does not start with a number is an exception. -/
theorem customEventAction_throws :
    ¬ ∀ (erange : Nat → Nat → Bool) (c : MyClient) (e : Event),
      ∃ c', c.customEventAction erange e = .ok c' := by
  intro h
  obtain ⟨c', hc⟩ := h (fun _ _ => false) MyClient.new ⟨2, 2, .jstring ['a', ',', '1']⟩
  have hthrow : MyClient.new.customEventAction (fun _ _ => false)
      ⟨2, 2, .jstring ['a', ',', '1']⟩ = .error .invalidArgument := rfl
  rw [hthrow] at hc
  cases hc

/-! ## the last valid writer -/

section
variable (erange : Nat → Nat → Bool)

/-- The event carries the position `v` of player `p`. -/
def Writes (e : Event) (p : Int) (v : Vector2f) : Prop :=
  e.eventCode = 2 ∧ e.playerNr = p
    ∧ ∃ a b, FirstComma (cstr (ValueObject.getDataCopy e.eventContent)) a b
      ∧ stof erange a = .ok v.x ∧ stof erange b = .ok v.y

def written (e : Event) : Option (Int × Vector2f) :=
  if e.eventCode = 2 then
    (decode erange (cstr (ValueObject.getDataCopy e.eventContent))).map fun v => (e.playerNr, v)
  else none

theorem written_eq_some {e : Event} {p : Int} {v : Vector2f} :
    written erange e = some (p, v) ↔ Writes erange e p v := by
  unfold written Writes
  by_cases h2 : e.eventCode = 2
  · rw [if_pos h2, Option.map_eq_some_iff, ← decode_eq_some]
    refine ⟨?_, ?_⟩
    · rintro ⟨w, hw, heq⟩
      cases heq
      exact ⟨h2, rfl, hw⟩
    · rintro ⟨_, rfl, hv⟩
      exact ⟨v, hv, rfl⟩
  · rw [if_neg h2]
    exact iff_of_false (by simp) (fun h => h2 h.1)

/-- The client after the event, an exception counting as no effect. -/
def received (c : MyClient) (e : Event) : MyClient :=
  match c.customEventAction erange e with
  | .ok c' => c'
  | .error _ => c

theorem received_directions (c : MyClient) (e : Event) :
    (received erange c e).directions_ = Store.write (written erange) c.directions_ e := by
  unfold received MyClient.customEventAction Store.write written
  by_cases h1 : e.eventCode = 1
  · have h2 : e.eventCode ≠ 2 := by
      rw [h1]
      decide
    rw [if_pos h1, if_neg h2]
  · by_cases h2 : e.eventCode = 2
    · rw [if_neg h1, if_pos h2, if_pos h2]
      cases hd : decode erange (cstr (ValueObject.getDataCopy e.eventContent)) with
      | none =>
        rcases storeDirection_undecoded erange c e.playerNr hd with h | ⟨t, h⟩
        · simp only [h, Option.map_none]
        · simp only [h, Option.map_none]
      | some v => simp only [storeDirection_decoded erange c e.playerNr hd, Option.map_some]
    · rw [if_neg h1, if_neg h2, if_neg h2]

theorem run_directions (c : MyClient) (es : List Event) :
    (Runs.run (received erange) c es).directions_
      = Runs.run (Store.write (written erange)) c.directions_ es := by
  induction es using List.reverseRecOn with
  | nil => rfl
  | append_singleton es e ih => rw [Runs.run_snoc, Runs.run_snoc, received_directions, ih]

theorem entry_run (es : List Event) (p : Int) :
    (Runs.run (received erange) MyClient.new es).directions_ p
      = Store.lastWrite (written erange) p es := by
  rw [run_directions, Store.run_write]
  exact Option.or_none

/-- **After any events `getDirection` is the position of the last event that carries one for the
player, and the fallback when there is none. An event that carries no position for a player
leaves the entry of that player as it was.** -/
theorem last_valid_writer (es : List Event) (p : Int) :
    ((∃ before e after v, es = before ++ e :: after ∧ Writes erange e p v
        ∧ (∀ e' ∈ after, ∀ w, ¬ Writes erange e' p w)
        ∧ (Runs.run (received erange) MyClient.new es).getDirection p = v)
      ∨ ((∀ e ∈ es, ∀ v, ¬ Writes erange e p v)
        ∧ (Runs.run (received erange) MyClient.new es).getDirection p
          = ⟨Single.ofNat 300, Single.ofNat 100⟩))
      ∧ ∀ (c : MyClient) (e : Event) (q : Int), (∀ v, ¬ Writes erange e q v) →
        (received erange c e).directions_ q = c.directions_ q := by
  refine ⟨?_, ?_⟩
  · have hrun := entry_run erange es p
    cases hlast : Store.lastWrite (written erange) p es with
    | some v =>
      obtain ⟨before, e, after, hes, he, hafter⟩ := (Store.lastWrite_eq_some _).1 hlast
      refine Or.inl ⟨before, e, after, v, hes, (written_eq_some erange).1 he, ?_, ?_⟩
      · intro e' he' w hw
        exact hafter e' he' w ((written_eq_some erange).2 hw)
      · unfold MyClient.getDirection
        rw [hrun, hlast]
        rfl
    | none =>
      refine Or.inr ⟨?_, ?_⟩
      · intro e he v hv
        exact (Store.lastWrite_eq_none _).1 hlast e he v ((written_eq_some erange).2 hv)
      · unfold MyClient.getDirection
        rw [hrun, hlast]
        rfl
  · intro c e q hq
    rw [received_directions]
    apply Store.write_of_ne (written erange)
    intro v hv
    exact hq v ((written_eq_some erange).1 hv)

end

end Game
