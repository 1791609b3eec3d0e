import Fiesta.Session.Rooms
import Mathlib.Data.List.Perm.Subperm

/-!
# Who drives which tank

* `Plays`               a player in the room whose next service call returns with its number known;
* `Controls`, `Idles`   what a player does in every frame it could make next;
* `control_partition`   players 1 and 2 share the tanks, any other player drives none;
* `control_lost`        a player that comes back is such another player.
-/

namespace Game

open Photon

section
variable (erange : Nat → Nat → Bool)

/-- The state after the service call of the next frame. -/
def Session.ticked (s : Session) (n : Int) : Net × Option Strtof.Thrown :=
  Tick erange (s.process n).net (s.process n).inbox

/-- Present in the room, also in its own view: the next service call returns and has dispatched
the answer to joining. -/
def Session.Plays (s : Session) (n : Int) : Prop :=
  n ∈ s.present ∧ (s.process n).running = true ∧ (s.ticked erange n).2 = none
    ∧ (s.ticked erange n).1.lb.joined = true

def Session.Controls (s : Session) (n : Int) (t : Tank) : Prop :=
  ∀ inp cmds, s.commands erange n inp = some cmds →
    Drives t (s.ticked erange n).1 (s.process n).clocks inp cmds

def Session.Idles (s : Session) (n : Int) : Prop :=
  ∀ inp cmds, s.commands erange n inp = some cmds → Idle cmds

/-- Each of the two drives one tank and takes the other, the one the other player drives, from
the network. -/
def Session.Partition (s : Session) (n m : Int) : Prop :=
  ∃ t : Tank, s.Controls erange n t ∧ s.Controls erange m t.other

theorem plays_net {s : Session} {n : Int} (h : s.Plays erange n) :
    (s.ticked erange n).1 = ⟨(s.process n).lbView, (s.process n).myView erange⟩ :=
  tick_ok erange (Prod.ext rfl h.2.2.1)

theorem plays_commands {s : Session} {n : Int} (h : s.Plays erange n) (inp : FrameInput) :
    s.commands erange n inp
      = some (Game.frame (s.ticked erange n).1 (s.process n).clocks inp).2 :=
  commands_of_returns erange h.1 h.2.1 h.2.2.1 inp

theorem plays_localNr {s : Session} (hinv : RoomsInv s) {n : Int} (h : s.Plays erange n) :
    (s.ticked erange n).1.getLocalPlayerNr = n := by
  have hjoined := h.2.2.2
  rw [plays_net erange h] at hjoined ⊢
  exact informed_localNr (hinv.informed n h.1 h.2.1) hjoined

theorem plays_controls {s : Session} (hinv : RoomsInv s) {n : Int} {t : Tank}
    (h : s.Plays erange n) (ht : drivenBy n = some t) : s.Controls erange n t := by
  intro inp cmds hcmds
  rw [plays_commands erange h] at hcmds
  obtain rfl := Option.some.inj hcmds
  exact frame_drives (by rw [plays_localNr erange hinv h, ht]) _ inp

theorem plays_idles {s : Session} (hinv : RoomsInv s) {n : Int} (h : s.Plays erange n)
    (ht : drivenBy n = none) : s.Idles erange n := by
  intro inp cmds hcmds
  rw [plays_commands erange h] at hcmds
  obtain rfl := Option.some.inj hcmds
  exact frame_idle (by rw [plays_localNr erange hinv h, ht]) _ inp

theorem controls_not_idles {s : Session} {n : Int} {t : Tank} (h : s.Plays erange n)
    (hc : s.Controls erange n t) : ¬ s.Idles erange n := by
  intro hi
  have hsome := plays_commands erange h FrameInput.still
  exact (hi _ _ hsome).moves t _ _ (((hc _ _ hsome).moves t _ _).2 ⟨rfl, rfl, rfl⟩)

/-- Which tank a playing client controls is decided by its number. -/
theorem controls_iff {s : Session} (hinv : RoomsInv s) {n : Int} {t : Tank}
    (h : s.Plays erange n) : s.Controls erange n t ↔ drivenBy n = some t := by
  refine ⟨fun hc => ?_, plays_controls erange hinv h⟩
  cases hd : drivenBy n with
  | none => exact absurd (plays_idles erange hinv h hd) (controls_not_idles erange h hc)
  | some u =>
    have hsome := plays_commands erange h FrameInput.still
    have hmove := (((plays_controls erange hinv h hd) _ _ hsome).moves u _ _).2 ⟨rfl, rfl, rfl⟩
    have hut : u = t := (((hc _ _ hsome).moves u _ _).1 hmove).1
    rw [hut]

theorem partition_iff {s : Session} (hinv : RoomsInv s) {n m : Int} (hn : s.Plays erange n)
    (hm : s.Plays erange m) :
    s.Partition erange n m ↔ n = 1 ∧ m = 2 ∨ n = 2 ∧ m = 1 := by
  have hone : ∀ k, drivenBy k = some .player ↔ k = 1 := by
    intro k
    unfold drivenBy
    split
    · simp [*]
    · split <;> simp [*]
  have htwo : ∀ k, drivenBy k = some .player2 ↔ k = 2 := by
    intro k
    unfold drivenBy
    split
    · simp [*]
    · split <;> simp [*]
  have hctl : ∀ t : Tank, s.Controls erange n t ∧ s.Controls erange m t.other
      ↔ drivenBy n = some t ∧ drivenBy m = some t.other := fun t =>
    and_congr (controls_iff erange hinv hn) (controls_iff erange hinv hm)
  refine ⟨?_, ?_⟩
  · rintro ⟨t, ht⟩
    obtain ⟨h1, h2⟩ := (hctl t).1 ht
    cases t with
    | player => exact Or.inl ⟨(hone n).1 h1, (htwo m).1 h2⟩
    | player2 => exact Or.inr ⟨(htwo n).1 h1, (hone m).1 h2⟩
  · rintro (⟨rfl, rfl⟩ | ⟨rfl, rfl⟩)
    · exact ⟨.player, (hctl _).2 ⟨rfl, rfl⟩⟩
    · exact ⟨.player2, (hctl _).2 ⟨rfl, rfl⟩⟩

/-! ## histories with at most two players -/

theorem length_le_of_subset {ks ps : List Int} (hk : ks.Nodup) (h : ∀ k ∈ ks, k ∈ ps) :
    ks.length ≤ ps.length := (List.subperm_of_subset hk h).length_le

/-- While players 1 and 2 are both there, no third has come. -/
theorem pair_only (clocks : Int → Clocks) (acts : List Act)
    (htwo : ∀ k, (Session.after erange clocks (acts.take k)).present.length ≤ 2) :
    1 ∈ (Session.after erange clocks acts).present →
      2 ∈ (Session.after erange clocks acts).present →
      (Session.after erange clocks acts).nextNr = 3 := by
  induction acts using List.reverseRecOn with
  | nil =>
    intro h1
    cases h1
  | append_singleton acts a ih =>
    have hlast : (Session.after erange clocks (acts ++ [a])).present.length ≤ 2 := by
      have := htwo (acts ++ [a]).length
      rwa [List.take_length] at this
    have hbefore : ∀ k, (Session.after erange clocks (acts.take k)).present.length ≤ 2 := by
      intro k
      have := htwo (min k acts.length)
      rw [List.take_append_of_le_length (Nat.min_le_right _ _)] at this
      rwa [List.take_eq_take_min]
    specialize ih hbefore
    have hinv := rooms_inv erange clocks acts
    have hstep : Session.after erange clocks (acts ++ [a])
        = (Session.after erange clocks acts).step erange a := Runs.run_snoc ..
    rw [hstep] at hlast ⊢
    generalize Session.after erange clocks acts = s at ih hinv hlast ⊢
    unfold Session.step at hlast ⊢
    split
    · rename_i hen
      rw [if_pos hen] at hlast
      cases a with
      | join order =>
        change (s.present ++ [s.nextNr]).length ≤ 2 at hlast
        show 1 ∈ s.present ++ [s.nextNr] → 2 ∈ s.present ++ [s.nextNr] → s.nextNr + 1 = 3
        intro h1 h2
        rw [mem_snoc] at h1 h2
        rcases h2 with h2 | h2
        · have hlt := (hinv.range 2 h2).2
          have h1 : 1 ∈ s.present := h1.resolve_right (by omega)
          have hlen : ([1, 2] : List Int).length ≤ s.present.length :=
            length_le_of_subset (by decide) (by simp [h1, h2])
          rw [List.length_append] at hlast
          simp at hlen hlast
          omega
        · omega
      | leave n =>
        show 1 ∈ s.present.erase n → 2 ∈ s.present.erase n → s.nextNr = 3
        intro h1 h2
        exact ih (List.mem_of_mem_erase h1) (List.mem_of_mem_erase h2)
      | arrive n => exact ih
      | hear i j k => exact ih
      | frame n inp => exact ih
      | raise n r => exact ih
    · exact ih

/-- **With at most two players at any time: player 1 drives `player`, player 2 drives `player2`,
any other player drives neither, follows neither and publishes nothing; two players share the
tanks exactly when no player has left the room before.** -/
theorem control_partition (clocks : Int → Clocks) (acts : List Act)
    (htwo : ∀ k, (Session.after erange clocks (acts.take k)).present.length ≤ 2) :
    (∀ n, (Session.after erange clocks acts).Plays erange n →
        (n = 1 → (Session.after erange clocks acts).Controls erange n .player)
        ∧ (n = 2 → (Session.after erange clocks acts).Controls erange n .player2)
        ∧ (n ≠ 1 → n ≠ 2 → (Session.after erange clocks acts).Idles erange n))
      ∧ ∀ n m, n ≠ m → (Session.after erange clocks acts).Plays erange n →
        (Session.after erange clocks acts).Plays erange m →
        ((Session.after erange clocks acts).Partition erange n m
          ↔ ∀ k, 1 ≤ k → k < (Session.after erange clocks acts).nextNr →
            k ∈ (Session.after erange clocks acts).present) := by
  have hinv := rooms_inv erange clocks acts
  have hpair := pair_only erange clocks acts htwo
  have hlen : (Session.after erange clocks acts).present.length ≤ 2 := by
    have := htwo acts.length
    rwa [List.take_length] at this
  generalize Session.after erange clocks acts = s at hinv hpair hlen ⊢
  refine ⟨?_, ?_⟩
  · intro n hn
    refine ⟨?_, ?_, ?_⟩
    · rintro rfl
      exact plays_controls erange hinv hn drivenBy_one
    · rintro rfl
      exact plays_controls erange hinv hn drivenBy_two
    · intro h1 h2
      exact plays_idles erange hinv hn (drivenBy_eq_none.2 ⟨h1, h2⟩)
  · intro n m hnm hn hm
    rw [partition_iff erange hinv hn hm]
    refine ⟨?_, ?_⟩
    · intro h12 k hk1 hk
      have h1 : 1 ∈ s.present := by
        rcases h12 with ⟨rfl, _⟩ | ⟨_, rfl⟩
        · exact hn.1
        · exact hm.1
      have h2 : 2 ∈ s.present := by
        rcases h12 with ⟨_, rfl⟩ | ⟨rfl, _⟩
        · exact hm.1
        · exact hn.1
      have hnext := hpair h1 h2
      obtain rfl | rfl : k = 1 ∨ k = 2 := by omega
      · exact h1
      · exact h2
    · intro hall
      have hnext : s.nextNr ≤ 3 := by
        by_contra hgt
        have hthree : ([1, 2, 3] : List Int).length ≤ s.present.length := by
          apply length_le_of_subset (by decide)
          intro k hk
          simp at hk
          exact hall k (by omega) (by omega)
        simp at hthree
        omega
      have hrn := hinv.range n hn.1
      have hrm := hinv.range m hm.1
      omega

end

/-! ## a player that comes back -/

/-- Two players enter, the first leaves and enters again, as number 3. -/
def comesBack : List Act :=
  [.join [1], .arrive 1, .join [1, 2], .arrive 2, .arrive 1, .arrive 2, .leave 1, .join [2, 3],
    .arrive 3]

theorem comesBack_two : ∀ k, (Session.after noErange origin (comesBack.take k)).present.length
    ≤ 2 := by
  intro k
  by_cases hk : k < 9
  · have hall : ∀ k < 9, (Session.after noErange origin (comesBack.take k)).present.length
        ≤ 2 := by decide
    exact hall k hk
  · have hlen : comesBack.length ≤ k := Nat.not_lt.1 hk
    rw [List.take_of_length_le hlen]
    decide

theorem comesBack_plays :
    (Session.after noErange origin comesBack).Plays noErange 2
      ∧ (Session.after noErange origin comesBack).Plays noErange 3 :=
  ⟨⟨by decide, rfl, rfl, rfl⟩, ⟨by decide, rfl, rfl, rfl⟩⟩

theorem control_partition_back :
    (Session.after noErange origin comesBack).Partition noErange 2 3
      ↔ ∀ k, 1 ≤ k → k < (Session.after noErange origin comesBack).nextNr →
        k ∈ (Session.after noErange origin comesBack).present :=
  (control_partition noErange origin comesBack comesBack_two).2 2 3 (by decide)
    comesBack_plays.1 comesBack_plays.2

theorem control_lost :
    ¬ ∀ (erange : Nat → Nat → Bool) (clocks : Int → Clocks) (acts : List Act),
      (∀ k, (Session.after erange clocks (acts.take k)).present.length ≤ 2) →
      ∀ n m, n ≠ m → (Session.after erange clocks acts).Plays erange n →
        (Session.after erange clocks acts).Plays erange m →
        (Session.after erange clocks acts).Partition erange n m := by
  intro h
  have hpart := h noErange origin comesBack comesBack_two 2 3 (by decide) comesBack_plays.1
    comesBack_plays.2
  rw [partition_iff noErange (rooms_inv _ _ _) comesBack_plays.1 comesBack_plays.2] at hpart
  omega

end Game
