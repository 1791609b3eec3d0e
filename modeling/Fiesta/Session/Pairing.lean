import Fiesta.Session.Control

/-!
# Players 1 and 2 take each other for the remote player

* `informed_settles`   a client that has taken in everything the server has sent it;
* `AnswersInv`         who is announced to whom, and what a client knows before its answer;
* `pair_stays`         the remote number of clients 1 and 2, in every history of the room.
-/

namespace Game

open Photon

/-- The packet tells its client that `n` is there: the coming of `n`, or the list of all players in
the answer to joining. -/
def Announces (n : Int) : Packet → Prop
  | .joined _ _ => True
  | .join k => k = n
  | .leave _ => False
  | .custom _ => False

instance (n : Int) : DecidablePred (Announces n) := fun p =>
  match p with
  | .joined _ _ => isTrue trivial
  | .join k => inferInstanceAs (Decidable (k = n))
  | .leave _ => isFalse id
  | .custom _ => isFalse id

theorem informed_settles {m : Int} {lb : LBClient} {pend : List Packet} {nextNr : Int}
    {present : List Int} (h : Informed m lb pend nextNr present) :
    Informed m (Runs.run see lb pend) [] nextNr present := by
  induction pend generalizing lb with
  | nil => exact h
  | cons p pend ih => exact ih (informed_arrives h)

/-- Once it is told of `j`, a client of the pair takes `j` for the remote player. -/
theorem informed_remote {i j : Int} (hpair : i = 1 ∧ j = 2 ∨ i = 2 ∧ j = 1) {lb : LBClient}
    {pend : List Packet} {nextNr : Int} {present : List Int}
    (h : Informed i lb pend nextNr present) (hj : j ∈ present)
    (hann : ∀ p ∈ pend, ¬ Announces j p) (my : MyClient) :
    Net.getRemotePlayerNr ⟨lb, my⟩ = j := by
  rcases h with ⟨_, _, order, tail, rfl, _⟩ | ⟨_, hnr, rest, hps, ht⟩
  · exact absurd trivial (hann (.joined i order) List.mem_cons_self)
  · have hne : j ≠ i := by omega
    have hrest : j ∈ rest := by
      rcases (ht.known j hj hne).2 with hrest | hjoin
      · exact hrest
      · exact absurd rfl (hann (.join j) hjoin)
    exact remote_of_pair hpair ht hrest hnr hps

/-! ## before the announcement -/

/-- Only players that came after a client are announced to it by a `JOIN` event, and before its
answer to joining a client knows nobody. -/
structure AnswersInv (s : Session) : Prop extends RoomsInv s where
  later : ∀ m k, .join k ∈ s.room m → m ≤ k
  alone : ∀ m, (s.process m).running = true → (s.process m).lbView.joined = false →
    (s.process m).lbView.players = []

theorem see_joined {lb : LBClient} (h : lb.joined = true) (p : Packet) :
    (see lb p).joined = true := by
  cases p with
  | joined nr order => rfl
  | join k =>
    show (lb.onJoin k).joined = true
    unfold LBClient.onJoin
    split
    · exact h
    · exact h
  | leave k => exact h
  | custom e => exact h

theorem informed_answered {m : Int} {lb : LBClient} {pend : List Packet} {nextNr : Int}
    {present : List Int} (h : Informed m lb pend nextNr present)
    (hj : (Runs.run see lb pend.head?.toList).joined = false) : False := by
  have hjoined : (Runs.run see lb pend.head?.toList).joined = true := by
    rcases h with ⟨_, _, order, tail, rfl, _⟩ | ⟨hjoined, _⟩
    · rfl
    · cases pend with
      | nil => exact hjoined
      | cons p pend => exact see_joined hjoined p
  rw [hj] at hjoined
  cases hjoined

theorem answersInv_effect {erange : Nat → Nat → Bool} {s : Session} (h : AnswersInv s) {a : Act}
    (hen : s.Enabled a) : AnswersInv (s.effect erange a) := by
  refine ⟨roomsInv_effect h.toRoomsInv hen, ?_, ?_⟩
  · cases a with
    | join order =>
      intro m k hk
      change Packet.join k ∈ (if m = s.nextNr then _ else if m ∈ s.present then _ else s.room m)
        at hk
      split at hk
      · rename_i hm
        simp at hk
        omega
      · split at hk
        · rename_i hm
          rw [mem_snoc] at hk
          rcases hk with hk | heq
          · exact h.later m k hk
          · rw [Packet.join.inj heq]
            exact Int.le_of_lt (h.range m hm).2
        · exact h.later m k hk
    | leave n =>
      intro m k hk
      change Packet.join k ∈ (if m ∈ s.present.erase n then _ else s.room m) at hk
      split at hk
      · rw [mem_snoc] at hk
        rcases hk with hk | heq
        · exact h.later m k hk
        · cases heq
      · exact h.later m k hk
    | arrive n =>
      intro m k hk
      change Packet.join k ∈ Function.update s.room n (s.room n).tail m at hk
      by_cases hm : m = n
      · subst hm
        rw [Function.update_self] at hk
        exact h.later m k (List.mem_of_mem_tail hk)
      · rw [Function.update_of_ne hm] at hk
        exact h.later m k hk
    | hear i j k => exact h.later
    | frame n inp => exact h.later
    | raise n r => exact h.later
  · have hone : ∀ (n : Int) (p : Process), (p.running = true → p.lbView.joined = false →
        p.lbView.players = []) → ∀ m, (Function.update s.process n p m).running = true →
        (Function.update s.process n p m).lbView.joined = false →
        (Function.update s.process n p m).lbView.players = [] := by
      intro n p hp m
      by_cases hm : m = n
      · subst hm
        rw [Function.update_self]
        exact hp
      · rw [Function.update_of_ne hm]
        exact h.alone m
    cases a with
    | join order => exact h.alone
    | leave n => exact h.alone
    | arrive n =>
      apply hone n _
      intro hrun hj
      rw [lbView_receive] at hj
      exact (informed_answered (h.informed n hen hrun) hj).elim
    | hear i j k =>
      apply hone i _
      intro hrun hj
      have hview : ((s.process i).receive (((s.log.sent j)[k]?).toList.map
          fun r => .custom (r.delivered j))).lbView = (s.process i).lbView := by
        rw [lbView_receive]
        cases (s.log.sent j)[k]? <;> rfl
      rw [hview] at hj ⊢
      exact h.alone i hrun hj
    | frame n inp =>
      apply hone n _
      intro hrun hj
      rcases frame_cases erange (s.process n) inp with ⟨hstop, _⟩ | ⟨hp, _⟩
      · rw [hstop] at hrun
        cases hrun
      · rw [hp] at hj ⊢
        exact h.alone n hen.2 hj
    | raise n r => exact h.alone

theorem answers_inv (erange : Nat → Nat → Bool) (clocks : Int → Clocks) (acts : List Act) :
    AnswersInv (Session.after erange clocks acts) := by
  refine after_inv erange (fun _ => True) AnswersInv clocks ?_
    (fun _ _ _ h hen => answersInv_effect h hen) acts (fun _ _ => trivial)
  refine ⟨roomsInv_start clocks, ?_, fun m _ _ => rfl⟩
  intro m k hk
  cases hk

/-- Until it is told of `j`, a client of the pair has no remote player. -/
theorem informed_nobody {s : Session} (h : AnswersInv s) {i j : Int}
    (hpair : i = 1 ∧ j = 2 ∨ i = 2 ∧ j = 1) (hi : i ∈ s.present)
    (hrun : (s.process i).running = true) {p : Packet} (hp : p ∈ s.room i) (hann : Announces j p)
    (my : MyClient) : Net.getRemotePlayerNr ⟨(s.process i).lbView, my⟩ = 0 := by
  have hnobody : (s.process i).lbView.players.find?
      (· ≠ (s.process i).lbView.localNr) = none := by
    rcases h.informed i hi hrun with ⟨hj, _⟩ | ⟨_, hnr, rest, hps, ht⟩
    · rw [h.alone i hrun hj]
      rfl
    · have hpj : p = .join j := by
        rcases ht.plain p hp with ⟨k, rfl⟩ | ⟨k, _, rfl⟩
        · rw [show k = j from hann]
        · exact hann.elim
      subst hpj
      have hlater := h.later i j hp
      have hij : i = 1 ∧ j = 2 := by omega
      obtain ⟨rfl, rfl⟩ := hij
      -- whoever stands before 2 in the list came before 2
      have hmem : (2 : Int) ∈ newcomers 1 (s.room 1) := by
        unfold newcomers
        rw [List.mem_filterMap]
        exact ⟨.join 2, hp, rfl⟩
      have hempty : rest = [] := by
        apply List.eq_nil_iff_forall_not_mem.2
        intro a ha
        have hpos := (ht.range a (List.mem_append_left _ ha)).1
        have hne : a ≠ 1 := by
          rintro rfl
          exact (List.nodup_cons.1 ht.nodup).1 (List.mem_append_left _ ha)
        have hord := (List.pairwise_append.1 ht.ordered).2.2 a ha 2 hmem
        omega
      rw [hps, hempty, hnr]
      rfl
  show ((s.process i).lbView.players.find? (· ≠ (s.process i).lbView.localNr)).getD 0 = 0
  rw [hnobody]
  rfl

/-! ## every history -/

/-- **Clients 1 and 2 stay paired whatever others do.** At every moment of every history of the
room at which both are there, the list that everything the server has told client `i` amounts to
makes `j` its remote player. What a frame of the client asks is `j` as soon as its service call has
dispatched the coming of `j`, and nobody before. -/
theorem pair_stays (erange : Nat → Nat → Bool) (clocks : Int → Clocks) (acts : List Act)
    (i j : Int) (hpair : i = 1 ∧ j = 2 ∨ i = 2 ∧ j = 1)
    (hi : i ∈ (Session.after erange clocks acts).present)
    (hj : j ∈ (Session.after erange clocks acts).present)
    (hrun : ((Session.after erange clocks acts).process i).running = true) :
    (∀ my, Net.getRemotePlayerNr
        ⟨Runs.run see ((Session.after erange clocks acts).process i).lbView
          ((Session.after erange clocks acts).room i), my⟩ = j)
      ∧ (((Session.after erange clocks acts).ticked erange i).2 = none →
        ((Session.after erange clocks acts).ticked erange i).1.getRemotePlayerNr
          = if ∀ p ∈ (Session.after erange clocks acts).room i, ¬ Announces j p then j else 0) := by
  have hinv := answers_inv erange clocks acts
  generalize Session.after erange clocks acts = s at *
  have hinf := hinv.informed i hi hrun
  refine ⟨?_, ?_⟩
  · intro my
    refine informed_remote hpair (informed_settles hinf) hj ?_ my
    intro p hp
    cases hp
  · intro hticks
    have hnet : (s.ticked erange i).1 = ⟨(s.process i).lbView, (s.process i).myView erange⟩ :=
      tick_ok erange (Prod.ext rfl hticks)
    rw [hnet]
    split
    · rename_i hann
      exact informed_remote hpair hinf hj hann _
    · rename_i hann
      obtain ⟨p, hp⟩ := not_forall.1 hann
      obtain ⟨hp, hann⟩ := Classical.not_imp.1 hp
      exact informed_nobody hinv hpair hi hrun hp (Classical.not_not.1 hann) _

/-- A third player comes, and goes before it has been told of the others. -/
def thirdPasses : List Act :=
  [.join [1], .arrive 1, .join [2, 1], .arrive 2, .join [3, 2, 1], .arrive 1, .arrive 1, .leave 3]

theorem pair_stays_third :
    ((Session.after noErange origin thirdPasses).ticked noErange 1).1.getRemotePlayerNr
      = if ∀ p ∈ (Session.after noErange origin thirdPasses).room 1, ¬ Announces 2 p then 2
        else 0 :=
  (pair_stays noErange origin thirdPasses 1 2 (Or.inl ⟨rfl, rfl⟩) (by decide) (by decide)
    rfl).2 rfl

end Game
