import Fiesta.Session.Heard
import Fiesta.Session.Pairing
import Mathlib.Data.List.TakeWhile

/-!
# The tank of the other player

Client `i` of the pair shows on tank `t` what it hears of the other player `j`.

* `Pair`                 the two clients, each with the other player and its tank;
* `Knows`                a client has been told that the other player is there;
* `replicas_monotone`    a client that knows the other player shows the newest position heard of it;
* `replicas_outrun`      a client that does not know it yet shows the fallback, whatever it has heard;
* `shown_was_carried`    whatever it shows was carried by an event of that player, or is the
                         fallback.
-/

namespace Game

open Photon Strtof Binary32

/-- Client `i` takes tank `t` from player `j`. -/
def Pair (i j : Int) (t : Tank) : Prop :=
  i = 1 ∧ j = 2 ∧ t = .player2 ∨ i = 2 ∧ j = 1 ∧ t = .player

theorem Pair.driven {i j : Int} {t : Tank} (h : Pair i j t) :
    drivenBy j = some t ∧ drivenBy i = some t.other := by
  rcases h with ⟨rfl, rfl, rfl⟩ | ⟨rfl, rfl, rfl⟩ <;> exact ⟨rfl, rfl⟩

theorem Tank.other_other (t : Tank) : t.other.other = t := by cases t <;> rfl

/-! ## payloads -/

/-- A payload that is not cut is read as the two renderings. -/
theorem carried_published {erange : Nat → Nat → Bool} {p : Vector2f}
    (hfit : (positionText p).length ≤ 63) (n : Int)
    (hparse : Harmless erange ((published p).delivered n)) :
    ∃ v : Vector2f, stof erange (sixDecimals p.x) = .ok v.x
      ∧ stof erange (sixDecimals p.y) = .ok v.y ∧ carried erange (published p) = some v := by
  have hbuf : cstr (buf p) = positionText p := by
    rw [cstr_buf]
    exact List.take_of_length_le hfit
  have hfirst : FirstComma (cstr (buf p)) (sixDecimals p.x) (sixDecimals p.y) :=
    ⟨hbuf, notMem_sixDecimals (by decide) p.x⟩
  obtain ⟨hx, hy⟩ := hparse rfl _ _ hfirst
  obtain ⟨x, hx⟩ := (stof_ok_iff erange _).2 hx
  obtain ⟨y, hy⟩ := (stof_ok_iff erange _).2 hy
  refine ⟨⟨x, y⟩, hx, hy, ?_⟩
  show decode erange (cstr (buf p)) = some ⟨x, y⟩
  exact (decode_eq_some erange).2 ⟨_, _, hfirst, hx, hy⟩

/-! ## what a client shows -/

section
variable {erange : Nat → Nat → Bool} {s : Session}

theorem pair_follows {i j : Int} {t : Tank} (hpair : Pair i j t) (hrooms : RoomsInv s)
    {inp : FrameInput} {cmds : List Command} (h : s.commands erange i inp = some cmds)
    (u : Tank) (q : Vector2f) :
    .pos u q ∈ cmds ↔ (s.process i).lbView.joined = true ∧ u = t
      ∧ q = ((s.process i).myView erange).getDirection
          (Net.getRemotePlayerNr ⟨(s.process i).lbView, (s.process i).myView erange⟩) := by
  obtain ⟨hpres, hrun, rfl⟩ := commands_eq_some erange h
  rcases hrooms.informed i hpres hrun with ⟨hj, hnr, _⟩ | ⟨hj, hnr, _⟩
  · have hnone : drivenBy (Net.getLocalPlayerNr
        ⟨(s.process i).lbView, (s.process i).myView erange⟩) = none := by
      show drivenBy (s.process i).lbView.localNr = none
      rw [hnr]
      rfl
    have hidle := frame_idle hnone (s.process i).clocks inp
    apply iff_of_false (hidle.follows u q)
    rintro ⟨hj', _⟩
    rw [hj] at hj'
    cases hj'
  · have hsome : drivenBy (Net.getLocalPlayerNr
        ⟨(s.process i).lbView, (s.process i).myView erange⟩) = some t.other := by
      show drivenBy (s.process i).lbView.localNr = some t.other
      rw [hnr]
      exact hpair.driven.2
    have hdrives := frame_drives hsome (s.process i).clocks inp
    rw [hdrives.follows u q, Tank.other_other]
    exact ⟨fun h => ⟨hj, h⟩, fun h => h.2⟩

theorem remote_ne_local {net : Net} (h : net.getRemotePlayerNr ≠ 0) :
    net.getRemotePlayerNr ≠ net.getLocalPlayerNr := by
  unfold Net.getRemotePlayerNr at h ⊢
  cases hf : net.getAllPlayerNrs.find? (· ≠ net.getLocalPlayerNr) with
  | none =>
    rw [hf] at h
    exact absurd rfl h
  | some a => simpa using List.find?_some hf

/-! ### told of the other player -/

/-- Both are there, and nothing that tells `i` of `j` is on its way any more: the next service call
of `i` dispatches the rest. -/
def Session.Knows (s : Session) (i j : Int) : Prop :=
  i ∈ s.present ∧ j ∈ s.present ∧ ∀ p ∈ s.room i, ¬ Announces j p

instance (s : Session) (i j : Int) : Decidable (s.Knows i j) := inferInstanceAs (Decidable (_ ∧ _))

theorem roomsInv_step (h : RoomsInv s) (a : Act) : RoomsInv (s.step erange a) := by
  unfold Session.step
  split
  · rename_i hen
    exact roomsInv_effect h hen
  · exact h

/-- Nobody is announced twice. -/
theorem knows_step (h : RoomsInv s) {i j : Int} (hk : s.Knows i j) {a : Act} (hi : a ≠ .leave i)
    (hj : a ≠ .leave j) : (s.step erange a).Knows i j := by
  obtain ⟨hpi, hpj, hann⟩ := hk
  unfold Session.step
  split
  · cases a with
    | join order =>
      have hni := (h.range i hpi).2
      have hnj := (h.range j hpj).2
      refine ⟨List.mem_append_left _ hpi, List.mem_append_left _ hpj, ?_⟩
      intro p hp
      change p ∈ (if i = s.nextNr then _ else if i ∈ s.present then _ else s.room i) at hp
      rw [if_neg (by omega), if_pos hpi, mem_snoc] at hp
      rcases hp with hp | rfl
      · exact hann p hp
      · show ¬ s.nextNr = j
        omega
    | leave n =>
      have hin : i ≠ n := fun heq => hi (by rw [heq])
      have hjn : j ≠ n := fun heq => hj (by rw [heq])
      have hstays : i ∈ s.present.erase n := (List.mem_erase_of_ne hin).2 hpi
      refine ⟨hstays, (List.mem_erase_of_ne hjn).2 hpj, ?_⟩
      intro p hp
      change p ∈ (if i ∈ s.present.erase n then _ else s.room i) at hp
      rw [if_pos hstays, mem_snoc] at hp
      rcases hp with hp | rfl
      · exact hann p hp
      · exact id
    | arrive n =>
      refine ⟨hpi, hpj, ?_⟩
      intro p hp
      change p ∈ Function.update s.room n (s.room n).tail i at hp
      by_cases hin : i = n
      · subst hin
        rw [Function.update_self] at hp
        exact hann p (List.mem_of_mem_tail hp)
      · rw [Function.update_of_ne hin] at hp
        exact hann p hp
    | hear i' j' k => exact ⟨hpi, hpj, hann⟩
    | frame n inp => exact ⟨hpi, hpj, hann⟩
    | raise n r => exact ⟨hpi, hpj, hann⟩
  · exact ⟨hpi, hpj, hann⟩

theorem knows_run (h : RoomsInv s) {i j : Int} (hk : s.Knows i j) {more : List Act}
    (hi : .leave i ∉ more) (hj : .leave j ∉ more) :
    (Runs.run (Session.step erange) s more).Knows i j := by
  refine (Runs.run_inv (Session.step erange) (fun a => a ≠ .leave i ∧ a ≠ .leave j)
    (fun s => RoomsInv s ∧ s.Knows i j) ?_ more ?_ s ⟨h, hk⟩).2
  · rintro s a ⟨hai, haj⟩ ⟨hrooms, hk⟩
    exact ⟨roomsInv_step hrooms a, knows_step hrooms hk hai haj⟩
  · intro a ha
    refine ⟨?_, ?_⟩
    · rintro rfl
      exact hi ha
    · rintro rfl
      exact hj ha

theorem Pair.numbers {i j : Int} {t : Tank} (h : Pair i j t) : i = 1 ∧ j = 2 ∨ i = 2 ∧ j = 1 :=
  h.imp (fun h => ⟨h.1, h.2.1⟩) (fun h => ⟨h.1, h.2.1⟩)

/-- A client that knows the other player takes it for the remote player. -/
theorem remote_of_knows {i j : Int} {t : Tank} (hpair : Pair i j t) (hrooms : RoomsInv s)
    (hrun : (s.process i).running = true) (hk : s.Knows i j) :
    (s.process i).lbView.joined = true
      ∧ Net.getRemotePlayerNr ⟨(s.process i).lbView, (s.process i).myView erange⟩ = j := by
  obtain ⟨hi, hj, hann⟩ := hk
  have hinf := hrooms.informed i hi hrun
  refine ⟨?_, informed_remote hpair.numbers hinf hj hann _⟩
  rcases hinf with ⟨_, _, order, tail, hroom, _⟩ | ⟨hjoined, _⟩
  · exact absurd trivial (hann (.joined i order) (by rw [hroom]; exact List.mem_cons_self))
  · exact hjoined

/-- Nobody has the number 0, and no event is its. -/
theorem entry_nobody (hheard : HeardInv erange s) {i : Int}
    (hrun : (s.process i).running = true) :
    ((s.process i).myView erange).directions_ 0 = none := by
  cases hentry : ((s.process i).myView erange).directions_ 0 with
  | none => rfl
  | some v =>
    obtain ⟨r, hr, _⟩ := (hheard.follows i hrun).heard 0 v hentry
    have hpos := (hheard.sender 0 (List.ne_nil_of_mem (List.mem_of_mem_take hr))).1
    omega

/-- A client that does not know the other player has no remote player, and shows the fallback. -/
theorem shows_fallback {i j : Int} {t : Tank} (hpair : Pair i j t) (hanswers : AnswersInv s)
    (hheard : HeardInv erange s) (hj : j ∈ s.present) (hk : ¬ s.Knows i j) {inp : FrameInput}
    {cmds : List Command} (h : s.commands erange i inp = some cmds) {u : Tank} {q : Vector2f}
    (hq : .pos u q ∈ cmds) : u = t ∧ q = ⟨Single.ofNat 300, Single.ofNat 100⟩ := by
  obtain ⟨hi, hrun, _⟩ := commands_eq_some erange h
  obtain ⟨_, rfl, rfl⟩ := (pair_follows hpair hanswers.toRoomsInv h u q).1 hq
  refine ⟨rfl, ?_⟩
  obtain ⟨p, hp, hann⟩ : ∃ p ∈ s.room i, Announces j p := by
    by_contra hnone
    exact hk ⟨hi, hj, fun p hp hann => hnone ⟨p, hp, hann⟩⟩
  rw [informed_nobody hanswers hpair.numbers hi hrun hp hann]
  unfold MyClient.getDirection
  rw [entry_nobody hheard hrun]
  rfl

/-! ### runs -/

/-- A player that no act takes away stays from its coming on. -/
theorem stays (erange : Nat → Nat → Bool) (clocks : Int → Clocks) (acts : List Act) (j : Int)
    (hstay : .leave j ∉ acts) : 1 ≤ j → j < (Session.after erange clocks acts).nextNr →
      j ∈ (Session.after erange clocks acts).present := by
  refine after_inv erange (fun a => a ≠ .leave j)
    (fun s => 1 ≤ j → j < s.nextNr → j ∈ s.present) clocks ?_ ?_ acts ?_
  · intro h1 h2
    change j < 1 at h2
    omega
  · intro s a ha h hen
    cases a with
    | join order =>
      intro h1 h2
      change j < s.nextNr + 1 at h2
      show j ∈ s.present ++ [s.nextNr]
      rw [mem_snoc]
      by_cases hj : j = s.nextNr
      · exact Or.inr hj
      · exact Or.inl (h h1 (by omega))
    | leave n =>
      intro h1 h2
      have hne : j ≠ n := by
        rintro rfl
        exact ha rfl
      exact (List.mem_erase_of_ne hne).2 (h h1 h2)
    | arrive n => exact h
    | hear i j k => exact h
    | frame n inp => exact h
    | raise n r => exact h
  · rintro a ha rfl
    exact hstay ha

theorem heard_le_step (erange : Nat → Nat → Bool) (s : Session) (a : Act) (i j : Int) :
    s.log.heard i j ≤ (s.step erange a).log.heard i j := by
  unfold Session.step
  split
  · cases a with
    | hear i' j' k => exact Broadcast.heard_le_hear s.log i' j' k i j
    | _ => exact Nat.le_refl _
  · exact Nat.le_refl _

theorem heard_le_run (erange : Nat → Nat → Bool) (s : Session) (more : List Act) (i j : Int) :
    s.log.heard i j ≤ (Runs.run (Session.step erange) s more).log.heard i j := by
  induction more generalizing s with
  | nil => exact Nat.le_refl _
  | cons a more ih => exact Nat.le_trans (heard_le_step erange s a i j) (ih _)

/-- Nothing another player raises, and nothing heard of another player, is about player `j`. -/
theorem others_step (erange : Nat → Nat → Bool) (s : Session) (i j n : Int) (hn : n ≠ j)
    (a : Act) (ha : (∃ r, a = .raise n r) ∨ ∃ i' k, a = .hear i' n k) :
    (s.step erange a).log.heard i j = s.log.heard i j
      ∧ (s.step erange a).log.sent j = s.log.sent j := by
  unfold Session.step
  split
  · rcases ha with ⟨r, rfl⟩ | ⟨i', k, rfl⟩
    · exact ⟨rfl, Broadcast.sent_send_of_ne s.log (Ne.symm hn) [r]⟩
    · exact ⟨Broadcast.heard_hear_of_ne s.log k (Or.inr (Ne.symm hn)), rfl⟩
  · exact ⟨rfl, rfl⟩

theorem commands_of_harmless (hheard : HeardInv erange s)
    (hparse : ∀ n, ∀ r ∈ s.log.sent n, Harmless erange (r.delivered n)) {i : Int}
    (hi : i ∈ s.present) (hrun : (s.process i).running = true) (inp : FrameInput) :
    ∃ cmds, s.commands erange i inp = some cmds := by
  have htick : (Tick erange (s.process i).net (s.process i).inbox).2 = none := by
    rw [tick_returns]
    intro e he
    obtain ⟨n, r, hr, rfl⟩ := hheard.inbox i e he
    exact hparse n r hr
  exact ⟨_, commands_of_returns erange hi hrun htick inp⟩

end

/-- Nothing another player raises, and nothing heard of another player, tells `i` of `j`. -/
theorem knows_others (erange : Nat → Nat → Bool) (s : Session) (i j n : Int) (a : Act)
    (ha : (∃ r, a = .raise n r) ∨ ∃ i' k, a = .hear i' n k) :
    (s.step erange a).Knows i j ↔ s.Knows i j := by
  unfold Session.step
  split
  · rcases ha with ⟨r, rfl⟩ | ⟨i', k, rfl⟩ <;> exact Iff.rfl
  · exact Iff.rfl

/-- **Position replicas never go back in time.** While both players stay, the position texts
parse and those of `j` are not cut: every frame of a running client `i` completes; from the first
event of `j` it has heard on, its frames set the tank of `j`, and no other, to the position `j`
published last among those heard, once `i` has been told of `j`, and to the fallback before that; how
many were heard never decreases, what `i` has been told of it does not forget, and no event of another
player has a part in either. -/
theorem replicas_monotone (erange : Nat → Nat → Bool) (clocks : Int → Clocks) (acts : List Act)
    (i j : Int) (t : Tank) (hpair : Pair i j t)
    (hstay : .leave i ∉ acts ∧ .leave j ∉ acts)
    (hown : ∀ r, .raise j r ∉ acts)
    (hparse : ∀ n, ∀ r ∈ (Session.after erange clocks acts).log.sent n,
      Harmless erange (r.delivered n))
    (hfit : ∀ inp, .frame j inp ∈ acts → (positionText (inp.shown t)).length ≤ 63) :
    let s := Session.after erange clocks acts
    (i ∈ s.present → (s.process i).running = true → ∀ inp,
        ∃ cmds, s.commands erange i inp = some cmds)
      ∧ (∀ inp cmds, s.commands erange i inp = some cmds → 1 ≤ s.log.heard i j →
        ∃ (owner : FrameInput) (v : Vector2f), .frame j owner ∈ acts
          ∧ (s.log.sent j)[s.log.heard i j - 1]? = some (published (owner.shown t))
          ∧ stof erange (sixDecimals (owner.shown t).x) = .ok v.x
          ∧ stof erange (sixDecimals (owner.shown t).y) = .ok v.y
          ∧ (s.Knows i j → ∀ u q, .pos u q ∈ cmds ↔ u = t ∧ q = v)
          ∧ (¬ s.Knows i j → ∀ u q, .pos u q ∈ cmds →
            u = t ∧ q = ⟨Single.ofNat 300, Single.ofNat 100⟩))
      ∧ (∀ more, s.log.heard i j ≤ (Session.after erange clocks (acts ++ more)).log.heard i j
          ∧ (s.Knows i j → .leave i ∉ more → .leave j ∉ more →
            (Session.after erange clocks (acts ++ more)).Knows i j))
      ∧ ∀ n a, n ≠ j → ((∃ r, a = .raise n r) ∨ ∃ i' k, a = .hear i' n k) →
        (s.step erange a).log.heard i j = s.log.heard i j
          ∧ (s.step erange a).log.sent j = s.log.sent j
          ∧ ((s.step erange a).Knows i j ↔ s.Knows i j) := by
  intro s
  have hanswers := answers_inv erange clocks acts
  have hheard := heard_inv erange clocks acts
  have hlog : ∀ r ∈ (Session.after erange clocks acts).log.sent j,
      ∃ owner, .frame j owner ∈ acts ∧ r = published (owner.shown t) := by
    refine log_inv erange clocks acts j _ ?_ ?_
    · intro inp u hinp hu
      rw [hpair.driven.1] at hu
      obtain rfl := Option.some.inj hu
      exact ⟨inp, hinp, rfl⟩
    · intro r hr
      exact absurd hr (hown r)
  have hj := stays erange clocks acts j hstay.2
  refine ⟨?_, ?_, ?_, ?_⟩
  · intro hi hrun inp
    exact commands_of_harmless hheard hparse hi hrun inp
  · intro inp cmds hcmds h1
    obtain ⟨hi, hrun, _⟩ := commands_eq_some erange hcmds
    have hlen := s.log.heard_le i j
    have hlt : s.log.heard i j - 1 < (s.log.sent j).length := by omega
    obtain ⟨r, hr⟩ : ∃ r, (s.log.sent j)[s.log.heard i j - 1]? = some r :=
      ⟨_, List.getElem?_eq_getElem hlt⟩
    have hmem : r ∈ s.log.sent j := List.mem_of_getElem? hr
    obtain ⟨owner, hframe, rfl⟩ := hlog r hmem
    obtain ⟨v, hx, hy, hv⟩ := carried_published (hfit owner hframe) j (hparse j _ hmem)
    obtain ⟨hpos, hnext⟩ := hheard.sender j (List.ne_nil_of_mem hmem)
    have hpresent : j ∈ s.present := hj hpos hnext
    refine ⟨owner, v, hframe, hr, hx, hy, ?_, ?_⟩
    · intro hk u q
      obtain ⟨hjoined, hremote⟩ := remote_of_knows hpair hanswers.toRoomsInv hrun hk
      have hnewest : s.log.newest i j = some (published (owner.shown t)) := by
        unfold Broadcast.newest
        rw [if_neg (by omega), hr]
      have hentry := (hheard.follows i hrun).newest j _ v hnewest hv
      rw [pair_follows hpair hanswers.toRoomsInv hcmds, hremote]
      unfold MyClient.getDirection
      rw [hentry]
      exact ⟨fun h => h.2, fun h => ⟨hjoined, h⟩⟩
    · intro hk u q hq
      exact shows_fallback hpair hanswers hheard hpresent hk hcmds hq
  · intro more
    rw [after_append]
    exact ⟨heard_le_run erange _ more i j,
      fun hk hi hj => knows_run hanswers.toRoomsInv hk hi hj⟩
  · intro n a hn ha
    obtain ⟨hsame, hsent⟩ := others_step erange s i j n hn a ha
    exact ⟨hsame, hsent, knows_others erange s i j n a ha⟩

/-- **When every player runs the game, what a client shows on the tank of the other player is a
position that some event it has heard of that player carried, or the fallback.** -/
theorem shown_was_carried (erange : Nat → Nat → Bool) (clocks : Int → Clocks) (acts : List Act)
    (hgame : ∀ n r, .raise n r ∉ acts) (i j : Int) (t : Tank) (hpair : Pair i j t)
    (inp : FrameInput) (cmds : List Command)
    (hcmds : (Session.after erange clocks acts).commands erange i inp = some cmds)
    (u : Tank) (q : Vector2f) (hq : .pos u q ∈ cmds) :
    u = t ∧ (q = ⟨Single.ofNat 300, Single.ofNat 100⟩
      ∨ ∃ r ∈ ((Session.after erange clocks acts).log.sent j).take
          ((Session.after erange clocks acts).log.heard i j), carried erange r = some q) := by
  have hrooms := rooms_inv erange clocks acts
  have hheard := heard_inv erange clocks acts
  have hsilent : ∀ n, drivenBy n = none → ∀ r ∈ (Session.after erange clocks acts).log.sent n,
      False := by
    intro n hn
    refine log_inv erange clocks acts n _ ?_ ?_
    · intro inp u _ hu
      rw [hn] at hu
      cases hu
    · intro r hr
      exact hgame n r hr
  generalize Session.after erange clocks acts = s at *
  obtain ⟨hi, hrun, _⟩ := commands_eq_some erange hcmds
  obtain ⟨hjoined, rfl, hq⟩ := (pair_follows hpair hrooms hcmds u q).1 hq
  refine ⟨rfl, ?_⟩
  have hlocal : (s.process i).lbView.localNr = i :=
    informed_localNr (hrooms.informed i hi hrun) hjoined
  generalize hremote : Net.getRemotePlayerNr ⟨(s.process i).lbView, (s.process i).myView erange⟩
    = n at hq
  cases hentry : ((s.process i).myView erange).directions_ n with
  | none =>
    left
    rw [hq]
    unfold MyClient.getDirection
    rw [hentry]
    rfl
  | some v =>
    have hqv : q = v := by
      rw [hq]
      unfold MyClient.getDirection
      rw [hentry]
      rfl
    obtain ⟨r, hr, hv⟩ := (hheard.follows i hrun).heard n v hentry
    have hnj : n = j := by
      have hdriven : drivenBy n ≠ none := by
        intro hnone
        exact hsilent n hnone r (List.mem_of_mem_take hr)
      have hne : n ≠ i := by
        have hloc : Net.getRemotePlayerNr ⟨(s.process i).lbView, (s.process i).myView erange⟩
            ≠ (s.process i).lbView.localNr := by
          apply remote_ne_local
          rw [hremote]
          rintro rfl
          exact hdriven rfl
        rw [hremote, hlocal] at hloc
        exact hloc
      rw [ne_eq, drivenBy_eq_none, not_and_or, not_not, not_not] at hdriven
      rcases hpair with ⟨rfl, rfl, _⟩ | ⟨rfl, rfl, _⟩ <;> omega
    subst hnj
    exact Or.inr ⟨r, hr, hqv ▸ hv⟩

/-! ## two clients that meet -/

/-- Players 1 and 2 enter and are told of each other. -/
def entered : List Act :=
  [.join [1], .arrive 1, .join [1, 2], .arrive 2, .arrive 2, .arrive 1, .arrive 1]

/-- Both tanks stand at `(x, 300)`. -/
def showing (x : Nat) : FrameInput :=
  { FrameInput.still with shown := fun _ => ⟨Single.ofNat x, Single.ofNat 300⟩ }

/-- Player 2 publishes three positions: player 1 hears the first, shows it, and hears the third. -/
def meets : List Act :=
  entered ++ [.frame 2 (showing 300), .hear 1 2 0, .frame 1 .still, .frame 2 (showing 320),
    .frame 2 (showing 340), .hear 1 2 2]

theorem harmless_of_carried {erange : Nat → Nat → Bool} {r : Raised} {v : Vector2f}
    (h : carried erange r = some v) (n : Int) : Harmless erange (r.delivered n) := by
  intro h2 a b hfirst
  unfold carried at h
  rw [if_pos (show r.eventCode = 2 from h2)] at h
  obtain ⟨a', b', hfirst', hx, hy⟩ := (decode_eq_some erange).1 h
  obtain ⟨rfl, rfl⟩ := hfirst.unique hfirst'
  exact ⟨(stof_ok_iff erange _).1 ⟨_, hx⟩, (stof_ok_iff erange _).1 ⟨_, hy⟩⟩

theorem carried_spawn (t : Tank) : carried noErange (published t.spawn) = some t.spawn := by
  cases t <;> decide +kernel

theorem carried_showing {x : Nat} (h : x = 300 ∨ x = 320 ∨ x = 340) :
    carried noErange (published ⟨Single.ofNat x, Single.ofNat 300⟩)
      = some ⟨Single.ofNat x, Single.ofNat 300⟩ := by
  rcases h with rfl | rfl | rfl <;> decide +kernel

theorem meets_harmless : ∀ n, ∀ r ∈ (Session.after noErange origin meets).log.sent n,
    Harmless noErange (r.delivered n) := by
  intro n
  refine log_inv noErange origin meets n _ ?_ ?_
  · intro inp t hinp _
    have hcases : n = 2 ∧ inp = showing 300 ∨ n = 1 ∧ inp = .still ∨ n = 2 ∧ inp = showing 320
        ∨ n = 2 ∧ inp = showing 340 := by simpa [meets, entered] using hinp
    rcases hcases with ⟨_, rfl⟩ | ⟨_, rfl⟩ | ⟨_, rfl⟩ | ⟨_, rfl⟩
    · exact harmless_of_carried (carried_showing (.inl rfl)) n
    · exact harmless_of_carried (carried_spawn t) n
    · exact harmless_of_carried (carried_showing (.inr (.inl rfl))) n
    · exact harmless_of_carried (carried_showing (.inr (.inr rfl))) n
  · intro r hr
    simp [meets, entered] at hr

theorem meets_owner {owner : FrameInput} (h : .frame 2 owner ∈ meets) :
    owner = showing 300 ∨ owner = showing 320 ∨ owner = showing 340 := by
  simpa [meets, entered] using h

theorem stof_value {erange : Nat → Nat → Bool} {text : List Char} {x y : Single}
    (h : stof erange text = .ok x) (hy : (stof erange text).toOption = some y) : x = y := by
  rw [h] at hy
  exact Option.some.inj hy

theorem replicas_monotone_meets :
    (Session.after noErange origin meets).log.heard 1 2 = 3
      ∧ ∃ cmds, (Session.after noErange origin meets).commands noErange 1 .still = some cmds
        ∧ ∀ u q, .pos u q ∈ cmds ↔ u = .player2 ∧ q = ⟨Single.ofNat 340, Single.ofNat 300⟩ := by
  obtain ⟨hruns, hshows, _⟩ := replicas_monotone noErange origin meets 1 2 .player2
    (Or.inl ⟨rfl, rfl, rfl⟩) ⟨by simp [meets, entered], by simp [meets, entered]⟩
    (by simp [meets, entered]) meets_harmless (by
      intro inp hinp
      rcases meets_owner hinp with rfl | rfl | rfl <;> decide +kernel)
  obtain ⟨cmds, hcmds⟩ := hruns (by decide) rfl .still
  obtain ⟨owner, v, hframe, hsent, hx, hy, hpos, _⟩ := hshows .still cmds hcmds (by decide)
  have hlast : published (owner.shown .player2) = published ⟨Single.ofNat 340, Single.ofNat 300⟩ :=
    (Option.some.inj hsent).symm
  have hcarried := congrArg (carried noErange) hlast
  rw [carried_showing (.inr (.inr rfl))] at hcarried
  have hv : v = ⟨Single.ofNat 340, Single.ofNat 300⟩ := by
    rcases meets_owner hframe with rfl | rfl | rfl
    · exact absurd ((carried_showing (.inl rfl)).symm.trans hcarried) (by decide +kernel)
    · exact absurd ((carried_showing (.inr (.inl rfl))).symm.trans hcarried) (by decide +kernel)
    · have hvx := stof_value hx (y := Single.ofNat 340) (by decide +kernel)
      have hvy := stof_value hy (y := Single.ofNat 300) (by decide +kernel)
      cases v
      rw [← hvx, ← hvy]
  refine ⟨by decide, cmds, hcmds, ?_⟩
  rw [← hv]
  exact hpos (by decide)

/-- Player 1 hears an event of player 2 before it is told that player 2 is there. -/
def outruns : List Act :=
  [.join [1], .arrive 1, .join [1, 2], .arrive 2, .frame 2 .still, .hear 1 2 0]

theorem outruns_harmless : ∀ n, ∀ r ∈ (Session.after noErange origin outruns).log.sent n,
    Harmless noErange (r.delivered n) := by
  intro n
  refine log_inv noErange origin outruns n _ ?_ ?_
  · intro inp t hinp _
    obtain ⟨_, rfl⟩ : n = 2 ∧ inp = .still := by simpa [outruns] using hinp
    exact harmless_of_carried (carried_spawn t) n
  · intro r hr
    simp [outruns] at hr

/-- An event has been delivered, and the tank of its player is set to the fallback. -/
theorem replicas_outrun :
    ¬ ∀ (erange : Nat → Nat → Bool) (clocks : Int → Clocks) (acts : List Act) (i j : Int) (t : Tank),
      Pair i j t → .leave i ∉ acts ∧ .leave j ∉ acts → (∀ r, .raise j r ∉ acts) →
      (∀ n, ∀ r ∈ (Session.after erange clocks acts).log.sent n,
        Harmless erange (r.delivered n)) →
      (∀ inp, .frame j inp ∈ acts → (positionText (inp.shown t)).length ≤ 63) →
      ∀ inp cmds, (Session.after erange clocks acts).commands erange i inp = some cmds →
        1 ≤ (Session.after erange clocks acts).log.heard i j →
        ∃ (owner : FrameInput) (v : Vector2f), .frame j owner ∈ acts
          ∧ ((Session.after erange clocks acts).log.sent j)[
              (Session.after erange clocks acts).log.heard i j - 1]?
            = some (published (owner.shown t))
          ∧ stof erange (sixDecimals (owner.shown t).x) = .ok v.x
          ∧ stof erange (sixDecimals (owner.shown t).y) = .ok v.y
          ∧ ∀ u q, .pos u q ∈ cmds → u = t ∧ q = v := by
  intro h
  have hpair : Pair 1 2 .player2 := Or.inl ⟨rfl, rfl, rfl⟩
  have hanswers := answers_inv noErange origin outruns
  have hheard := heard_inv noErange origin outruns
  obtain ⟨cmds, hcmds⟩ := commands_of_harmless hheard outruns_harmless (i := 1) (by decide) rfl
    .still
  obtain ⟨owner, v, hframe, _, _, hy, hpos⟩ := h noErange origin outruns 1 2 .player2 hpair
    ⟨by simp [outruns], by simp [outruns]⟩ (by simp [outruns]) outruns_harmless (by
      intro inp hinp
      obtain rfl : inp = .still := by simpa [outruns] using hinp
      decide +kernel) .still cmds hcmds (by decide)
  obtain rfl : owner = .still := by simpa [outruns] using hframe
  have hset := (pair_follows hpair hanswers.toRoomsInv hcmds .player2 _).2 ⟨rfl, rfl, rfl⟩
  have hfallback := (shows_fallback hpair hanswers hheard (by decide) (by decide) hcmds hset).2
  rw [(hpos _ _ hset).2] at hfallback
  have hvy := stof_value hy (y := Single.ofNat 300) (by decide +kernel)
  rw [hfallback] at hvy
  exact absurd hvy (by decide +kernel)

theorem entered_shows :
    ∃ cmds, (Session.after noErange origin entered).commands noErange 1 .still = some cmds
      ∧ Command.pos .player2 ⟨Single.ofNat 300, Single.ofNat 100⟩ ∈ cmds := by
  have hsent : ∀ n, ∀ r ∈ (Session.after noErange origin entered).log.sent n,
      Harmless noErange (r.delivered n) := by
    intro n r hr
    cases hr
  obtain ⟨cmds, hcmds⟩ := commands_of_harmless (heard_inv noErange origin entered) hsent
    (i := 1) (by decide) rfl .still
  refine ⟨cmds, hcmds, ?_⟩
  rw [pair_follows (Or.inl ⟨rfl, rfl, rfl⟩) (rooms_inv noErange origin entered) hcmds]
  exact ⟨rfl, rfl, rfl⟩

theorem shown_was_carried_entered :
    ∃ cmds q, (Session.after noErange origin entered).commands noErange 1 .still = some cmds
      ∧ Command.pos .player2 q ∈ cmds
      ∧ (q = ⟨Single.ofNat 300, Single.ofNat 100⟩
        ∨ ∃ r ∈ ((Session.after noErange origin entered).log.sent 2).take
          ((Session.after noErange origin entered).log.heard 1 2), carried noErange r = some q) := by
  obtain ⟨cmds, hcmds, hpos⟩ := entered_shows
  exact ⟨cmds, _, hcmds, hpos, (shown_was_carried noErange origin entered
    (by simp [entered]) 1 2 .player2 (Or.inl ⟨rfl, rfl, rfl⟩) .still cmds hcmds _ _ hpos).2⟩

/-- Before anything is heard the tank of the other player jumps to the fallback. -/
theorem shown_elsewhere :
    ¬ ∀ (erange : Nat → Nat → Bool) (clocks : Int → Clocks) (acts : List Act),
      (∀ n r, .raise n r ∉ acts) → ∀ (i j : Int) (t : Tank), Pair i j t →
      ∀ (inp : FrameInput) (cmds : List Command),
      (Session.after erange clocks acts).commands erange i inp = some cmds →
      ∀ u q, .pos u q ∈ cmds → u = t ∧ (q = t.spawn
        ∨ ∃ r ∈ (Session.after erange clocks acts).log.sent j, carried erange r = some q) := by
  intro h
  obtain ⟨cmds, hcmds, hpos⟩ := entered_shows
  have hor := (h noErange origin entered (by simp [entered]) 1 2 .player2
    (Or.inl ⟨rfl, rfl, rfl⟩) .still cmds hcmds _ _ hpos).2
  rcases hor with heq | ⟨r, hr, _⟩
  · exact absurd heq (by decide +kernel)
  · cases hr

end Game
