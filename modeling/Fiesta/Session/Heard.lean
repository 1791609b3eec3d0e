import Fiesta.Session.Rooms

/-!
# What a client has heard

* `carried`        the position an event carries;
* `Follows`        the entries of a client against the logs of the players it has heard;
* `HeardInv`       the packets on their way, and the entries of every running client;
* `frame_raises`   the events a frame raises;
* `log_inv`        what holds of every event a player raises holds of its log.
-/

namespace Game

open Photon Strtof

section
variable (erange : Nat → Nat → Bool)

/-! ## positions in events -/

/-- The position of an event as every listener reads it. -/
def carried (r : Raised) : Option Vector2f :=
  if r.eventCode = 2 then decode erange (cstr (ValueObject.getDataCopy r.content)) else none

theorem written_delivered (r : Raised) (n : Int) :
    written erange (r.delivered n) = (carried erange r).map fun v => (n, v) := by
  unfold written carried
  show (if r.eventCode = 2 then _ else none) = _
  split <;> rfl

/-- The entry of a player is the position its newest event heard carries, if it carries one, and
it is always the position of some event heard. -/
structure Follows (my : MyClient) (log : Broadcast Int Raised) (i : Int) : Prop where
  newest : ∀ j r v, log.newest i j = some r → carried erange r = some v →
    my.directions_ j = some v
  heard : ∀ j v, my.directions_ j = some v →
    ∃ r ∈ (log.sent j).take (log.heard i j), carried erange r = some v

theorem follows_send {my : MyClient} {log : Broadcast Int Raised} {i : Int}
    (h : Follows erange my log i) (n : Int) (rs : List Raised) :
    Follows erange my (log.send n rs) i := by
  refine ⟨?_, ?_⟩
  · intro j r v hr hv
    rw [Broadcast.newest_send] at hr
    exact h.newest j r v hr hv
  · intro j v hv
    rw [Broadcast.heard_send_prefix]
    exact h.heard j v hv

/-- Someone else hears something. -/
theorem follows_hear_of_ne {my : MyClient} {log : Broadcast Int Raised} {i i' : Int}
    (h : Follows erange my log i') (hne : i' ≠ i) (j : Int) (k : Nat) :
    Follows erange my (log.hear i j k) i' := by
  refine ⟨?_, ?_⟩
  · intro j' r v hr hv
    rw [Broadcast.newest_hear_of_ne log k (Or.inl hne)] at hr
    exact h.newest j' r v hr hv
  · intro j' v hv
    obtain ⟨r, hr, hrv⟩ := h.heard j' v hv
    exact ⟨r, Broadcast.mem_heard_hear log hr, hrv⟩

/-- The client hears an event of player `j`: no entry but that of `j` can change. -/
theorem follows_hear {my : MyClient} {log : Broadcast Int Raised} {i j : Int} {k : Nat}
    {r : Raised} (h : Follows erange my log i) (hle : log.heard i j ≤ k)
    (hr : (log.sent j)[k]? = some r) :
    Follows erange (received erange my (r.delivered j)) (log.hear i j k) i := by
  have hlt : k < (log.sent j).length := (List.getElem?_eq_some_iff.1 hr).1
  refine ⟨?_, ?_⟩
  · intro j' r' v hr' hv
    rw [received_directions]
    by_cases hj : j' = j
    · subst hj
      rw [Broadcast.newest_hear log hle hlt, hr] at hr'
      obtain rfl := Option.some.inj hr'
      exact Store.write_of_eq _ (by rw [written_delivered, hv]; rfl)
    · rw [Broadcast.newest_hear_of_ne log k (Or.inr hj)] at hr'
      rw [Store.write_of_ne]
      · exact h.newest j' r' v hr' hv
      · intro w hw
        rw [written_delivered, Option.map_eq_some_iff] at hw
        obtain ⟨_, _, heq⟩ := hw
        exact hj (Prod.mk.inj heq).1.symm
  · intro j' v hv
    rw [received_directions] at hv
    have hold : my.directions_ j' = some v →
        ∃ r' ∈ ((log.hear i j k).sent j').take ((log.hear i j k).heard i j'),
          carried erange r' = some v := by
      intro hv
      obtain ⟨r', hr', hrv⟩ := h.heard j' v hv
      exact ⟨r', Broadcast.mem_heard_hear log hr', hrv⟩
    cases hc : carried erange r with
    | none =>
      rw [Store.write_of_ne] at hv
      · exact hold hv
      · intro w hw
        rw [written_delivered, hc] at hw
        cases hw
    | some w =>
      have hw : written erange (r.delivered j) = some (j, w) := by
        rw [written_delivered, hc]
        rfl
      by_cases hj : j' = j
      · subst hj
        rw [Store.write_of_eq _ hw] at hv
        obtain rfl := Option.some.inj hv
        refine ⟨r, ?_, hc⟩
        rw [Broadcast.heard_hear_self log hle hlt, List.mem_iff_getElem?]
        exact ⟨k, by rw [List.getElem?_take_of_lt (Nat.lt_succ_self k)]; exact hr⟩
      · rw [Store.write_of_ne] at hv
        · exact hold hv
        · intro w' hw'
          rw [hw] at hw'
          exact hj (Prod.mk.inj (Option.some.inj hw')).1.symm

/-! ## packets on their way -/

def Packet.isCustom : Packet → Bool
  | .custom _ => true
  | _ => false

theorem heed_room {my : MyClient} {p : Packet} (h : Packet.isCustom p = false) :
    heed erange my p = my := by
  cases p with
  | custom e => cases h
  | _ => rfl

structure HeardInv (s : Session) : Prop where
  plain : ∀ i, ∀ p ∈ s.room i, Packet.isCustom p = false
  inbox : ∀ i e, .custom e ∈ (s.process i).inbox → ∃ j, ∃ r ∈ s.log.sent j, e = r.delivered j
  follows : ∀ i, (s.process i).running = true →
    Follows erange ((s.process i).myView erange) s.log i
  sender : ∀ j, s.log.sent j ≠ [] → 1 ≤ j ∧ j < s.nextNr

theorem heardInv_start (clocks : Int → Clocks) : HeardInv erange (Session.start clocks) where
  plain := by
    intro i p hp
    cases hp
  inbox := by
    intro i e he
    cases he
  follows := by
    intro i _
    refine ⟨?_, ?_⟩
    · intro j r v hr
      cases hr
    · intro j v hv
      cases hv
  sender := by
    intro j hj
    exact absurd rfl hj

variable {erange} {s : Session}

theorem mem_sent_send {log : Broadcast Int Raised} {j : Int} {r : Raised} (h : r ∈ log.sent j)
    (n : Int) (rs : List Raised) : r ∈ (log.send n rs).sent j :=
  (Broadcast.sent_prefix_send log n rs j).subset h

theorem heardInv_join (h : HeardInv erange s) (order : List Int) :
    HeardInv erange (s.join order) := by
  have hroom : ∀ i, (s.join order).room i
      = if i = s.nextNr then [.joined i order, .join i]
        else if i ∈ s.present then s.room i ++ [.join s.nextNr] else s.room i := fun _ => rfl
  refine ⟨?_, h.inbox, h.follows, ?_⟩
  · intro i p hp
    rw [hroom] at hp
    split at hp
    · simp at hp
      rcases hp with rfl | rfl <;> rfl
    · split at hp
      · rw [mem_snoc] at hp
        rcases hp with hp | rfl
        · exact h.plain i p hp
        · rfl
      · exact h.plain i p hp
  · intro j hj
    show 1 ≤ j ∧ j < s.nextNr + 1
    have := h.sender j hj
    omega

theorem heardInv_leave (h : HeardInv erange s) (n : Int) : HeardInv erange (s.leave n) := by
  have hroom : ∀ i, (s.leave n).room i
      = if i ∈ s.present.erase n then s.room i ++ [.leave n] else s.room i := fun _ => rfl
  refine ⟨?_, h.inbox, h.follows, h.sender⟩
  intro i p hp
  rw [hroom] at hp
  split at hp
  · rw [mem_snoc] at hp
    rcases hp with hp | rfl
    · exact h.plain i p hp
    · rfl
  · exact h.plain i p hp

theorem heardInv_arrive (h : HeardInv erange s) (n : Int) : HeardInv erange (s.arrive n) := by
  have htail : ∀ i, ∀ p ∈ (s.arrive n).room i, p ∈ s.room i := by
    intro i p hp
    change p ∈ Function.update s.room n (s.room n).tail i at hp
    by_cases hi : i = n
    · subst hi
      rw [Function.update_self] at hp
      exact List.mem_of_mem_tail hp
    · rwa [Function.update_of_ne hi] at hp
  have hhead : ∀ p ∈ (s.room n).head?.toList, Packet.isCustom p = false := by
    intro p hp
    rw [Option.mem_toList] at hp
    exact h.plain n p (List.mem_of_mem_head? hp)
  have hproc : ∀ i, (s.arrive n).process i
      = if i = n then (s.process n).receive (s.room n).head?.toList else s.process i := by
    intro i
    exact Function.update_apply ..
  refine ⟨fun i p hp => h.plain i p (htail i p hp), ?_, ?_, h.sender⟩
  · intro i e he
    rw [hproc] at he
    split at he
    · rcases List.mem_append.1 he with he | he
      · exact h.inbox n e he
      · have := hhead _ he
        cases this
    · exact h.inbox i e he
  · intro i hrun
    rw [hproc] at hrun ⊢
    split
    · rename_i hi
      subst hi
      rw [if_pos rfl] at hrun
      have hview : ((s.process i).receive (s.room i).head?.toList).myView erange
          = (s.process i).myView erange := by
        rw [myView_receive]
        cases hh : (s.room i).head? with
        | none => rfl
        | some p =>
          have hp := hhead p (by rw [hh]; exact List.mem_singleton_self p)
          exact heed_room erange hp
      rw [hview]
      exact h.follows i hrun
    · rename_i hi
      rw [if_neg hi] at hrun
      exact h.follows i hrun

theorem heardInv_hear (h : HeardInv erange s) {i j : Int} {k : Nat}
    (hen : s.Enabled (.hear i j k)) : HeardInv erange (s.hear i j k) := by
  obtain ⟨_, _, hle, hlt⟩ := hen
  obtain ⟨r, hr⟩ : ∃ r, (s.log.sent j)[k]? = some r := ⟨_, List.getElem?_eq_getElem hlt⟩
  have hproc : ∀ i', (s.hear i j k).process i'
      = if i' = i then (s.process i).receive [.custom (r.delivered j)] else s.process i' := by
    intro i'
    show Function.update s.process i _ i' = _
    rw [hr, Function.update_apply]
    rfl
  refine ⟨h.plain, ?_, ?_, h.sender⟩
  · intro i' e he
    rw [hproc] at he
    split at he
    · rcases List.mem_append.1 he with he | he
      · exact h.inbox i e he
      · have heq := Packet.custom.inj (List.mem_singleton.1 he)
        exact ⟨j, r, List.mem_of_getElem? hr, heq⟩
    · exact h.inbox i' e he
  · intro i' hrun
    rw [hproc] at hrun ⊢
    show Follows erange _ (s.log.hear i j k) i'
    split
    · rename_i hi
      subst hi
      rw [if_pos rfl] at hrun
      rw [myView_receive]
      exact follows_hear erange (h.follows i' hrun) hle hr
    · rename_i hi
      rw [if_neg hi] at hrun
      exact follows_hear_of_ne erange (h.follows i' hrun) hi j k

theorem heardInv_send (h : HeardInv erange s) {n : Int} (hn : 1 ≤ n ∧ n < s.nextNr)
    (rs : List Raised) :
    HeardInv erange { s with log := s.log.send n rs } := by
  refine ⟨h.plain, ?_, ?_, ?_⟩
  · intro i e he
    obtain ⟨j, r, hr, heq⟩ := h.inbox i e he
    exact ⟨j, r, mem_sent_send hr n rs, heq⟩
  · intro i hrun
    exact follows_send erange (h.follows i hrun) n rs
  · intro j hj
    by_cases hjn : j = n
    · rw [hjn]
      exact hn
    · change (s.log.send n rs).sent j ≠ [] at hj
      rw [Broadcast.sent_send_of_ne s.log hjn] at hj
      exact h.sender j hj

theorem heardInv_frame (hrooms : RoomsInv s) (h : HeardInv erange s) {n : Int}
    {inp : FrameInput} (hen : s.Enabled (.frame n inp)) :
    HeardInv erange (s.frame erange n inp) := by
  obtain ⟨hn, hrun⟩ := hen
  have hinbox : ((s.process n).frame erange inp).1.inbox = [] := by
    unfold Process.frame
    split <;> rfl
  refine heardInv_send (s := { s with process := Function.update s.process n _ }) ?_
    (hrooms.range n hn) _
  refine ⟨h.plain, ?_, ?_, h.sender⟩
  · intro i e he
    change .custom e ∈ (Function.update s.process n _ i).inbox at he
    rw [Function.update_apply] at he
    split at he
    · rw [hinbox] at he
      cases he
    · exact h.inbox i e he
  · intro i hrun'
    change (Function.update s.process n _ i).running = true at hrun'
    show Follows erange ((Function.update s.process n _ i).myView erange) s.log i
    rw [Function.update_apply] at hrun' ⊢
    split
    · rename_i hi
      subst hi
      rw [if_pos rfl] at hrun'
      rcases frame_cases erange (s.process i) inp with ⟨hstop, _⟩ | ⟨hp, _⟩
      · rw [hstop] at hrun'
        cases hrun'
      · rw [hp]
        exact h.follows i hrun
    · rename_i hi
      rw [if_neg hi] at hrun'
      exact h.follows i hrun'

theorem heardInv_effect (hrooms : RoomsInv s) (h : HeardInv erange s) {a : Act}
    (hen : s.Enabled a) : HeardInv erange (s.effect erange a) := by
  cases a with
  | join order => exact heardInv_join h order
  | leave n => exact heardInv_leave h n
  | arrive n => exact heardInv_arrive h n
  | hear i j k => exact heardInv_hear h hen
  | frame n inp => exact heardInv_frame hrooms h hen
  | raise n r => exact heardInv_send h (hrooms.range n hen) [r]

theorem heard_inv (erange : Nat → Nat → Bool) (clocks : Int → Clocks) (acts : List Act) :
    HeardInv erange (Session.after erange clocks acts) :=
  (after_inv erange (fun _ => True) (fun s => RoomsInv s ∧ HeardInv erange s) clocks
    ⟨roomsInv_start clocks, heardInv_start erange clocks⟩
    (fun _ _ _ h hen => ⟨roomsInv_effect h.1 hen, heardInv_effect h.1 h.2 hen⟩) acts
    (fun _ _ => trivial)).2

/-! ## what a player raises -/

/-- The event that publishes a position. -/
def published (p : Vector2f) : Raised := ⟨false, .jstring (buf p), 2⟩

theorem mem_raisedBy_frame {net : Net} {c : Clocks} {inp : FrameInput} {lb : LBClient}
    {r : Raised} (h : r ∈ raisedBy lb (Game.frame net c inp).2) :
    ∃ t, drivenBy net.getLocalPlayerNr = some t ∧ r = published (inp.shown t) := by
  unfold raisedBy at h
  obtain ⟨cmd, hcmd, hr⟩ := List.mem_filterMap.1 h
  cases cmd with
  | opRaiseEvent reliable content code =>
    cases hd : drivenBy net.getLocalPlayerNr with
    | none => exact absurd hcmd ((frame_idle hd c inp).publishes _ _ _)
    | some t =>
      obtain ⟨rfl, rfl, rfl⟩ := ((frame_drives hd c inp).publishes _ _ _).1 hcmd
      refine ⟨t, rfl, ?_⟩
      simp only [LBClient.opRaiseEvent] at hr
      split at hr
      · exact (Option.some.inj hr).symm
      · cases hr
  | _ => cases hr

/-- A frame of player `n` raises the position of the tank that `n` drives, or nothing. -/
theorem frame_raises (hrooms : RoomsInv s) {n : Int} {inp : FrameInput}
    (hen : s.Enabled (.frame n inp)) {r : Raised}
    (h : r ∈ raisedBy ((s.process n).frame erange inp).1.net.lb
      (((s.process n).frame erange inp).2.getD [])) :
    ∃ t, drivenBy n = some t ∧ r = published (inp.shown t) := by
  rcases frame_cases erange (s.process n) inp with ⟨_, hnone⟩ | ⟨_, hsome⟩
  · rw [hnone] at h
    cases h
  · rw [hsome] at h
    obtain ⟨t, ht, hr⟩ := mem_raisedBy_frame h
    change drivenBy (s.process n).lbView.localNr = some t at ht
    rcases hrooms.informed n hen.1 hen.2 with ⟨_, hnr, _⟩ | ⟨_, hnr, _⟩
    · rw [hnr] at ht
      cases ht
    · rw [hnr] at ht
      exact ⟨t, ht, hr⟩

/-- **What holds of every event that player `n` raises holds of its log.** -/
theorem log_inv (erange : Nat → Nat → Bool) (clocks : Int → Clocks) (acts : List Act) (n : Int)
    (Q : Raised → Prop)
    (hframe : ∀ inp t, .frame n inp ∈ acts → drivenBy n = some t → Q (published (inp.shown t)))
    (hraise : ∀ r, .raise n r ∈ acts → Q r) :
    ∀ r ∈ (Session.after erange clocks acts).log.sent n, Q r := by
  refine (after_inv erange (fun a => a ∈ acts)
    (fun s => RoomsInv s ∧ ∀ r ∈ s.log.sent n, Q r) clocks ⟨roomsInv_start clocks, ?_⟩ ?_ acts
    (fun _ ha => ha)).2
  · intro r hr
    cases hr
  · rintro s a ha ⟨hrooms, hlog⟩ hen
    refine ⟨roomsInv_effect hrooms hen, ?_⟩
    have hsend : ∀ m rs, (m = n → ∀ r ∈ rs, Q r) → ∀ r ∈ (s.log.send m rs).sent n, Q r := by
      intro m rs hrs r hr
      by_cases hm : m = n
      · subst hm
        rw [Broadcast.sent_send_self, List.mem_append] at hr
        exact hr.elim (hlog r) (hrs rfl r)
      · rw [Broadcast.sent_send_of_ne s.log (Ne.symm hm)] at hr
        exact hlog r hr
    cases a with
    | join order => exact hlog
    | leave m => exact hlog
    | arrive m => exact hlog
    | hear i j k => exact hlog
    | frame m inp =>
      apply hsend m _
      rintro rfl r hr
      obtain ⟨t, ht, rfl⟩ := frame_raises hrooms hen hr
      exact hframe inp t ha ht
    | raise m r' =>
      apply hsend m [r']
      rintro rfl r hr
      rw [List.mem_singleton.1 hr]
      exact hraise r' ha

end

end Game
