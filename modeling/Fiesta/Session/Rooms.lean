import Fiesta.Session.Model
import Mathlib.Data.List.Pairwise

/-!
# What a client knows about its room

* `Told`            the players a client has been told of, with the room messages on their way;
* `Informed`        the room of a client, before and after its answer to joining;
* `rooms_inv`       every running client is informed, after every run;
* `remote_of_pair`  clients 1 and 2 take each other for the remote player once told of each other.
-/

namespace Game

open Photon

/-! ## numbers -/

structure Numbered (s : Session) : Prop where
  nodup : s.present.Nodup
  pos : 1 ≤ s.nextNr
  range : ∀ n ∈ s.present, 1 ≤ n ∧ n < s.nextNr
  fresh : ∀ n, s.nextNr ≤ n → (∃ c, s.process n = Process.new c) ∧ s.room n = []

/-! ## what a client has been told -/

/-- The newcomers the packets announce, other than the client itself. -/
def newcomers (m : Int) (ps : List Packet) : List Int :=
  ps.filterMap fun
    | .join k => if k = m then none else some k
    | _ => none

theorem newcomers_append (m : Int) (ps qs : List Packet) :
    newcomers m (ps ++ qs) = newcomers m ps ++ newcomers m qs := List.filterMap_append ..

theorem newcomers_join {m k : Int} (h : k ≠ m) (ps : List Packet) :
    newcomers m (.join k :: ps) = k :: newcomers m ps := by
  simp [newcomers, h]

theorem newcomers_self (m : Int) (ps : List Packet) :
    newcomers m (.join m :: ps) = newcomers m ps := by
  simp [newcomers]

theorem newcomers_leave (m k : Int) (ps : List Packet) :
    newcomers m (.leave k :: ps) = newcomers m ps := by
  simp [newcomers]

/-- Client `m` has been told of the others `rest`, and `pend` is on its way.  Players that came
after `m` stand in the order they came, behind those that were there before. -/
structure Told (m : Int) (rest : List Int) (pend : List Packet) (nextNr : Int)
    (present : List Int) : Prop where
  nodup : (m :: (rest ++ newcomers m pend)).Nodup
  ordered : (rest ++ newcomers m pend).Pairwise fun a b => m < a → a < b
  range : ∀ a ∈ rest ++ newcomers m pend, 1 ≤ a ∧ a < nextNr
  plain : ∀ p ∈ pend, (∃ k, p = .join k) ∨ ∃ k, k < nextNr ∧ p = .leave k
  stays : .leave m ∉ pend
  known : ∀ n ∈ present, n ≠ m → .leave n ∉ pend ∧ (n ∈ rest ∨ .join n ∈ pend)

section
variable {m nextNr : Int} {rest : List Int} {pend tail : List Packet} {present : List Int}

theorem told_enters (h : Told m rest pend nextNr present) (hm : m < nextNr) (hpos : 1 ≤ nextNr) :
    Told m rest (pend ++ [.join nextNr]) (nextNr + 1) (present ++ [nextNr]) := by
  have hne : nextNr ≠ m := by omega
  have hlist : rest ++ newcomers m (pend ++ [.join nextNr])
      = (rest ++ newcomers m pend) ++ [nextNr] := by
    rw [newcomers_append, newcomers_join hne, List.append_assoc]
    rfl
  refine ⟨?_, ?_, ?_, ?_, ?_, ?_⟩
  · rw [hlist, ← List.cons_append, List.nodup_append]
    refine ⟨h.nodup, List.nodup_singleton _, ?_⟩
    rintro a ha b hb rfl
    rw [List.mem_singleton] at hb
    subst hb
    rcases List.mem_cons.1 ha with heq | ha
    · exact hne heq
    · have := (h.range _ ha).2
      omega
  · rw [hlist, List.pairwise_append]
    refine ⟨h.ordered, List.pairwise_singleton _ _, ?_⟩
    intro a ha b hb _
    rw [List.mem_singleton.1 hb]
    exact (h.range a ha).2
  · intro a ha
    rw [hlist, mem_snoc] at ha
    rcases ha with ha | rfl
    · have := h.range a ha
      omega
    · omega
  · intro p hp
    rw [mem_snoc] at hp
    rcases hp with hp | rfl
    · rcases h.plain p hp with hj | ⟨k, hk, rfl⟩
      · exact Or.inl hj
      · exact Or.inr ⟨k, by omega, rfl⟩
    · exact Or.inl ⟨nextNr, rfl⟩
  · intro hmem
    rw [mem_snoc] at hmem
    rcases hmem with hmem | heq
    · exact h.stays hmem
    · cases heq
  · intro n hn hnm
    rw [mem_snoc] at hn
    have hleave : ∀ k, .leave k ∉ pend → Packet.leave k ∉ pend ++ [.join nextNr] := by
      intro k hk hmem
      rw [mem_snoc] at hmem
      rcases hmem with hmem | heq
      · exact hk hmem
      · cases heq
    rcases hn with hn | rfl
    · obtain ⟨hl, hj⟩ := h.known n hn hnm
      exact ⟨hleave n hl, hj.imp_right fun hj => List.mem_append_left _ hj⟩
    · refine ⟨hleave n ?_, Or.inr (List.mem_append_right _ (List.mem_singleton_self _))⟩
      intro hmem
      rcases h.plain _ hmem with ⟨k, hk⟩ | ⟨k, hk, heq⟩
      · cases hk
      · cases heq
        omega

theorem told_leaves (h : Told m rest pend nextNr present) {k : Int} (hk : k < nextNr)
    (hkm : k ≠ m) (hnd : present.Nodup) :
    Told m rest (pend ++ [.leave k]) nextNr (present.erase k) := by
  have hlist : newcomers m (pend ++ [.leave k]) = newcomers m pend := by
    rw [newcomers_append, newcomers_leave]
    exact List.append_nil _
  refine ⟨by rw [hlist]; exact h.nodup, by rw [hlist]; exact h.ordered,
    by rw [hlist]; exact h.range, ?_, ?_, ?_⟩
  · intro p hp
    rw [mem_snoc] at hp
    rcases hp with hp | rfl
    · exact h.plain p hp
    · exact Or.inr ⟨k, hk, rfl⟩
  · intro hmem
    rw [mem_snoc] at hmem
    rcases hmem with hmem | heq
    · exact h.stays hmem
    · exact hkm (Packet.leave.inj heq).symm
  · intro n hn hnm
    obtain ⟨hnk, hn⟩ := (List.Nodup.mem_erase_iff hnd).1 hn
    obtain ⟨hl, hj⟩ := h.known n hn hnm
    refine ⟨?_, hj.imp_right fun hj => List.mem_append_left _ hj⟩
    intro hmem
    rw [mem_snoc] at hmem
    rcases hmem with hmem | heq
    · exact hl hmem
    · exact hnk (Packet.leave.inj heq)

theorem told_newcomer {order : List Int} (hperm : order.Perm (present ++ [m]))
    (hnd : (present ++ [m]).Nodup) (hrange : ∀ a ∈ present, 1 ≤ a ∧ a < m) :
    Told m (order.filter (· ≠ m)) [.join m] (m + 1) (present ++ [m]) := by
  have hnone : newcomers m [.join m] = [] := newcomers_self m []
  have hmem : ∀ a ∈ order.filter (· ≠ m), a ∈ present := by
    intro a ha
    rw [List.mem_filter] at ha
    have ha' := hperm.mem_iff.1 ha.1
    rw [mem_snoc] at ha'
    rcases ha' with ha' | heq
    · exact ha'
    · simp [heq] at ha
  refine ⟨?_, ?_, ?_, ?_, ?_, ?_⟩
  · rw [hnone, List.append_nil, List.nodup_cons]
    refine ⟨by simp, ?_⟩
    exact (hperm.nodup_iff.2 hnd).filter _
  · rw [hnone, List.append_nil]
    apply List.pairwise_of_forall_mem_list
    intro a ha b _ hlt
    have := (hrange a (hmem a ha)).2
    omega
  · rw [hnone, List.append_nil]
    intro a ha
    have := hrange a (hmem a ha)
    omega
  · intro p hp
    exact Or.inl ⟨m, List.mem_singleton.1 hp⟩
  · simp
  · intro n hn hnm
    refine ⟨by simp, Or.inl ?_⟩
    rw [List.mem_filter]
    exact ⟨hperm.mem_iff.2 hn, by simpa using hnm⟩

/-- The client dispatches one room message. -/
theorem told_sees {p : Packet} (h : Told m rest (p :: tail) nextNr present) {lb : LBClient}
    (hjoined : lb.joined = true) (hnr : lb.localNr = m) (hps : lb.players = m :: rest) :
    (see lb p).joined = true ∧ (see lb p).localNr = m
      ∧ ∃ rest', (see lb p).players = m :: rest' ∧ Told m rest' tail nextNr present := by
  have hplain : ∀ q ∈ tail, (∃ k, q = .join k) ∨ ∃ k, k < nextNr ∧ q = .leave k :=
    fun q hq => h.plain q (List.mem_cons_of_mem _ hq)
  have hstays : .leave m ∉ tail := fun hmem => h.stays (List.mem_cons_of_mem _ hmem)
  rcases h.plain p List.mem_cons_self with ⟨k, rfl⟩ | ⟨k, _, rfl⟩
  · by_cases hk : k = m
    · -- its own `JOIN` event
      subst hk
      have hsee : see lb (.join k) = lb := if_neg (by simp [hnr])
      rw [hsee]
      refine ⟨hjoined, hnr, rest, hps, ?_⟩
      refine ⟨newcomers_self k tail ▸ h.nodup, newcomers_self k tail ▸ h.ordered,
        newcomers_self k tail ▸ h.range, hplain, hstays, ?_⟩
      intro n hn hnm
      obtain ⟨hl, hj⟩ := h.known n hn hnm
      refine ⟨fun hmem => hl (List.mem_cons_of_mem _ hmem), hj.imp_right ?_⟩
      intro hj
      rcases List.mem_cons.1 hj with heq | hj
      · exact absurd (Packet.join.inj heq) hnm
      · exact hj
    · have hlist : rest ++ newcomers m (.join k :: tail) = (rest ++ [k]) ++ newcomers m tail := by
        rw [newcomers_join hk, List.append_assoc]
        rfl
      have hnew : k ∉ m :: rest := by
        have hnd := h.nodup
        rw [hlist, List.append_assoc, ← List.cons_append, List.nodup_append] at hnd
        intro hmem
        exact hnd.2.2 k hmem k List.mem_cons_self rfl
      have hsee : see lb (.join k) = { lb with players := m :: rest ++ [k] } := by
        show lb.onJoin k = _
        rw [LBClient.onJoin, if_pos (by rw [hnr]; exact hk), hps, onEnterRemote, if_neg hnew]
      rw [hsee]
      refine ⟨hjoined, hnr, rest ++ [k], rfl, ?_⟩
      refine ⟨hlist ▸ h.nodup, hlist ▸ h.ordered, hlist ▸ h.range, hplain, hstays, ?_⟩
      intro n hn hnm
      obtain ⟨hl, hj⟩ := h.known n hn hnm
      refine ⟨fun hmem => hl (List.mem_cons_of_mem _ hmem), ?_⟩
      rcases hj with hj | hj
      · exact Or.inl (List.mem_append_left _ hj)
      · rcases List.mem_cons.1 hj with heq | hj
        · rw [Packet.join.inj heq]
          exact Or.inl (List.mem_append_right _ (List.mem_singleton_self _))
        · exact Or.inr hj
  · have hkm : k ≠ m := by
      rintro rfl
      exact h.stays List.mem_cons_self
    have hnone : newcomers m (.leave k :: tail) = newcomers m tail := newcomers_leave m k tail
    have hnd : (m :: rest).Nodup := by
      have := h.nodup
      rw [← List.cons_append] at this
      exact (List.nodup_append.1 this).1
    have hsub : (rest.erase k ++ newcomers m tail).Sublist
        (rest ++ newcomers m (.leave k :: tail)) := by
      rw [hnone]
      exact List.erase_sublist.append (List.Sublist.refl _)
    have hsee : see lb (.leave k) = { lb with players := m :: rest.erase k } := by
      show { lb with players := removePlayer k lb.players } = _
      rw [hps, removePlayer_eq_erase k hnd, List.erase_cons_tail (by simpa using hkm.symm)]
    rw [hsee]
    refine ⟨hjoined, hnr, rest.erase k, rfl, ?_⟩
    refine ⟨h.nodup.sublist (hsub.cons_cons m), h.ordered.sublist hsub,
      fun a ha => h.range a (hsub.subset ha), hplain, hstays, ?_⟩
    intro n hn hnm
    obtain ⟨hl, hj⟩ := h.known n hn hnm
    have hnk : n ≠ k := by
      rintro rfl
      exact hl List.mem_cons_self
    refine ⟨fun hmem => hl (List.mem_cons_of_mem _ hmem), ?_⟩
    rcases hj with hj | hj
    · exact Or.inl ((List.mem_erase_of_ne hnk).2 hj)
    · rcases List.mem_cons.1 hj with heq | hj
      · cases heq
      · exact Or.inr hj

end

/-- **Of the clients 1 and 2 each takes the other for the remote player, whoever else it knows.** -/
theorem remote_of_pair {m j nextNr : Int} {rest : List Int} {pend : List Packet}
    {present : List Int} (hpair : m = 1 ∧ j = 2 ∨ m = 2 ∧ j = 1)
    (h : Told m rest pend nextNr present) (hj : j ∈ rest) {net : Net} (hnr : net.lb.localNr = m)
    (hps : net.lb.players = m :: rest) : net.getRemotePlayerNr = j := by
  cases rest with
  | nil => cases hj
  | cons a rest =>
    have ham : a ≠ m := by
      rintro rfl
      exact (List.nodup_cons.1 h.nodup).1 List.mem_cons_self
    have haj : a = j := by
      rcases List.mem_cons.1 hj with heq | hj
      · exact heq.symm
      · by_contra hne
        have hpos := (h.range a List.mem_cons_self).1
        have hord : m < a → a < j :=
          (List.pairwise_cons.1 h.ordered).1 j (List.mem_append_left _ hj)
        omega
    have hfind : net.lb.players.find? (· ≠ net.lb.localNr) = some a := by
      rw [hps, hnr]
      simp [ham]
    show (net.lb.players.find? (· ≠ net.lb.localNr)).getD 0 = j
    rw [hfind]
    exact haj

/-! ## the room of a client -/

/-- Before the answer to joining the client has no number; from then on it stands first in its
own player list. -/
def Informed (m : Int) (lb : LBClient) (pend : List Packet) (nextNr : Int)
    (present : List Int) : Prop :=
  (lb.joined = false ∧ lb.localNr = -1 ∧ ∃ order tail, pend = .joined m order :: tail
      ∧ Told m (order.filter (· ≠ m)) tail nextNr present)
    ∨ (lb.joined = true ∧ lb.localNr = m ∧ ∃ rest, lb.players = m :: rest
      ∧ Told m rest pend nextNr present)

theorem informed_localNr {m : Int} {lb : LBClient} {pend : List Packet} {nextNr : Int}
    {present : List Int} (h : Informed m lb pend nextNr present) (hjoined : lb.joined = true) :
    lb.localNr = m := by
  rcases h with ⟨hj, _⟩ | ⟨_, hnr, _⟩
  · rw [hj] at hjoined
    cases hjoined
  · exact hnr

theorem informed_enters {m : Int} {lb : LBClient} {pend : List Packet} {nextNr : Int}
    {present : List Int} (h : Informed m lb pend nextNr present) (hm : m < nextNr)
    (hpos : 1 ≤ nextNr) :
    Informed m lb (pend ++ [.join nextNr]) (nextNr + 1) (present ++ [nextNr]) := by
  rcases h with ⟨hj, hnr, order, tail, rfl, ht⟩ | ⟨hj, hnr, rest, hps, ht⟩
  · exact Or.inl ⟨hj, hnr, order, _, rfl, told_enters ht hm hpos⟩
  · exact Or.inr ⟨hj, hnr, rest, hps, told_enters ht hm hpos⟩

theorem informed_leaves {m : Int} {lb : LBClient} {pend : List Packet} {nextNr : Int}
    {present : List Int} (h : Informed m lb pend nextNr present) {k : Int} (hk : k < nextNr)
    (hkm : k ≠ m) (hnd : present.Nodup) :
    Informed m lb (pend ++ [.leave k]) nextNr (present.erase k) := by
  rcases h with ⟨hj, hnr, order, tail, rfl, ht⟩ | ⟨hj, hnr, rest, hps, ht⟩
  · exact Or.inl ⟨hj, hnr, order, _, rfl, told_leaves ht hk hkm hnd⟩
  · exact Or.inr ⟨hj, hnr, rest, hps, told_leaves ht hk hkm hnd⟩

theorem informed_arrives {m : Int} {lb : LBClient} {pend : List Packet} {nextNr : Int}
    {present : List Int} (h : Informed m lb pend nextNr present) :
    Informed m (Runs.run see lb pend.head?.toList) pend.tail nextNr present := by
  rcases h with ⟨hj, hnr, order, tail, rfl, ht⟩ | ⟨hj, hnr, rest, hps, ht⟩
  · refine Or.inr ⟨rfl, rfl, order.filter (· ≠ m), ?_, ht⟩
    have hnd : ([m] ++ order.filter (· ≠ m)).Nodup := by
      have := ht.nodup
      rw [← List.cons_append] at this
      exact (List.nodup_append.1 this).1
    exact foldl_onEnterRemote hnd
  · cases pend with
    | nil => exact Or.inr ⟨hj, hnr, rest, hps, ht⟩
    | cons p tail =>
      obtain ⟨hj', hnr', rest', hps', ht'⟩ := told_sees ht hj hnr hps
      exact Or.inr ⟨hj', hnr', rest', hps', ht'⟩

/-! ## every run -/

structure RoomsInv (s : Session) : Prop extends Numbered s where
  informed : ∀ m ∈ s.present, (s.process m).running = true →
    Informed m (s.process m).lbView (s.room m) s.nextNr s.present

theorem roomsInv_start (clocks : Int → Clocks) : RoomsInv (Session.start clocks) where
  nodup := List.nodup_nil
  pos := Int.le_refl 1
  range := by
    intro n hn
    cases hn
  fresh := fun n _ => ⟨⟨_, rfl⟩, rfl⟩
  informed := by
    intro m hm
    cases hm

theorem roomsInv_join {s : Session} (h : RoomsInv s) {order : List Int}
    (hperm : order.Perm (s.present ++ [s.nextNr])) : RoomsInv (s.join order) := by
  have hpos := h.pos
  have hnot : s.nextNr ∉ s.present := by
    intro hmem
    have := (h.range _ hmem).2
    omega
  have hnd : (s.present ++ [s.nextNr]).Nodup := by
    rw [List.nodup_append]
    refine ⟨h.nodup, List.nodup_singleton _, ?_⟩
    rintro a ha b hb rfl
    exact hnot (List.mem_singleton.1 hb ▸ ha)
  refine ⟨⟨hnd, ?_, ?_, ?_⟩, ?_⟩
  · show 1 ≤ s.nextNr + 1
    omega
  · intro n hn
    show 1 ≤ n ∧ n < s.nextNr + 1
    rcases List.mem_append.1 hn with hn | hn
    · have := h.range n hn
      omega
    · rw [List.mem_singleton.1 hn]
      omega
  · intro n hn
    change s.nextNr + 1 ≤ n at hn
    have hold : n ∉ s.present := by
      intro hmem
      have := (h.range n hmem).2
      omega
    have hroom : (s.join order).room n = s.room n := by
      show (if n = s.nextNr then _ else if n ∈ s.present then _ else s.room n) = s.room n
      rw [if_neg (by omega), if_neg hold]
    rw [hroom]
    exact h.fresh n (by omega)
  · intro m hm hrun
    change m ∈ s.present ++ [s.nextNr] at hm
    rw [mem_snoc] at hm
    show Informed m (s.process m).lbView
      (if m = s.nextNr then _ else if m ∈ s.present then _ else s.room m) (s.nextNr + 1)
      (s.present ++ [s.nextNr])
    rcases hm with hm | rfl
    · have hlt := (h.range m hm).2
      rw [if_neg (by omega), if_pos hm]
      exact informed_enters (h.informed m hm hrun) hlt hpos
    · rw [if_pos rfl]
      obtain ⟨⟨c, hnew⟩, _⟩ := h.fresh _ (Int.le_refl _)
      rw [hnew]
      exact Or.inl ⟨rfl, rfl, order, _, rfl, told_newcomer hperm hnd h.range⟩

theorem roomsInv_leave {s : Session} (h : RoomsInv s) {n : Int} (hn : n ∈ s.present) :
    RoomsInv (s.leave n) := by
  have hlt := (h.range n hn).2
  refine ⟨⟨h.nodup.erase n, h.pos, ?_, ?_⟩, ?_⟩
  · intro m hm
    exact h.range m (List.mem_of_mem_erase hm)
  · intro m hm
    change s.nextNr ≤ m at hm
    have hold : m ∉ s.present.erase n := by
      intro hmem
      have := (h.range m (List.mem_of_mem_erase hmem)).2
      omega
    have hroom : (s.leave n).room m = s.room m := if_neg hold
    rw [hroom]
    exact h.fresh m hm
  · intro m hm hrun
    change m ∈ s.present.erase n at hm
    obtain ⟨hmn, hmem⟩ := (List.Nodup.mem_erase_iff h.nodup).1 hm
    show Informed m (s.process m).lbView (if m ∈ s.present.erase n then _ else s.room m) s.nextNr
      (s.present.erase n)
    rw [if_pos hm]
    exact informed_leaves (h.informed m hmem hrun) hlt (Ne.symm hmn) h.nodup

/-- An act inside one process keeps the room of everyone if it keeps the view of that one. -/
theorem roomsInv_process {s : Session} (h : RoomsInv s) {n : Int} (hn : n ∈ s.present)
    (p : Process) (pend : List Packet) (log : Broadcast Int Raised)
    (hp : p.running = true → Informed n p.lbView pend s.nextNr s.present) :
    RoomsInv { s with
      process := Function.update s.process n p
      room := Function.update s.room n pend
      log := log } := by
  have hlt := (h.range n hn).2
  refine ⟨⟨h.nodup, h.pos, h.range, ?_⟩, ?_⟩
  · intro m hm
    change s.nextNr ≤ m at hm
    show (∃ c, Function.update s.process n p m = Process.new c)
      ∧ Function.update s.room n pend m = []
    rw [Function.update_of_ne (by omega), Function.update_of_ne (by omega)]
    exact h.fresh m hm
  · intro m hm
    show (Function.update s.process n p m).running = true →
      Informed m (Function.update s.process n p m).lbView (Function.update s.room n pend m)
        s.nextNr s.present
    by_cases hmn : m = n
    · subst hmn
      rw [Function.update_self, Function.update_self]
      exact hp
    · rw [Function.update_of_ne hmn, Function.update_of_ne hmn]
      exact h.informed m hm

theorem see_custom (lb : LBClient) (es : List Event) :
    Runs.run see lb (es.map .custom) = lb := by
  induction es with
  | nil => rfl
  | cons e es ih => exact ih

theorem roomsInv_effect {erange : Nat → Nat → Bool} {s : Session} (h : RoomsInv s) {a : Act}
    (hen : s.Enabled a) : RoomsInv (s.effect erange a) := by
  cases a with
  | join order => exact roomsInv_join h hen
  | leave n => exact roomsInv_leave h hen
  | arrive n =>
    apply roomsInv_process h hen ((s.process n).receive _) _ s.log
    intro hrun
    rw [lbView_receive]
    exact informed_arrives (h.informed n hen hrun)
  | hear i j k =>
    have hstay := roomsInv_process h hen.1 ((s.process i).receive
      (((s.log.sent j)[k]?).toList.map fun r => .custom (r.delivered j))) (s.room i)
      (s.log.hear i j k) ?_
    · rw [Function.update_eq_self] at hstay
      exact hstay
    · intro hrun
      have hcustom : (((s.log.sent j)[k]?).toList.map fun r => Packet.custom (r.delivered j))
          = (((s.log.sent j)[k]?).toList.map fun r => r.delivered j).map .custom := by
        rw [List.map_map]
        rfl
      rw [lbView_receive, hcustom, see_custom]
      exact h.informed i hen.1 hrun
  | frame n inp =>
    have hstay := roomsInv_process h hen.1 ((s.process n).frame erange inp).1 (s.room n)
      (s.log.send n (raisedBy ((s.process n).frame erange inp).1.net.lb
        (((s.process n).frame erange inp).2.getD []))) ?_
    · rw [Function.update_eq_self] at hstay
      exact hstay
    · intro hrun
      rcases frame_cases erange (s.process n) inp with ⟨hstop, _⟩ | ⟨hp, _⟩
      · rw [hstop] at hrun
        cases hrun
      · rw [hp]
        exact h.informed n hen.1 hen.2
  | raise n r => exact ⟨⟨h.nodup, h.pos, h.range, h.fresh⟩, h.informed⟩

/-- **Every running client is informed of its room, after every run.** -/
theorem rooms_inv (erange : Nat → Nat → Bool) (clocks : Int → Clocks) (acts : List Act) :
    RoomsInv (Session.after erange clocks acts) :=
  after_inv erange (fun _ => True) RoomsInv clocks (roomsInv_start clocks)
    (fun _ _ _ h hen => roomsInv_effect h hen) acts (fun _ _ => trivial)

end Game
