import Fiesta.LoadBalancing.Program

/-!
# The way into the room

* `Served`        what happens while nothing fails;
* `toRoom`        how many inputs there are at most before the program is in the room;
* `nears_turn`    a turn of the loop that brings an input lowers that number;
* `gets_in`       **after twenty-three inputs the program is in the room**.
-/

namespace LoadBalancing

open Photon

theorem Input.Answers.failure {input : Input} (h : input.Answers) : input.failure = none := by
  cases input with
  | encryptionFailedToEstablish => exact h.elim
  | response r => exact failure_ok h.1
  | _ => rfl

theorem Input.Answers.not_secret {input : Input} (h : input.Answers) : input.isSecret = false := by
  cases input with
  | secret secret => exact h.elim
  | _ => rfl

namespace Program

/-- Nothing fails: the peer takes what it is asked for, and what comes is an answer that grants what
was asked, or a secret. -/
def Served : Happening → Prop
  | .dispatch input ok joinOk =>
    ok = true ∧ joinOk = true ∧ input.sound = true ∧ (input.isSecret = true ∨ input.Answers)
  | .End => False
  | _ => True

/-- Secrets do not count: they may come any number of times. -/
def Happening.isInput : Happening → Bool
  | .dispatch input _ _ => !input.isSecret
  | _ => false

/-- The phases of a program while nothing fails. -/
def OnItsWay : Phase → Prop
  | .connecting => True
  | .entering _ _ => True
  | .inRoom => True
  | _ => False

def toRoom (p : Phase) (s : System) : ℕ :=
  match p with
  | .connecting => toGo s.client s.wire + 13
  | .entering _ _ => toGo s.client s.wire + 1
  | _ => 0

/-! ## inputs -/

/-- In the room nothing is awaited. -/
theorem inRoom_quiet {b : Bool} {c : Client} {w : Wire} {input : Input} (h : At b .inRoom c w)
    (hw : w.AdmitsInput input) : ¬ input.Answers := by
  obtain ⟨-, -, -, t, rfl⟩ := h.inRoom_state
  intro ha
  cases input with
  | connect => cases hw
  | disconnect => cases hw
  | encryptionEstablished => cases hw.2
  | bestRegion region => cases hw.2
  | response r => cases hw.2
  | encryptionFailedToEstablish => exact ha
  | connectionError error peerState => exact ha
  | secret secret => exact ha

/-- The program has not asked to choose the region. -/
theorem regions_silent {c : Client} {r : OperationResponse} (ok : Bool)
    (hmode : c.M_REGION_SELECTION_MODE = .default) (hop : r.operationCode = .getRegions) :
    Seen.callbacks ⟨(c.onInput ok (.response r)).2, true⟩ = [] := by
  have hregions (c : Client) (hmode : c.M_REGION_SELECTION_MODE = .default) :
      Seen.callbacks ⟨(c.onOperation ok r).2, true⟩ = [] := by
    unfold Client.onOperation Client.onGetRegions
    simp only [hop, hmode]
    split <;> rfl
  show Seen.callbacks ⟨(c.onOperationResponse ok r).2, true⟩ = []
  unfold Client.onOperationResponse
  cases r.secret with
  | none => exact hregions c hmode
  | some secret => exact hregions { c with mSecret := secret } hmode

/-- An answer brings a program nearer to the room, or its client to the master. -/
theorem nears_input {p q : Phase} {s : System} {input : Input} (h : Fits true p s)
    (hp : OnItsWay p) (hw : s.wire.AdmitsInput input) (hsound : input.sound = true)
    (ha : input.Answers) (hnext : p.Next (.input input true) (s.step (.input input true)).2 q) :
    p = .connecting ∧ q = .ready
        ∧ (s.step (.input input true)).2.callbacks.flatMap listener = [joinTestRoom]
      ∨ OnItsWay q ∧ toRoom q (s.step (.input input true)).1 < toRoom p s := by
  have hlowers (hwaits : p.Waits) (hcb : (s.step (.input input true)).2.callbacks = []) :
      toGo (s.step (.input input true)).1.client (s.step (.input input true)).1.wire
        < toGo s.client s.wire :=
    (lowers_input h.stands.1 hwaits hw hsound ha.not_secret).resolve_left
      (not_not_intro hcb)
  have hfail {x : Int × JString} (hi : input.failure = some x) : False := by
    rw [ha.failure] at hi
    cases hi
  cases hnext with
  | tells htells hasks =>
    generalize hcb : (s.step (.input input true)).2.callbacks = cbs at htells
    cases p with
    | connecting =>
      cases htells with
      | silent hi => exact .inr ⟨trivial, Nat.add_lt_add_right (hlowers trivial hcb) 13⟩
      | connected hi region cluster => exact .inl ⟨rfl, rfl, rfl⟩
      | connectFailed hi hback => exact (hfail hi).elim
      | authenticationStep hop hcode hdata =>
        rw [ha.2] at hdata
        cases hdata
      | regions hop hcode =>
        exact absurd (hcb.symm.trans (regions_silent true h.mode hop)) (List.cons_ne_nil _ _)
      | broken error peerState => exact ha.elim
    | entering entry name =>
      cases htells with
      | silent hi => exact .inr ⟨trivial, Nat.add_lt_add_right (hlowers trivial hcb) 1⟩
      | found j hop hi => exact .inr ⟨trivial, Nat.add_lt_add_right (hlowers trivial hcb) 1⟩
      | entered hplaced hop hi => exact .inr ⟨trivial, Nat.succ_pos _⟩
      | refusedOnGameServer hplaced hi => exact (hfail hi).elim
      | refusedOnMaster j hi => exact (hfail hi).elim
      | connectFailed hi hback => exact (hfail hi).elim
      | broken error peerState => exact ha.elim
    | inRoom => exact (inRoom_quiet h.stands.1 hw ha).elim
    | _ => exact hp.elim

/-! ## turns -/

/-- A secret, a look at the room and an event change nothing that `toGo` looks at. -/
theorem toRoom_congr {p : Phase} {s s' : System} (hstate : s'.client.mState = s.client.mState)
    (hwire : s'.wire = s.wire) : toRoom p s' = toRoom p s := by
  unfold toRoom toGo
  rw [hstate, hwire]

theorem secret_next {p q : Phase} {secret : JString} {ok : Bool} {seen : Seen}
    (h : p.Next (.input (.secret secret) ok) seen q) (hcb : seen.callbacks = []) : q = p := by
  cases h with
  | tells htells hasks =>
    rw [hcb] at htells
    cases htells with
    | silent hi => rfl
    | refusedOnGameServer hplaced hi => cases hi

theorem raise_wire (c : Client) (w : Wire) (raised : Raised) (ok : Bool) :
    (c.opRaiseEvent ok raised).1 = c ∧ w.takeAll ok (c.opRaiseEvent ok raised).2.1 = w := by
  unfold Client.opRaiseEvent
  split
  · exact ⟨rfl, rfl⟩
  · refine ⟨rfl, ?_⟩
    rw [takeAll_cons, takeAll_nil, take_request]
    cases ok <;> simp [Request.awaited]

/-- A call that leads nowhere leaves the program where it is. -/
theorem call_next {p q : Phase} {call : Call} {ok : Bool} {seen : Seen}
    (h : p.Next (.call call ok) seen q) (hkeeps : p.Accepts call q → q = p) : q = p := by
  cases h with
  | refuses hresult hcb => rfl
  | accepts hresult hcb hacc => exact hkeeps hacc

theorem look_state (c : Client) : c.getCurrentlyJoinedRoom.1.mState = c.mState := by
  unfold Client.getCurrentlyJoinedRoom
  cases c.mpCurrentlyJoinedRoom <;> rfl

/-- On the master the client does not refuse the room. -/
theorem join_taken {c : Client} (h : c.mState.Idle) :
    (c.onCall true (.join joinTestRoom)).2.2 = true := by
  have hroom : c.getIsInGameRoom = false := by
    unfold Client.getIsInGameRoom
    obtain h | h | h := h <;> rw [h] <;> rfl
  show (c.opJoinOrCreateRoom true testRoom roomOptions 0 []).2.2 = true
  unfold Client.opJoinOrCreateRoom
  rw [hroom]
  rfl

/-- The listener's call leads on from the master. -/
theorem join_enters {q : Phase} {s : System} (h : Fits true .ready s)
    (hnext : Phase.Next .ready (.call (.join joinTestRoom) true)
      (s.step (.call (.join joinTestRoom) true)).2 q) :
    q = .entering (.join joinTestRoom) none := by
  have htaken : (s.step (.call (.join joinTestRoom) true)).2.result = true :=
    join_taken h.stands.1.ready_iff.1
  cases hnext with
  | refuses hresult hcb =>
    rw [htaken] at hresult
    cases hresult
  | accepts hresult hcb hacc =>
    cases hacc
    rfl

/-- Where the events of some turns lead a program that nothing hinders. -/
structure Nears (p : Phase) (s : System) (es : List Event) (inputs : ℕ) (q : Phase) : Prop where
  path : Contract.Path Plays p (Contract.trace System.step s es) q
  fits : Fits true q (Contract.final System.step s es)
  onItsWay : OnItsWay q
  room : toRoom q (Contract.final System.step s es) + inputs ≤ toRoom p s

/-- An event that leaves the program where it is. -/
theorem nears_stay {p : Phase} {s : System} {e : Event} (h : Fits true p s) (hp : OnItsWay p)
    (hw : s.Admits e) (hserves : s.Serves e) (he : Makes p e)
    (hstay : ∀ q, p.Next e (s.step e).2 q → q = p)
    (hroom : toRoom p (s.step e).1 = toRoom p s) : Nears p s [e] 0 p := by
  obtain ⟨q, hplays, hq⟩ := fits_step h hw (fun _ => hserves) he
  obtain rfl := hstay q hplays.next
  exact ⟨.cons hplays (.nil q), hq, hp, Nat.le_of_eq hroom⟩

/-- An answer, with what the listener makes of it. -/
theorem nears_dispatch {p : Phase} {s : System} {input : Input} (h : Fits true p s)
    (hp : OnItsWay p) (hsound : input.sound = true) (ha : input.Answers)
    (hw : Contract.Admitted System.step System.Admits s (eventsOf s (.dispatch input true true))) :
    ∃ q, Nears p s (eventsOf s (.dispatch input true true)) 1 q := by
  obtain ⟨q, hplays, hq⟩ := fits_step h hw.1 (fun _ => ⟨rfl, hsound⟩) (.input p input true)
  obtain ⟨rfl, rfl, hjoin⟩ | ⟨hon, hlt⟩ := nears_input h hp hw.1 hsound ha hplays.next
  · rw [eventsOf_dispatch true hjoin] at hw ⊢
    obtain ⟨r, hplays', hr⟩ := fits_step hq hw.2.1 (fun _ => rfl) (.join true)
    obtain rfl := join_enters hq hplays'.next
    refine ⟨_, .cons hplays (.cons hplays' (.nil _)), hr, trivial, ?_⟩
    -- on the master there are at most twelve to come, and before it at least thirteen
    refine (Nat.add_le_add_right (Nat.add_le_add_right (toGo_le _ _) 1) 1).trans ?_
    exact Nat.le_add_left 13 _
  · have hnone := (listener_asks hplays.next).resolve_right fun hready => by
      rw [hready.2] at hon
      exact hon
    rw [eventsOf_dispatch true hnone]
    exact ⟨q, .cons hplays (.nil q), hq, hon, hlt⟩

/-- The turn lemma. -/
theorem nears_turn {p : Phase} {s : System} {x : Happening} (h : Fits true p s) (hp : OnItsWay p)
    (hw : Contract.Admitted System.step System.Admits s (eventsOf s x)) (hx : Served x) :
    ∃ q, Nears p s (eventsOf s x) (if x.isInput then 1 else 0) q := by
  cases x with
  | dispatch input ok joinOk =>
    obtain ⟨rfl, rfl, hsound, hsecret | ha⟩ := hx
    · cases input with
      | secret secret =>
        exact ⟨p, nears_stay h hp hw.1 ⟨rfl, rfl⟩ (.input p _ true)
          (fun q hnext => secret_next hnext rfl) (toRoom_congr rfl rfl)⟩
      | _ => cases hsecret
    · rw [show Happening.isInput (.dispatch input true true) = true by
        rw [Happening.isInput, ha.not_secret]
        rfl]
      exact nears_dispatch h hp hsound ha hw
  | getRemotePlayerNr =>
    refine ⟨p, nears_stay h hp hw.1 rfl (.getCurrentlyJoinedRoom p true) ?_
      (toRoom_congr (look_state _) rfl)⟩
    intro q hnext
    refine call_next hnext fun hacc => ?_
    cases hacc
    rfl
  | opRaiseEvent raised ok =>
    obtain ⟨hclient, hwire⟩ := raise_wire s.client s.wire raised ok
    refine ⟨p, nears_stay h hp hw.1 rfl (.opRaiseEvent p raised ok) ?_
      (toRoom_congr (congrArg Client.mState hclient) hwire)⟩
    intro q hnext
    refine call_next hnext fun hacc => ?_
    cases hacc
    rfl
  | End => exact hx.elim

/-! ## runs -/

/-- The run lemma. -/
theorem nears_run {p : Phase} {s : System} {xs : List Happening} (h : Fits true p s)
    (hp : OnItsWay p) (hw : Contract.Admitted System.step System.Admits s (eventsFrom s xs))
    (hxs : ∀ x ∈ xs, Served x) :
    ∃ q, Nears p s (eventsFrom s xs) (xs.countP Happening.isInput) q := by
  induction xs generalizing p s with
  | nil => exact ⟨p, .nil p, h, hp, Nat.le_refl _⟩
  | cons x xs ih =>
    obtain ⟨hx, hxs⟩ := List.forall_mem_cons.1 hxs
    unfold eventsFrom at hw ⊢
    obtain ⟨hw, hw'⟩ := Contract.admitted_append hw
    obtain ⟨q, hturn⟩ := nears_turn h hp hw hx
    obtain ⟨r, hrest⟩ := ih hturn.fits hturn.onItsWay hw' hxs
    refine ⟨r, ?_, ?_, hrest.onItsWay, ?_⟩
    · rw [Contract.trace_append]
      exact Contract.path_append_iff.2 ⟨q, hturn.path, hrest.path⟩
    · rw [Contract.final_append]
      exact hrest.fits
    · rw [Contract.final_append, List.countP_cons]
      have hroom := hrest.room
      have hroom' := hturn.room
      omega

/-- The listener has been told that the program is in the room. -/
def ToldIn (x : Event × Seen) : Prop :=
  ∃ nr text, x.2.callbacks = [.joinReturn .joinOrCreateRoom nr 0 text]

theorem told_in {p q : Phase} {l : List (Event × Seen)} (h : Contract.Path Plays p l q)
    (hp : p ≠ .inRoom) (hq : q = .inRoom) : ∃ x ∈ l, ToldIn x := by
  induction h with
  | nil p => exact absurd hq hp
  | @cons p r q e seen l hplays hl ih =>
    by_cases hr : r = .inRoom
    · refine ⟨(e, seen), List.mem_cons_self, ?_⟩
      subst hr
      obtain ⟨hnext, hmakes, hexpected, -⟩ := hplays
      cases hnext with
      | refuses hresult hcb => exact absurd rfl hp
      | accepts hresult hcb hacc =>
        cases hacc with
        | raiseEvent => exact absurd rfl hp
        | getCurrentlyJoinedRoom => exact absurd rfl hp
        | setAutoJoinLobby => exact absurd rfl hp
      | tells htells hasks =>
        generalize hcb : seen.callbacks = cbs at htells
        cases htells with
        | silent hi => exact absurd rfl hp
        | entered hplaced hop hi =>
          obtain ⟨rfl, -⟩ := hexpected
          exact ⟨_, _, hcb⟩
    · obtain ⟨x, hx, htold⟩ := ih hr hq
      exact ⟨x, List.mem_cons_of_mem _ hx, htold⟩

/-- The way into the room, without what comes after it. -/
def entrance : List Happening :=
  [brings .connect, brings .encryptionEstablished, brings (answer .getRegions []),
    brings (answer .authenticate ['m']), .getRemotePlayerNr, brings .disconnect, brings .connect,
    brings .encryptionEstablished, brings (answer .authenticate []), brings (answer .joinLobby []),
    brings (answer .joinRoom ['g']), brings .disconnect, brings .connect,
    brings .encryptionEstablished, brings (answer .authenticate []), brings (answer .joinRoom [])]

theorem entrance_admitted : AdmitsRun .default false (program true entrance) :=
  ⟨fun _ => rfl, rfl, ⟨rfl, .head _⟩, ⟨rfl, .head _⟩, ⟨rfl, .head _⟩, trivial, rfl, rfl,
    ⟨rfl, .head _⟩, ⟨rfl, .head _⟩, ⟨rfl, .head _⟩, fun _ => rfl, ⟨rfl, .head _⟩, rfl, rfl,
    ⟨rfl, .head _⟩, ⟨rfl, .head _⟩, ⟨rfl, .head _⟩, trivial⟩

theorem entrance_served : ∀ x ∈ entrance, Served x := by
  simp [entrance, Served, brings, answer, Input.sound, Input.Answers, Input.isSecret]

end Program

end LoadBalancing
