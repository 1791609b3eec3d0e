import Fiesta.Lib.Contract
import Fiesta.LoadBalancing.Calls
import Fiesta.LoadBalancing.Rooms

/-!
# Runs of the client

* `follows_protocol`    **every run is a path of the protocol**, until the app makes a call that the
                        protocol does not permit; and no run uses a room that is not there, not even
                        then;
* `joins_answered`      **joins and their answers come in pairs**, until then.
-/

namespace LoadBalancing

open Photon

/-! ## steps -/

def System.new (mode : RegionSelectionMode) (isWebSocket : Bool) : System :=
  ⟨.new mode isWebSocket, .new⟩

def System.Admits (s : System) (e : Event) : Prop := s.wire.Admits e

/-- Nothing happens after which the client could wait for nothing: the peer accepts what a handler or
the next step of a custom authentication asks it for, the regions are not refused, a random match has a
name, and so has the room of a rejoin. -/
def System.Serves (s : System) : Event → Prop
  | .call call ok => call.sound s.client ok = true
  | .input input ok => ok = true ∧ input.sound = true

def Phase.PermitsEvent (p : Phase) : Event → Prop
  | .call call _ => p.Permits call
  | .input _ _ => True

/-- Where the app and the system stand. -/
def Stands (b : Bool) (p : Phase) (s : System) : Prop :=
  At b p s.client s.wire ∧ HasRoom s.client s.wire

theorem stands_new (b : Bool) (mode : RegionSelectionMode) (isWebSocket : Bool) :
    Stands b .offline (System.new mode isWebSocket) :=
  ⟨.offline _ _, hasRoom_new mode isWebSocket⟩

theorem and_sound {b x : Bool} (h : b = true → x = true) : (b && x) = b := by
  cases b with
  | false => rfl
  | true => rw [h rfl]; rfl

/-- The step lemma: a permitted event that the wire admits goes on as the protocol says. -/
theorem stands_step {b : Bool} {p : Phase} {s : System} {e : Event} (h : Stands b p s)
    (hw : s.Admits e) (hb : b = true → s.Serves e) (hp : p.PermitsEvent e) :
    ∃ q, p.Next e (s.step e).2 q ∧ Stands b q (s.step e).1 := by
  obtain ⟨hat, hroom⟩ := h
  obtain ⟨hroom', -⟩ := hasRoom_step hroom hw
  cases e with
  | call call ok =>
    have hknown (hserver : s.client.mGameserver ≠ []) : s.client.mpCurrentlyJoinedRoom ≠ none :=
      fun hnone => hserver (hroom hnone).server
    obtain ⟨q, hnext, hq⟩ := moves_call hat hp hw hknown
    rw [and_sound hb] at hq
    exact ⟨q, hnext, hq, hroom'⟩
  | input input ok =>
    obtain ⟨q, htells, hasks, hq⟩ := goes_input ok hat hw fun h => (hb h).2
    rw [and_sound fun h => (hb h).1] at hq
    exact ⟨q, .tells htells hasks, hq, hroom'⟩

/-! ## runs -/

/-- What is seen of a run of a new client. -/
def seenOf (mode : RegionSelectionMode) (isWebSocket : Bool) (es : List Event) :
    List (Event × Seen) :=
  Contract.trace System.step (.new mode isWebSocket) es

/-- The run has led the app to the phase `p`. -/
def Follows (mode : RegionSelectionMode) (isWebSocket : Bool) (es : List Event) (p : Phase) : Prop :=
  Contract.Path Phase.Next .offline (seenOf mode isWebSocket es) p

/-- Every event of a run of a new client is one that the wire admits. -/
def AdmitsRun (mode : RegionSelectionMode) (isWebSocket : Bool) (es : List Event) : Prop :=
  Contract.Admitted System.step System.Admits (.new mode isWebSocket) es

/-- What a server answers: no error, no secret. -/
def answer (operationCode : OperationCode) (address : JString) : Input :=
  .response {
    operationCode := operationCode
    returnCode := 0
    debugMessage := []
    secret := none
    address := address
    roomName := []
    playerNr := 1
    cluster := none
    data := false
    regions := []
    servers := [] }

def served (operationCode : OperationCode) (address : JString) : Event :=
  .input (answer operationCode address) true

/-- An app that goes to the master, and on into a room. -/
def visit : List Event :=
  [.call (.setAutoJoinLobby false) true, .call (.connect ⟨['m'], .masterServer, []⟩) true,
    .input .connect true, .input .encryptionEstablished true, served .authenticate [],
    .call (.join (.joinRoom ['r'] false 0 [])) true, served .joinRoom ['g'],
    .input .disconnect true, .input .connect true, .input .encryptionEstablished true,
    served .authenticate [], served .joinRoom []]

theorem visit_admitted : AdmitsRun .default false visit :=
  ⟨trivial, fun _ => rfl, rfl, ⟨rfl, .head _⟩, ⟨rfl, .head _⟩, fun _ => rfl, ⟨rfl, .head _⟩, rfl, rfl,
    ⟨rfl, .head _⟩, ⟨rfl, .head _⟩, ⟨rfl, .head _⟩, trivial⟩

/-- A run that is served leads the app and the system on together. -/
theorem stands_run {b : Bool} (mode : RegionSelectionMode) (isWebSocket : Bool) {es : List Event}
    (h : AdmitsRun mode isWebSocket es)
    (hb : b = true → Contract.Admitted System.step System.Serves (.new mode isWebSocket) es) :
    ∃ done rest p, es = done ++ rest ∧ Follows mode isWebSocket done p
      ∧ Stands b p (Contract.final System.step (.new mode isWebSocket) done)
      ∧ Contract.Stops Phase.PermitsEvent p rest := by
  have hadmitted : Contract.Admitted System.step
      (fun s e => s.Admits e ∧ (b = true → s.Serves e)) (.new mode isWebSocket) es :=
    h.and_imp hb
  have hstep (p : Phase) (s : System) (e : Event) (hs : Stands b p s)
      (he : s.Admits e ∧ (b = true → s.Serves e)) (hp : p.PermitsEvent e) :
      ∃ q, p.Next e (s.step e).2 q ∧ Stands b q (s.step e).1 :=
    stands_step hs he.1 he.2 hp
  exact Contract.keeps_contract hstep es (stands_new b mode isWebSocket) hadmitted

/-- The handlers find a room wherever they use one, whatever the app calls. -/
theorem rooms_there {mode : RegionSelectionMode} {isWebSocket : Bool} {es : List Event}
    (h : AdmitsRun mode isWebSocket es) :
    ∀ x ∈ seenOf mode isWebSocket es, .nullDereference ∉ x.2.outs :=
  Contract.outputs_inv (I := fun s : System => HasRoom s.client s.wire)
    (Q := fun seen : Seen => Out.nullDereference ∉ seen.outs) (fun _ _ hs he => hasRoom_step hs he) es
    (hasRoom_new mode isWebSocket) h

/-- **Every run is a path of the protocol**, until the app makes a call that is not permitted; and the
handlers find a room wherever they use one, in the whole run. -/
theorem follows_protocol (mode : RegionSelectionMode) (isWebSocket : Bool) (es : List Event)
    (h : AdmitsRun mode isWebSocket es) :
    ∃ done rest p, es = done ++ rest ∧ Follows mode isWebSocket done p
      ∧ Contract.Stops Phase.PermitsEvent p rest
      ∧ ∀ x ∈ seenOf mode isWebSocket es, .nullDereference ∉ x.2.outs := by
  obtain ⟨done, rest, p, heq, hpath, -, hstop⟩ :=
    stands_run mode isWebSocket h fun hb : false = true => nomatch hb
  exact ⟨done, rest, p, heq, hpath, hstop, rooms_there h⟩

theorem follows_protocol_visit :
    ∃ done rest p, visit = done ++ rest ∧ Follows .default false done p
      ∧ Contract.Stops Phase.PermitsEvent p rest
      ∧ ∀ x ∈ seenOf .default false visit, .nullDereference ∉ x.2.outs :=
  follows_protocol .default false visit visit_admitted

/-! ## joins and their answers -/

/-- The app waits for that entry. -/
def Phase.Enters (entry : Entry) : Phase → Prop
  | .entering e _ => e = entry
  | .refused e _ _ => e = entry
  | _ => False

/-- The app has asked for that entry. -/
def Entry.AskedBy (entry : Entry) (x : Event × Seen) : Prop :=
  x.2.result = true
    ∧ match entry with
      | .join j => ∃ ok, x.1 = .call (.join j) ok
      | .rejoin => ∃ ok, x.1 = .call .reconnectAndRejoin ok

def Entry.AnsweredBy (entry : Entry) (x : Event × Seen) : Prop :=
  ∃ playerNr code text, x.2.callbacks = [.joinReturn entry.type playerNr code text]

/-- The connection has ended, by itself or because the app has closed it. -/
def Ends (x : Event × Seen) : Prop :=
  (∃ code, x.2.callbacks = [.connectionErrorReturn code])
    ∨ (∃ code text, x.2.callbacks = [.connectReturn code text [] []])
    ∨ ∃ ok, x.1 = .call .disconnect ok

def Silent (l : List (Event × Seen)) : Prop := ∀ x ∈ l, x.2.callbacks = []

/-- A step of an app that waits for an entry. -/
theorem next_enters {p q : Phase} {e : Event} {seen : Seen} {entry : Entry} (h : p.Next e seen q)
    (hp : p.Enters entry) :
    seen.callbacks = [] ∧ q.Enters entry ∨ entry.AnsweredBy (e, seen) ∨ Ends (e, seen) := by
  cases h with
  | refuses hresult hcb => exact .inl ⟨hcb, hp⟩
  | accepts hresult hcb hacc =>
    cases hacc with
    | setAutoJoinLobby => exact .inl ⟨hcb, hp⟩
    | getCurrentlyJoinedRoom => exact .inl ⟨hcb, hp⟩
    | disconnect hne => exact .inr (.inr (.inr (.inr ⟨_, rfl⟩)))
    | connect hoff options => obtain rfl | rfl := hoff <;> exact hp.elim
    | reconnectAndRejoin hoff => obtain rfl | rfl := hoff <;> exact hp.elim
    | _ => exact hp.elim
  | tells htells hasks =>
    generalize hcb : seen.callbacks = cb at htells
    cases htells with
    | silent hi => exact .inl ⟨rfl, hp⟩
    | found j hop hi => exact .inl ⟨rfl, hp⟩
    | refusedOnGameServer hplaced hi => exact .inl ⟨rfl, hp⟩
    | refusedOnMaster j hi =>
      obtain rfl : Entry.join j = entry := hp
      exact .inr (.inl ⟨0, _, _, hcb⟩)
    | entered hplaced hop hi =>
      obtain rfl := hp
      exact .inr (.inl ⟨_, _, _, hcb⟩)
    | backOnMaster entry' code text hi =>
      obtain rfl : entry' = entry := hp
      exact .inr (.inl ⟨0, _, _, hcb⟩)
    | connectFailed hi hback => exact .inr (.inr (.inr (.inl ⟨_, _, hcb⟩)))
    | broken error peerState => exact .inr (.inr (.inl ⟨_, hcb⟩))
    | _ => exact hp.elim

/-- Only an accepted call makes an app wait for an entry. -/
theorem enters_by_call {p q : Phase} {e : Event} {seen : Seen} {entry : Entry}
    (h : p.Next e seen q) (hq : q.Enters entry) :
    p.Enters entry ∧ seen.callbacks = [] ∨ entry.AskedBy (e, seen) := by
  cases h with
  | refuses hresult hcb => exact .inl ⟨hq, hcb⟩
  | accepts hresult hcb hacc =>
    cases hacc with
    | setAutoJoinLobby => exact .inl ⟨hq, hcb⟩
    | getCurrentlyJoinedRoom => exact .inl ⟨hq, hcb⟩
    | join j =>
      obtain rfl : Entry.join j = entry := hq
      exact .inr ⟨hresult, _, rfl⟩
    | reconnectAndRejoin hoff =>
      obtain rfl : Entry.rejoin = entry := hq
      exact .inr ⟨hresult, _, rfl⟩
    | _ => exact hq.elim
  | tells htells hasks =>
    generalize hcb : seen.callbacks = cb at htells
    cases htells with
    | silent hi => exact .inl ⟨hq, rfl⟩
    | found j hop hi => exact .inl ⟨hq, rfl⟩
    | refusedOnGameServer hplaced hi => exact .inl ⟨hq, rfl⟩
    | _ => exact hq.elim

/-- A `joinReturn` comes to an app that waits for it. -/
theorem answers_entering {p q : Phase} {e : Event} {seen : Seen} {type : JoinType}
    {playerNr code : Int} {text : JString} (h : p.Next e seen q)
    (hcb : seen.callbacks = [.joinReturn type playerNr code text]) :
    ∃ entry : Entry, entry.type = type ∧ p.Enters entry := by
  cases h with
  | refuses hresult hnil => rw [hnil] at hcb; cases hcb
  | accepts hresult hnil hacc => rw [hnil] at hcb; cases hcb
  | tells htells hasks =>
    rw [hcb] at htells
    cases htells with
    | refusedOnMaster j hi => exact ⟨.join j, rfl, rfl⟩
    | @entered r entry name hplaced hop hi => exact ⟨entry, rfl, rfl⟩
    | backOnMaster entry code text hi => exact ⟨entry, rfl, rfl⟩

theorem asked_enters {p q : Phase} {e : Event} {seen : Seen} {entry : Entry}
    (h : p.Next e seen q) (hasked : entry.AskedBy (e, seen)) : q.Enters entry := by
  obtain ⟨hresult, hcall⟩ := hasked
  cases entry with
  | join j =>
    obtain ⟨ok, rfl⟩ := hcall
    cases h with
    | refuses hfalse hcb => rw [hresult] at hfalse; cases hfalse
    | accepts _ hcb hacc =>
      cases hacc
      rfl
  | rejoin =>
    obtain ⟨ok, rfl⟩ := hcall
    cases h with
    | refuses hfalse hcb => rw [hresult] at hfalse; cases hfalse
    | accepts _ hcb hacc =>
      cases hacc
      rfl

/-- The run lemma, forwards: the first callback of an app that waits for an entry is its answer. -/
theorem path_answered {p q : Phase} {l : List (Event × Seen)} {entry : Entry}
    (h : Contract.Path Phase.Next p l q) (hp : p.Enters entry) :
    Silent l ∨ ∃ before x after, l = before ++ x :: after ∧ Silent before
      ∧ (entry.AnsweredBy x ∨ Ends x) := by
  induction h with
  | nil p => exact .inl fun x hx => by cases hx
  | @cons p q r e seen l hnext hl ih =>
    obtain ⟨hcb, hq⟩ | hanswer := next_enters hnext hp
    · obtain hsilent | ⟨before, x, after, rfl, hsilent, hx⟩ := ih hq
      · exact .inl (List.forall_mem_cons.2 ⟨hcb, hsilent⟩)
      · exact .inr ⟨(e, seen) :: before, x, after, rfl, List.forall_mem_cons.2 ⟨hcb, hsilent⟩, hx⟩
    · exact .inr ⟨[], (e, seen), l, rfl, (fun x hx => by cases hx), hanswer⟩

/-- The run lemma, backwards: an app that waits for an entry has asked for it, and has not been
called since. -/
theorem path_asked {q : Phase} {l : List (Event × Seen)} {entry : Entry}
    (h : Contract.Path Phase.Next .offline l q) (hq : q.Enters entry) :
    ∃ before x after, l = before ++ x :: after ∧ entry.AskedBy x ∧ Silent after := by
  induction l using List.reverseRecOn generalizing q with
  | nil =>
    cases h
    exact hq.elim
  | append_singleton l x ih =>
    obtain ⟨p, hl, hx⟩ := Contract.path_append_iff.1 h
    obtain ⟨e, seen⟩ := x
    cases hx with
    | cons hnext hnil =>
      cases hnil
      obtain ⟨hp, hcb⟩ | hasked := enters_by_call hnext hq
      · obtain ⟨before, y, after, rfl, hy, hsilent⟩ := ih hl hp
        refine ⟨before, y, after ++ [(e, seen)], by simp, hy, ?_⟩
        intro z hz
        obtain hz | hz := List.mem_append.1 hz
        · exact hsilent z hz
        · rw [List.mem_singleton.1 hz]
          exact hcb
      · exact ⟨l, (e, seen), [], rfl, hasked, fun z hz => by cases hz⟩

/-- **Joins and their answers come in pairs**, until the app makes a call that is not permitted: after a
call for a room that is accepted the app hears nothing before the answer of that call, unless the
connection ends; and every answer answers the last such call. -/
theorem joins_answered (mode : RegionSelectionMode) (isWebSocket : Bool) (es : List Event)
    (h : AdmitsRun mode isWebSocket es) :
    ∃ done rest p, es = done ++ rest ∧ Follows mode isWebSocket done p
      ∧ Contract.Stops Phase.PermitsEvent p rest
      ∧ (∀ before x after (entry : Entry),
          seenOf mode isWebSocket done = before ++ x :: after → entry.AskedBy x →
          Silent after ∨ ∃ mid y later, after = mid ++ y :: later ∧ Silent mid
            ∧ (entry.AnsweredBy y ∨ Ends y))
      ∧ ∀ before y after type playerNr code text,
          seenOf mode isWebSocket done = before ++ y :: after →
          y.2.callbacks = [.joinReturn type playerNr code text] →
          ∃ (entry : Entry) (first : _) (x : _) (mid : _), entry.type = type
            ∧ before = first ++ x :: mid ∧ entry.AskedBy x ∧ Silent mid := by
  obtain ⟨done, rest, p, heq, hpath, -, hstop⟩ :=
    stands_run mode isWebSocket h fun hb : false = true => nomatch hb
  refine ⟨done, rest, p, heq, hpath, hstop, ?_, ?_⟩
  · intro before x after entry htrace hasked
    unfold Follows at hpath
    rw [htrace] at hpath
    obtain ⟨p₁, -, hrest⟩ := Contract.path_append_iff.1 hpath
    cases hrest with
    | cons hnext hafter => exact path_answered hafter (asked_enters hnext hasked)
  · intro before y after type playerNr code text htrace hcb
    unfold Follows at hpath
    rw [htrace] at hpath
    obtain ⟨p₁, hbefore, hrest⟩ := Contract.path_append_iff.1 hpath
    cases hrest with
    | cons hnext hafter =>
      obtain ⟨entry, htype, hp⟩ := answers_entering hnext hcb
      obtain ⟨first, x, mid, rfl, hx, hsilent⟩ := path_asked hbefore hp
      exact ⟨entry, first, x, mid, htype, rfl, hx, hsilent⟩

theorem joins_answered_visit :
    ∃ done rest p, visit = done ++ rest ∧ Follows .default false done p
      ∧ Contract.Stops Phase.PermitsEvent p rest
      ∧ (∀ before x after (entry : Entry),
          seenOf .default false done = before ++ x :: after → entry.AskedBy x →
          Silent after ∨ ∃ mid y later, after = mid ++ y :: later ∧ Silent mid
            ∧ (entry.AnsweredBy y ∨ Ends y))
      ∧ ∀ before y after type playerNr code text,
          seenOf .default false done = before ++ y :: after →
          y.2.callbacks = [.joinReturn type playerNr code text] →
          ∃ (entry : Entry) (first : _) (x : _) (mid : _), entry.type = type
            ∧ before = first ++ x :: mid ∧ entry.AskedBy x ∧ Silent mid :=
  joins_answered .default false visit visit_admitted

end LoadBalancing
