import Fiesta.Client.Events
import Fiesta.Client.Frame
import Fiesta.Lib.Broadcast
import Mathlib.Data.List.Perm.Basic

/-!
# A room and the games in it

The Photon room hands out actor numbers, tells every player who comes and goes, and carries the
events players raise.  Each player is a running game: the service call, the frame loop, its inbox.

* `Process.frame`     one pass through the loop, from the service call on;
* `Session`, `Act`    the room with its players, and what can happen next;
* `Session.step`      an act that is not possible changes nothing;
* `Session.commands`  the calls a frame of a player would make.

Room messages reach a player in the order the server sent them.  Events of one player are heard in
the order they were raised, or not at all.  Between the two there is no order: an event may be heard
before the server has announced the player that raised it.
-/

namespace Game

open Photon

/-! ## one player's program -/

structure Process where
  net : Net
  clocks : Clocks
  inbox : List Packet
  running : Bool

def Process.new (clocks : Clocks) : Process := ⟨Net.new, clocks, [], true⟩

section
variable (erange : Nat → Nat → Bool)

/-- An exception that leaves the service call ends the program; so does closing the window, after
the frame. -/
def Process.frame (p : Process) (inp : FrameInput) : Process × Option (List Command) :=
  match Tick erange p.net p.inbox with
  | (net, some _) => ({ p with net, inbox := [], running := false }, none)
  | (net, none) =>
    let r := Game.frame net p.clocks inp
    ({ net, clocks := r.1, inbox := [], running := !inp.closed }, some r.2)

/-- The events the calls of a frame hand to the peer. -/
def raisedBy (lb : LBClient) (cmds : List Command) : List Raised :=
  cmds.filterMap fun
    | .opRaiseEvent reliable content code => lb.opRaiseEvent reliable content code
    | _ => none

/-! ## the room -/

structure Session where
  nextNr : Int
  present : List Int
  process : Int → Process
  room : Int → List Packet
  log : Broadcast Int Raised

def Session.start (clocks : Int → Clocks) : Session where
  nextNr := 1
  present := []
  process := fun n => Process.new (clocks n)
  room := fun _ => []
  log := Broadcast.empty

inductive Act where
  /-- The next player enters; `order` is the player list in its answer. -/
  | join (order : List Int)
  | leave (n : Int)
  /-- The next room message reaches a player. -/
  | arrive (n : Int)
  /-- Event `k` of player `j` reaches player `i`. -/
  | hear (i j : Int) (k : Nat)
  | frame (n : Int) (inp : FrameInput)
  /-- A player raises an event of its own making. -/
  | raise (n : Int) (r : Raised)

def Session.Enabled (s : Session) : Act → Prop
  | .join order => order.Perm (s.present ++ [s.nextNr])
  | .leave n => n ∈ s.present
  | .arrive n => n ∈ s.present
  | .hear i j k => i ∈ s.present ∧ i ≠ j ∧ s.log.heard i j ≤ k ∧ k < (s.log.sent j).length
  | .frame n _ => n ∈ s.present ∧ (s.process n).running
  | .raise n _ => n ∈ s.present

instance (s : Session) : DecidablePred s.Enabled := fun a =>
  match a with
  | .join _ => inferInstanceAs (Decidable (List.Perm _ _))
  | .leave _ => inferInstanceAs (Decidable (_ ∈ _))
  | .arrive _ => inferInstanceAs (Decidable (_ ∈ _))
  | .hear i j k => inferInstanceAs (Decidable (i ∈ s.present ∧ i ≠ j
      ∧ s.log.heard i j ≤ k ∧ k < (s.log.sent j).length))
  | .frame n _ => inferInstanceAs (Decidable (n ∈ s.present ∧ (s.process n).running = true))
  | .raise _ _ => inferInstanceAs (Decidable (_ ∈ _))

/-- The newcomer gets its answer and its own `JOIN` event, the others get the `JOIN` event. -/
def Session.join (s : Session) (order : List Int) : Session :=
  { s with
    nextNr := s.nextNr + 1
    present := s.present ++ [s.nextNr]
    room := fun m =>
      if m = s.nextNr then [.joined m order, .join m]
      else if m ∈ s.present then s.room m ++ [.join s.nextNr]
      else s.room m }

def Session.leave (s : Session) (n : Int) : Session :=
  { s with
    present := s.present.erase n
    room := fun m => if m ∈ s.present.erase n then s.room m ++ [.leave n] else s.room m }

def Process.receive (p : Process) (ps : List Packet) : Process := { p with inbox := p.inbox ++ ps }

def Session.arrive (s : Session) (n : Int) : Session :=
  { s with
    process := Function.update s.process n ((s.process n).receive (s.room n).head?.toList)
    room := Function.update s.room n (s.room n).tail }

def Session.hear (s : Session) (i j : Int) (k : Nat) : Session :=
  { s with
    process := Function.update s.process i
      ((s.process i).receive (((s.log.sent j)[k]?).toList.map fun r => .custom (r.delivered j)))
    log := s.log.hear i j k }

def Session.frame (s : Session) (n : Int) (inp : FrameInput) : Session :=
  let r := (s.process n).frame erange inp
  { s with
    process := Function.update s.process n r.1
    log := s.log.send n (raisedBy r.1.net.lb (r.2.getD [])) }

def Session.raise (s : Session) (n : Int) (r : Raised) : Session :=
  { s with log := s.log.send n [r] }

def Session.effect (s : Session) : Act → Session
  | .join order => s.join order
  | .leave n => s.leave n
  | .arrive n => s.arrive n
  | .hear i j k => s.hear i j k
  | .frame n inp => s.frame erange n inp
  | .raise n r => s.raise n r

def Session.step (s : Session) (a : Act) : Session :=
  if s.Enabled a then s.effect erange a else s

def Session.after (clocks : Int → Clocks) (acts : List Act) : Session :=
  Runs.run (Session.step erange) (Session.start clocks) acts

/-- The calls of the next frame of a player, when there is one and its service call returns. -/
def Session.commands (s : Session) (n : Int) (inp : FrameInput) : Option (List Command) :=
  if n ∈ s.present ∧ (s.process n).running then ((s.process n).frame erange inp).2 else none

/-! ## runs -/

theorem mem_snoc {α : Type*} {a b : α} {l : List α} : a ∈ l ++ [b] ↔ a ∈ l ∨ a = b := by
  rw [List.mem_append, List.mem_singleton]

/-- What every possible act preserves holds after every run. -/
theorem after_inv (P : Act → Prop) (I : Session → Prop) (clocks : Int → Clocks)
    (h0 : I (Session.start clocks))
    (hs : ∀ s a, P a → I s → s.Enabled a → I (s.effect erange a))
    (acts : List Act) (hP : ∀ a ∈ acts, P a) : I (Session.after erange clocks acts) := by
  refine Runs.run_inv (Session.step erange) P I ?_ acts hP _ h0
  intro s a ha hI
  unfold Session.step
  split
  · rename_i hen
    exact hs s a ha hI hen
  · exact hI

theorem after_append (clocks : Int → Clocks) (acts more : List Act) :
    Session.after erange clocks (acts ++ more)
      = Runs.run (Session.step erange) (Session.after erange clocks acts) more :=
  Runs.run_append ..

/-! ## a service call that returns -/

/-- What a packet does to the room of the client. -/
def see (lb : LBClient) : Packet → LBClient
  | .joined nr playerList => lb.onJoined nr playerList
  | .join nr => lb.onJoin nr
  | .leave nr => lb.onLeave nr
  | .custom _ => lb

/-- What a packet does to the listener. -/
def heed (my : MyClient) : Packet → MyClient
  | .custom e => received erange my e
  | _ => my

theorem dispatch_ok {n n' : Net} {p : Packet} (h : n.dispatch erange p = .ok n') :
    n' = ⟨see n.lb p, heed erange n.my p⟩ := by
  cases p with
  | joined nr l => exact (Except.ok.inj h).symm
  | join nr => exact (Except.ok.inj h).symm
  | leave nr => exact (Except.ok.inj h).symm
  | custom e =>
    show n' = ⟨n.lb, received erange n.my e⟩
    unfold received
    change (n.my.customEventAction erange e).map _ = .ok n' at h
    cases hc : n.my.customEventAction erange e with
    | error t =>
      rw [hc] at h
      cases h
    | ok c =>
      rw [hc] at h
      exact (Except.ok.inj h).symm

theorem tick_ok {n n' : Net} {ps : List Packet} (h : Tick erange n ps = (n', none)) :
    n' = ⟨Runs.run see n.lb ps, Runs.run (heed erange) n.my ps⟩ := by
  induction ps generalizing n with
  | nil => exact (Prod.mk.inj h).1.symm
  | cons p ps ih =>
    rw [Tick] at h
    cases hd : n.dispatch erange p with
    | error t =>
      rw [hd] at h
      cases h
    | ok m =>
      rw [hd] at h
      rw [ih h, dispatch_ok erange hd, Runs.run_cons, Runs.run_cons]

/-- The Photon client of the next frame. -/
def Process.lbView (p : Process) : LBClient := Runs.run see p.net.lb p.inbox

/-- The listener of the next frame. -/
def Process.myView (p : Process) : MyClient := Runs.run (heed erange) p.net.my p.inbox

theorem lbView_receive (p : Process) (ps : List Packet) :
    (p.receive ps).lbView = Runs.run see p.lbView ps := Runs.run_append ..

theorem myView_receive (p : Process) (ps : List Packet) :
    (p.receive ps).myView erange = Runs.run (heed erange) (p.myView erange) ps :=
  Runs.run_append ..

/-- A frame runs on the two views, and leaves them; or the program ends. -/
theorem frame_cases (p : Process) (inp : FrameInput) :
    (p.frame erange inp).1.running = false ∧ (p.frame erange inp).2 = none
      ∨ (p.frame erange inp).1
          = { net := ⟨p.lbView, p.myView erange⟩
              clocks := (Game.frame ⟨p.lbView, p.myView erange⟩ p.clocks inp).1
              inbox := []
              running := !inp.closed }
        ∧ (p.frame erange inp).2
          = some (Game.frame ⟨p.lbView, p.myView erange⟩ p.clocks inp).2 := by
  unfold Process.frame
  cases ht : Tick erange p.net p.inbox with
  | mk net thrown =>
    cases thrown with
    | some t => exact Or.inl ⟨rfl, rfl⟩
    | none =>
      have hnet : net = ⟨p.lbView, p.myView erange⟩ := tick_ok erange ht
      subst hnet
      exact Or.inr ⟨rfl, rfl⟩

theorem commands_of_returns {s : Session} {n : Int} (hn : n ∈ s.present)
    (hrun : (s.process n).running = true)
    (htick : (Tick erange (s.process n).net (s.process n).inbox).2 = none) (inp : FrameInput) :
    s.commands erange n inp
      = some (Game.frame (Tick erange (s.process n).net (s.process n).inbox).1
          (s.process n).clocks inp).2 := by
  have hpair : Tick erange (s.process n).net (s.process n).inbox
      = ((Tick erange (s.process n).net (s.process n).inbox).1, none) := Prod.ext rfl htick
  unfold Session.commands Process.frame
  rw [if_pos ⟨hn, hrun⟩, hpair]

theorem commands_eq_some {s : Session} {n : Int} {inp : FrameInput} {cmds : List Command}
    (h : s.commands erange n inp = some cmds) :
    n ∈ s.present ∧ (s.process n).running
      ∧ cmds = (Game.frame ⟨(s.process n).lbView, (s.process n).myView erange⟩
          (s.process n).clocks inp).2 := by
  unfold Session.commands at h
  split at h
  · rename_i hen
    refine ⟨hen.1, hen.2, ?_⟩
    rcases frame_cases erange (s.process n) inp with ⟨_, hnone⟩ | ⟨_, hsome⟩
    · rw [hnone] at h
      cases h
    · rw [hsome] at h
      exact (Option.some.inj h).symm
  · cases h

end

/-! ## data for runs on fixed acts -/

def origin : Int → Clocks := fun _ => ⟨0, 0⟩

/-- A library that takes no subnormal value for a range error. -/
def noErange : Nat → Nat → Bool := fun _ _ => false

end Game
