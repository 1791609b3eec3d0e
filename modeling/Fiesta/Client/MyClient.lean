import Fiesta.Client.Photon
import Fiesta.Lib.Strtof
import Mathlib.Logic.Function.Basic

/-!
# The listener of the game

`MyClient` and what it reads of the Photon client, `ClientInterface`, the two places that send a
chat message, and `NetworkManager::Tick`.

* `storeDirection`, `customEventAction`   what an event does, or throws;
* `getRemotePlayerNr`, `getDirection`     what the frame loop asks;
* `Tick`                                  the packets one service call dispatches;
* `find_comma`, `FirstComma`              the split of a position text.
-/

namespace Game

open Photon Binary32 Strtof

structure Vector2f where
  x : Single
  y : Single
deriving DecidableEq

/-- `directions_`, and the messages handed to the console with the number of their sender. -/
structure MyClient where
  directions_ : Int → Option Vector2f
  console : List (Int × JString)

def MyClient.new : MyClient := ⟨fun _ => none, []⟩

/-- `std::string(message.UTF8Representation().cstr())` -/
def cstr (message : JString) : List Char := message.takeWhile (· ≠ '\x00')

section
variable (erange : Nat → Nat → Bool)

def MyClient.storeDirection (c : MyClient) (playerNr : Int) (message : JString) :
    Except Thrown MyClient :=
  let dirStr := cstr message
  match dirStr.idxOf? ',' with
  | none => .ok c
  | some commaPos => do
    let dx ← stof erange (dirStr.take commaPos)
    let dy ← stof erange (dirStr.drop (commaPos + 1))
    .ok { c with directions_ := Function.update c.directions_ playerNr (some ⟨dx, dy⟩) }

def MyClient.customEventAction (c : MyClient) (e : Event) : Except Thrown MyClient :=
  if e.eventCode = 1 then
    let msg := ValueObject.getDataCopy e.eventContent
    .ok { c with console := c.console ++ [(e.playerNr, msg)] }
  else if e.eventCode = 2 then
    let msg := ValueObject.getDataCopy e.eventContent
    c.storeDirection erange e.playerNr msg
  else .ok c

/-- The entry of the player, or the fallback of the source. -/
def MyClient.getDirection (c : MyClient) (actorNr : Int) : Vector2f :=
  (c.directions_ actorNr).getD ⟨Single.ofNat 300, Single.ofNat 100⟩

/-- `ClientInterface::customEventAction`, as its effect on the console -/
def ClientInterface.customEventAction (console : List (Int × JString)) (e : Event) :
    List (Int × JString) :=
  if e.eventCode = 1 then
    let msg := ValueObject.getDataCopy e.eventContent
    console ++ [(e.playerNr, msg)]
  else console

/-! ## the network manager -/

/-- The Photon client and its listener. -/
structure Net where
  lb : LBClient
  my : MyClient

def Net.new : Net := ⟨LBClient.new, MyClient.new⟩

def Net.dispatch (n : Net) : Packet → Except Thrown Net
  | .joined nr playerList => .ok { n with lb := n.lb.onJoined nr playerList }
  | .join nr => .ok { n with lb := n.lb.onJoin nr }
  | .leave nr => .ok { n with lb := n.lb.onLeave nr }
  | .custom e => (n.my.customEventAction erange e).map fun my => { n with my }

/-- `NetworkManager::Tick` on the packets that have arrived: an exception of the listener leaves
the service call with the rest undispatched. -/
def Tick (n : Net) : List Packet → Net × Option Thrown
  | [] => (n, none)
  | p :: ps =>
    match n.dispatch erange p with
    | .ok n' => Tick n' ps
    | .error t => (n, some t)

end

def Net.getLocalPlayerNr (n : Net) : Int := n.lb.localNr

def Net.getAllPlayerNrs (n : Net) : List Int := n.lb.players

def Net.getRemotePlayerNr (n : Net) : Int :=
  (n.getAllPlayerNrs.find? (· ≠ n.getLocalPlayerNr)).getD 0

/-! ## chat messages -/

/-- `SDF::SendMessageToRoom` -/
def SendMessageToRoom (lb : LBClient) (msg : JString) : Option Raised :=
  lb.opRaiseEvent false (.hashtable [(.byte 1, .jstring msg)]) 1

/-- The Send button, for the text buffer of the input field; `ofChars` is the constructor of
`JString` from characters. -/
def sendButton (ofChars : List UInt8 → JString) (lb : LBClient) (message : List UInt8) :
    Option Raised :=
  lb.opRaiseEvent true (.jstring (ofChars message)) 1

/-! ## the first comma -/

/-- The text is `a`, a comma and `b`, and the comma is its first. -/
def FirstComma (s a b : List Char) : Prop := s = a ++ ',' :: b ∧ ',' ∉ a

theorem FirstComma.unique {s a b a' b' : List Char} (h : FirstComma s a b)
    (h' : FirstComma s a' b') : a = a' ∧ b = b' := by
  obtain ⟨rfl, ha⟩ := h
  obtain ⟨heq, ha'⟩ := h'
  rcases List.append_eq_append_iff.1 heq with ⟨w, rfl, hw⟩ | ⟨w, rfl, hw⟩
  · cases w with
    | nil => simpa using hw
    | cons c w =>
      have hc : ',' = c := (List.cons.inj hw).1
      simp [← hc] at ha'
  · cases w with
    | nil => simpa [eq_comm] using hw
    | cons c w =>
      have hc : ',' = c := (List.cons.inj hw).1
      simp [← hc] at ha

/-- `find(',')` and the two `substr` are the split at the first comma. -/
theorem find_comma (s : List Char) :
    (s.idxOf? ',' = none ∧ ',' ∉ s)
      ∨ ∃ i, s.idxOf? ',' = some i ∧ FirstComma s (s.take i) (s.drop (i + 1)) := by
  induction s with
  | nil => exact Or.inl ⟨rfl, by simp⟩
  | cons c cs ih =>
    by_cases hc : c = ','
    · subst hc
      exact Or.inr ⟨0, by simp [List.idxOf?, List.findIdx?_cons], rfl, by simp⟩
    · have hstep : (c :: cs).idxOf? ',' = (cs.idxOf? ',').map (· + 1) := by
        simp [List.idxOf?, List.findIdx?_cons, hc]
      rcases ih with ⟨hnone, hnot⟩ | ⟨i, hi, heq, hnot⟩
      · refine Or.inl ⟨by rw [hstep, hnone]; rfl, ?_⟩
        rw [List.mem_cons, not_or]
        exact ⟨fun h => hc h.symm, hnot⟩
      · refine Or.inr ⟨i + 1, by rw [hstep, hi]; rfl, ?_, ?_⟩
        · show c :: cs = c :: (cs.take i ++ ',' :: cs.drop (i + 1))
          rw [← heq]
        · rw [List.take_succ_cons, List.mem_cons, not_or]
          exact ⟨fun h => hc h.symm, hnot⟩

/-- What `storeDirection` does, by the shape of the text. -/
theorem storeDirection_cases (erange : Nat → Nat → Bool) (c : MyClient) (nr : Int)
    (message : JString) :
    (',' ∉ cstr message ∧ c.storeDirection erange nr message = .ok c)
      ∨ ∃ a b, FirstComma (cstr message) a b
        ∧ c.storeDirection erange nr message = (do
            let dx ← stof erange a
            let dy ← stof erange b
            .ok { c with directions_ := Function.update c.directions_ nr (some ⟨dx, dy⟩) }) := by
  rcases find_comma (cstr message) with ⟨hnone, hnot⟩ | ⟨i, hi, hfirst⟩
  · exact Or.inl ⟨hnot, by simp only [MyClient.storeDirection, hnone]⟩
  · exact Or.inr ⟨_, _, hfirst, by simp only [MyClient.storeDirection, hi]⟩

end Game
