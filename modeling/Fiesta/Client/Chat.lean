import Fiesta.Client.MyClient

/-!
# Chat messages from one client to another

* `Sent`                  a message raised by one of the two places that send chat messages;
* `Reader`, `extracted`   what one of the two listeners takes out of a delivered event;
* `chat_survives_iff`     the messages that arrive as they were sent.
-/

namespace Game

open Photon

inductive SendPath where
  | sendMessageToRoom
  | sendButton

/-- The path raises `r` for the message `s`. The text field holds at most 255 characters. -/
def Sent (ofChars : List UInt8 → JString) (lb : LBClient) (s : JString) (r : Raised) :
    SendPath → Prop
  | .sendMessageToRoom => SendMessageToRoom lb s = some r
  | .sendButton => ∃ message : List UInt8, message.length ≤ 255 ∧ 0 ∉ message
      ∧ ofChars message = s ∧ sendButton ofChars lb message = some r

inductive Reader where
  | myClient
  | clientInterface

/-- The listener takes exactly the text `t` out of the event and hands it to the console. -/
def Extracts (e : Event) (t : JString) : Reader → Prop
  | .myClient => ∀ erange (c : MyClient), ∃ c', c.customEventAction erange e = .ok c'
      ∧ c'.console = c.console ++ [(e.playerNr, t)]
  | .clientInterface => ∀ console, ClientInterface.customEventAction console e
      = console ++ [(e.playerNr, t)]

/-- Both listeners read a chat event the same way. -/
theorem extracts_iff {e : Event} (h : e.eventCode = 1) (t : JString) (reader : Reader) :
    Extracts e t reader ↔ ValueObject.getDataCopy e.eventContent = t := by
  cases reader with
  | myClient =>
    have hact : ∀ erange (c : MyClient), c.customEventAction erange e
        = .ok { c with console :=
            c.console ++ [(e.playerNr, ValueObject.getDataCopy e.eventContent)] } := by
      intro erange c
      rw [MyClient.customEventAction, if_pos h]
    refine ⟨?_, ?_⟩
    · intro hx
      obtain ⟨c', hc, hlines⟩ := hx (fun _ _ => false) MyClient.new
      rw [hact] at hc
      cases hc
      have hline := List.append_cancel_left hlines
      exact congrArg Prod.snd (List.cons.inj hline).1
    · rintro rfl erange c
      exact ⟨_, hact erange c, rfl⟩
  | clientInterface =>
    have hact : ∀ console, ClientInterface.customEventAction console e
        = console ++ [(e.playerNr, ValueObject.getDataCopy e.eventContent)] := by
      intro console
      rw [ClientInterface.customEventAction, if_pos h]
    refine ⟨?_, ?_⟩
    · intro hx
      have hline := hx []
      rw [hact] at hline
      exact congrArg Prod.snd (List.cons.inj hline).1
    · rintro rfl console
      exact hact console

theorem opRaiseEvent_eq_some {lb : LBClient} {reliable : Bool} {content : Object} {code : NByte}
    {r : Raised} (h : lb.opRaiseEvent reliable content code = some r) :
    r = ⟨reliable, content, code⟩ := by
  unfold LBClient.opRaiseEvent at h
  split at h
  · exact (Option.some.inj h).symm
  · cases h

theorem sent_room {ofChars : List UInt8 → JString} {lb : LBClient} {s : JString} {r : Raised}
    (h : Sent ofChars lb s r .sendMessageToRoom) :
    r.eventCode = 1 ∧ ValueObject.getDataCopy r.content = [] := by
  rw [opRaiseEvent_eq_some h]
  exact ⟨rfl, getDataCopy_other (by simp)⟩

theorem sent_button {ofChars : List UInt8 → JString} {lb : LBClient} {s : JString} {r : Raised}
    (h : Sent ofChars lb s r .sendButton) :
    r.eventCode = 1 ∧ ValueObject.getDataCopy r.content = s := by
  obtain ⟨message, _, _, rfl, hr⟩ := h
  rw [opRaiseEvent_eq_some hr]
  exact ⟨rfl, getDataCopy_jstring _⟩

/-- **Every listener gets exactly the message that was sent if and only if it was sent by the
button or is empty.** -/
theorem chat_survives_iff (ofChars : List UInt8 → JString) (lb : LBClient) (s : JString)
    (r : Raised) (path : SendPath) (h : Sent ofChars lb s r path) (playerNr : Int)
    (reader : Reader) :
    Extracts (r.delivered playerNr) s reader ↔ path = .sendButton ∨ s = [] := by
  cases path with
  | sendMessageToRoom =>
    obtain ⟨hcode, hread⟩ := sent_room h
    rw [extracts_iff (by exact hcode)]
    show ValueObject.getDataCopy r.content = s ↔ _
    rw [hread]
    refine ⟨?_, ?_⟩
    · intro hs
      exact Or.inr hs.symm
    · rintro (hp | hs)
      · cases hp
      · exact hs.symm
  | sendButton =>
    obtain ⟨hcode, hread⟩ := sent_button h
    rw [extracts_iff (by exact hcode)]
    exact iff_of_true hread (Or.inl rfl)

theorem chat_survives_iff_hi :
    Extracts (Raised.delivered ⟨false, .hashtable [(.byte 1, .jstring ['h', 'i'])], 1⟩ 2)
        ['h', 'i'] .myClient
      ↔ SendPath.sendMessageToRoom = .sendButton ∨ ['h', 'i'] = ([] : JString) :=
  chat_survives_iff (fun _ => []) ⟨1, true, [1]⟩ ['h', 'i'] _ .sendMessageToRoom rfl 2 .myClient

/-- A message sent to the room arrives as the empty text. -/
theorem chat_lost :
    ¬ ∀ (ofChars : List UInt8 → JString) (lb : LBClient) (s : JString) (r : Raised)
      (path : SendPath), Sent ofChars lb s r path → ∀ (playerNr : Int) (reader : Reader),
      Extracts (r.delivered playerNr) s reader := by
  intro h
  have hx : ([(2, [])] : List (Int × JString)) = [(2, ['h', 'i'])] :=
    h (fun _ => []) ⟨1, true, [1]⟩ ['h', 'i'] _ .sendMessageToRoom rfl 2 .clientInterface []
  exact absurd hx (by decide)

end Game
