import Fiesta.LoadBalancing.GameServer

/-!
# What an input does, place by place

* `goes_opened`, `goes_closed`, `goes_response`, …   one lemma for each kind of input;
* `goes_input`    **an input that the wire admits leads from a place to a place**.
-/

namespace LoadBalancing

open Photon

/-! ## all inputs -/

theorem Asked.of_mem {b : Bool} {l xs : List Awaited} {x : Awaited} (h : Asked b l xs)
    (hx : x ∈ l) : l = [x] ∧ x ∈ xs := by
  obtain ⟨y, hy, rfl⟩ | ⟨_, rfl⟩ := h
  · obtain rfl := List.mem_singleton.1 hx
    exact ⟨rfl, hy⟩
  · cases hx

/-- Two answers leave the client waiting for nothing: a list of regions that could not be had, and
a random match without a name. -/
def Input.sound : Input → Bool
  | .response r =>
    !(r.operationCode == .getRegions && r.returnCode != 0)
      && !(r.operationCode == .joinRandomRoom && r.returnCode == 0 && r.roomName.isEmpty)
  | _ => true

theorem sound_regions {r : OperationResponse} (h : Input.sound (.response r) = true)
    (hop : r.operationCode = .getRegions) : r.returnCode = 0 := by
  unfold Input.sound at h
  simp only [hop] at h
  by_contra hne
  simp [hne] at h

theorem sound_random {r : OperationResponse} (h : Input.sound (.response r) = true)
    (hop : r.operationCode = .joinRandomRoom) (hcode : r.returnCode = 0) : r.roomName ≠ [] := by
  intro hname
  unfold Input.sound at h
  simp [hop, hcode, hname] at h

theorem goes_operation {b ok : Bool} {p : Phase} {c : Client} {l : List Awaited} {t : Bool}
    {r : OperationResponse} (h : At b p c ⟨.connected, l, t⟩)
    (hr : .response r.operationCode ∈ l) (hb : b = true → Input.sound (.response r) = true) :
    Goes (b && ok) p ⟨.connected, l, t⟩ (.response r) ok (c.onOperation ok r) := by
  cases h with
  | onNameserver h hl t =>
    obtain ⟨rfl, hx⟩ := hl.of_mem hr
    have hop : r.operationCode = .getRegions ∨ r.operationCode = .authenticate := by
      simpa using hx
    obtain hop | hop := hop
    · rw [hop]
      simp only [Client.onOperation, hop]
      exact goes_regions h hop fun hb' => sound_regions (hb hb') hop
    · rw [hop]
      simp only [Client.onOperation, hop]
      exact goes_authenticate_nameserver ok h hop
  | waitingForStep h t => cases hr
  | choosingRegion h t => cases hr
  | toMaster h hw => exact hw.not_connected.elim
  | onMaster h hl t =>
    obtain ⟨rfl, hx⟩ := hl.of_mem hr
    have hop : r.operationCode = .authenticate := by simpa using hx
    rw [hop]
    simp only [Client.onOperation, hop]
    exact goes_authenticate_master h hop
  | intoLobby h hauto hl t =>
    obtain ⟨rfl, hx⟩ := hl.of_mem hr
    have hop : r.operationCode = .joinLobby := by simpa using hx
    rw [hop]
    simp only [Client.onOperation, hop]
    exact goes_intoLobby ok h hauto hop
  | ready h t => cases hr
  | joiningLobby hidle h t =>
    have hop : r.operationCode = .joinLobby := by simpa using hr
    simp only [Client.onOperation, hop]
    exact goes_joiningLobby ok h hop
  | leavingLobby hidle t =>
    have hop : r.operationCode = .leaveLobby := by simpa using hr
    simp only [Client.onOperation, hop]
    exact goes_leavingLobby ok c hop
  | asking h hrem hc t =>
    rename_i j
    have hop : r.operationCode = j.operationCode := by simpa using hr
    exact goes_asking ok h hrem hc hop fun hb' hrandom hcode =>
      sound_random (hb (Bool.and_eq_true_iff.1 hb').1) hrandom hcode
  | toGameserver h hrem hn hw => exact hw.not_connected.elim
  | onGameserver h hrem hn hl t =>
    obtain ⟨rfl, hx⟩ := hl.of_mem hr
    have hop : r.operationCode = .authenticate := by simpa using hx
    rw [hop]
    simp only [Client.onOperation, hop]
    exact goes_authenticate_gameserver h hrem hn hop
  | joining h htype hroom hplaced hcode hl t =>
    obtain ⟨rfl, hx⟩ := hl.of_mem hr
    have hop : r.operationCode = .createRoom ∨ r.operationCode = .joinRoom := by simpa using hx
    exact goes_entered ok h htype hroom hplaced hcode hop rfl
  | inRoom h hroom hcode t => cases hr
  | leaving h hroom hcode t =>
    have hop : r.operationCode = .leave := by simpa using hr
    simp only [Client.onOperation, hop]
    exact goes_leave ok hroom hcode hop
  | backToMaster hp h hw => exact hw.not_connected.elim
  | backOnMaster hp h hl t =>
    obtain ⟨rfl, hx⟩ := hl.of_mem hr
    have hop : r.operationCode = .authenticate := by simpa using hx
    rw [hop]
    simp only [Client.onOperation, hop]
    exact goes_authenticate_back hp h hop
  | backIntoLobby hp h hauto hl t =>
    obtain ⟨rfl, hx⟩ := hl.of_mem hr
    have hop : r.operationCode = .joinLobby := by simpa using hx
    rw [hop]
    simp only [Client.onOperation, hop]
    exact goes_backIntoLobby ok hp h hauto hop

/-- A response that passes a secret on is the response after the secret. -/
theorem goes_response {b ok : Bool} {p : Phase} {c : Client} {l : List Awaited} {t : Bool}
    {r : OperationResponse} (h : At b p c ⟨.connected, l, t⟩)
    (hr : .response r.operationCode ∈ l) (hb : b = true → Input.sound (.response r) = true) :
    Goes (b && ok) p ⟨.connected, l, t⟩ (.response r) ok (c.onOperationResponse ok r) := by
  unfold Client.onOperationResponse
  cases r.secret with
  | none => exact goes_operation h hr hb
  | some secret => exact goes_operation (at_secret h secret) hr hb

/-- A connection opens. -/
theorem goes_opened {b ok : Bool} {p : Phase} {c : Client} {l : List Awaited} {t : Bool}
    (h : At b p c ⟨.connecting, l, t⟩) :
    Goes (b && ok) p ⟨.connecting, l, t⟩ .connect ok c.onConnect := by
  have hopen {w : Wire} (hw : Opening b c w) (hstate : w.state = .connecting) :
      w = ⟨.connecting, [], c.hasToken⟩ := by
    obtain hw | ⟨_, t, rfl⟩ := hw
    · exact hw
    · cases hstate
  cases h with
  | toNameserver h => exact goes_connect_nameserver h
  | toMaster h hw =>
    rw [hopen hw rfl]
    refine goes_connect (by rw [h]; exact fun h => by cases h) (.silent rfl) ?_
    intro l t hl
    refine .onMaster ?_ hl t
    show c.mState.opened = _
    rw [h]
    rfl
  | toGameserver h hr hn hw =>
    rw [hopen hw rfl]
    refine goes_connect (by rw [h]; exact fun h => by cases h) (.silent rfl) ?_
    intro l t hl
    refine .onGameserver ?_ ?_ ?_ hl t
    · show c.mState.opened = _
      rw [h]
      rfl
    · exact hr.of_eq rfl rfl rfl rfl
    · exact (hn.weaken ok).of_eq rfl
  | backToMaster hp h hw =>
    rw [hopen hw rfl]
    refine goes_connect (by rw [h]; exact fun h => by cases h) (.silent rfl) ?_
    intro l t hl
    refine .backOnMaster ?_ ?_ hl t
    · exact hp.of_eq rfl rfl rfl
    · show c.mState.opened = _
      rw [h]
      rfl

/-- A connection closes. -/
theorem goes_closed {b ok : Bool} {p : Phase} {c : Client} {l : List Awaited} {t : Bool}
    (h : At b p c ⟨.disconnecting, l, t⟩) :
    Goes (b && ok) p ⟨.disconnecting, l, t⟩ .disconnect ok c.onDisconnect := by
  have hopen {w : Wire} (hw : Opening b c w) (hstate : w.state = .disconnecting) : False := by
    obtain rfl | ⟨_, t, rfl⟩ := hw <;> cases hstate
  cases h with
  | closing h t => exact goes_disconnect_closing ok h
  | offNameserver h t =>
    refine goes_disconnect_hop .connecting c.mMasterserver ?_
      (.silent rfl) ?_
    · unfold Client.onDisconnect
      rw [if_pos h]
    · intro w hw
      exact .toMaster rfl (hw.congr rfl)
  | toMaster h hw => exact (hopen hw rfl).elim
  | offMaster h hr hn t =>
    refine goes_disconnect_hop .connectingToGameserver c.mGameserver ?_
      (.silent rfl) ?_
    · unfold Client.onDisconnect
      rw [if_neg (by rw [h]; exact fun h => by cases h), if_pos h]
    · intro w hw
      exact .toGameserver rfl (hr.of_eq rfl rfl rfl rfl) ((hn.weaken ok).of_eq rfl)
        (hw.congr rfl)
  | toGameserver h hr hn hw => exact (hopen hw rfl).elim
  | offGameserver hp h t =>
    refine goes_disconnect_hop .connectingToMasterserver c.mMasterserver ?_
      (.silent rfl) ?_
    · unfold Client.onDisconnect
      rw [if_neg (by rw [h]; exact fun h => by cases h),
        if_neg (by rw [h]; exact fun h => by cases h), if_pos h]
    · intro w hw
      exact .backToMaster (hp.of_eq rfl rfl rfl) rfl (hw.congr rfl)
  | backToMaster hp h hw => exact (hopen hw rfl).elim

theorem Phase.Returns.back {c : Client} {p : Phase} (hp : p.Returns c) :
    p = .connecting ∨ p = .leaving ∨ ∃ entry c t, p = .refused entry c t := by
  cases p with
  | refused entry code text => exact .inr (.inr ⟨entry, code, text, rfl⟩)
  | leaving => exact .inr (.inl rfl)
  | _ => exact hp.elim

/-- Encryption is awaited at the beginning of a connection, and nothing else is. -/
theorem At.encryption {b : Bool} {p : Phase} {c : Client} {l : List Awaited} {t : Bool}
    (h : At b p c ⟨.connected, l, t⟩) (hl : .encryption ∈ l) :
    l = [.encryption]
      ∧ (p = .connecting ∧ c.mState = .connectedToNameserver
        ∨ p = .connecting ∧ c.mState = .connected
        ∨ (∃ entry name, p = .entering entry name ∧ c.mState = .connectedToGameserver
          ∧ entry.Remembers c ∧ entry.Named b c name)
        ∨ p.Returns c ∧ c.mState = .connectedComingFromGameserver) := by
  cases h with
  | onNameserver h hx t => exact ⟨(hx.of_mem hl).1, .inl ⟨rfl, h⟩⟩
  | onMaster h hx t => exact ⟨(hx.of_mem hl).1, .inr (.inl ⟨rfl, h⟩)⟩
  | onGameserver h hr hn hx t =>
    exact ⟨(hx.of_mem hl).1, .inr (.inr (.inl ⟨_, _, rfl, h, hr, hn⟩))⟩
  | backOnMaster hp h hx t => exact ⟨(hx.of_mem hl).1, .inr (.inr (.inr ⟨hp, h⟩))⟩
  | waitingForStep h t => cases hl
  | choosingRegion h t => cases hl
  | ready h t => cases hl
  | inRoom h hroom hcode t => cases hl
  | intoLobby h hauto hx t => exact absurd (hx.of_mem hl).2 (by simp)
  | joining h htype hroom hplaced hcode hx t => exact absurd (hx.of_mem hl).2 (by simp)
  | backIntoLobby hp h hauto hx t => exact absurd (hx.of_mem hl).2 (by simp)
  | joiningLobby hidle h t => exact absurd hl (by simp)
  | leavingLobby hidle t => exact absurd hl (by simp)
  | asking h hr hc t => exact absurd hl (by simp)
  | leaving h hroom hcode t => exact absurd hl (by simp)
  | toMaster h hw => exact hw.not_connected.elim
  | toGameserver h hr hn hw => exact hw.not_connected.elim
  | backToMaster hp h hw => exact hw.not_connected.elim

/-- Pings are awaited on the name server. -/
theorem At.pings {b : Bool} {p : Phase} {c : Client} {l : List Awaited} {t : Bool}
    (h : At b p c ⟨.connected, l, t⟩) (hl : .pings ∈ l) :
    l = [.pings] ∧ p = .connecting ∧ c.mState = .connectedToNameserver := by
  cases h with
  | onNameserver h hx t => exact ⟨(hx.of_mem hl).1, rfl, h⟩
  | waitingForStep h t => cases hl
  | choosingRegion h t => cases hl
  | ready h t => cases hl
  | inRoom h hroom hcode t => cases hl
  | onMaster h hx t => exact absurd (hx.of_mem hl).2 (by simp)
  | onGameserver h hr hn hx t => exact absurd (hx.of_mem hl).2 (by simp)
  | backOnMaster hp h hx t => exact absurd (hx.of_mem hl).2 (by simp)
  | intoLobby h hauto hx t => exact absurd (hx.of_mem hl).2 (by simp)
  | joining h htype hroom hplaced hcode hx t => exact absurd (hx.of_mem hl).2 (by simp)
  | backIntoLobby hp h hauto hx t => exact absurd (hx.of_mem hl).2 (by simp)
  | joiningLobby hidle h t => exact absurd hl (by simp)
  | leavingLobby hidle t => exact absurd hl (by simp)
  | asking h hr hc t => exact absurd hl (by simp)
  | leaving h hroom hcode t => exact absurd hl (by simp)
  | toMaster h hw => exact hw.not_connected.elim
  | toGameserver h hr hn hw => exact hw.not_connected.elim
  | backToMaster hp h hw => exact hw.not_connected.elim

/-- Encryption is established, or not. -/
theorem goes_encryption_answer {b ok : Bool} {p : Phase} {c : Client} {l : List Awaited} {t : Bool}
    {i : Input} (h : At b p c ⟨.connected, l, t⟩) (hl : .encryption ∈ l)
    (hi : i = .encryptionEstablished ∨ i = .encryptionFailedToEstablish) :
    Goes (b && ok) p ⟨.connected, l, t⟩ i ok (c.onInput ok i) := by
  have hfail : Input.failure .encryptionFailedToEstablish
      = some (ENCRYPTION_FAILED_TO_ESTABLISH, Client.ENCRYPTION_FAILED) := rfl
  obtain ⟨rfl, hplace⟩ := h.encryption hl
  obtain ⟨rfl, hs⟩ | ⟨rfl, hs⟩ | ⟨entry, name, rfl, hs, hr, hn⟩ | ⟨hp, hs⟩ := hplace
  · obtain rfl | rfl := hi
    · have heq : c.onEncryptionEstablished = (c, [.peer (.request (.getRegions true))]) :=
        if_pos hs
      show Goes _ _ _ _ _ c.onEncryptionEstablished
      rw [heq]
      refine ⟨.connecting, .silent rfl, rfl, ?_⟩
      rw [takeAll_cons, take_request]
      exact .onNameserver hs (asked_request b ok (by simp)) _
    · refine goes_flowError ok rfl hfail (.inl rfl) ?_ ?_ ?_
        <;> rw [hs] <;> exact fun h => by cases h
  · obtain rfl | rfl := hi
    · refine goes_encryption (by rw [hs]; exact fun h => by cases h) (.silent rfl) ?_
      exact fun l t hl => .onMaster hs hl t
    · refine goes_flowError ok rfl hfail (.inl rfl) ?_ ?_ ?_
        <;> rw [hs] <;> exact fun h => by cases h
  · obtain rfl | rfl := hi
    · refine goes_encryption (by rw [hs]; exact fun h => by cases h) (.silent rfl) ?_
      exact fun l t hl => .onGameserver hs hr (hn.weaken ok) hl t
    · exact goes_flowError_gameserver ok rfl hfail (by decide) hn.placed hr.type_eq (.inl hs)
  · obtain rfl | rfl := hi
    · refine goes_encryption (by rw [hs]; exact fun h => by cases h) (.silent rfl) ?_
      exact fun l t hl => .backOnMaster hp hs hl t
    · refine goes_flowError ok rfl hfail hp.back ?_ ?_ ?_
        <;> rw [hs] <;> exact fun h => by cases h

/-- All the pings are answered. -/
theorem goes_bestRegion {b ok : Bool} {p : Phase} {c : Client} {l : List Awaited} {t : Bool}
    (h : At b p c ⟨.connected, l, t⟩) (hl : .pings ∈ l) (region : JString) :
    Goes (b && ok) p ⟨.connected, l, t⟩ (.bestRegion region) ok (c.onBestRegion region) := by
  obtain ⟨rfl, rfl, hs⟩ := h.pings hl
  refine ⟨.connecting, .silent rfl, rfl, ?_⟩
  unfold Client.onBestRegion Client.authenticate
  rw [takeAll_cons, take_request]
  refine .onNameserver ?_ (asked_request b ok (by simp)) _
  exact hs

/-- A secret by itself. -/
theorem goes_secret {b : Bool} {p : Phase} {c : Client} {l : List Awaited} {t : Bool} (ok : Bool)
    (h : At b p c ⟨.connected, l, t⟩) (secret : JString) :
    Goes b p ⟨.connected, l, t⟩ (.secret secret) ok (c.setSecret secret) := by
  exact ⟨p, .silent rfl, asks_nil p, at_secret h secret⟩

/-- **An input that the wire admits leads from a place to a place**, and tells the app what the
protocol says; the client waits for something there if it did before, if the peer accepts its
call, and if the input is sound. -/
theorem goes_input {b : Bool} (ok : Bool) {p : Phase} {c : Client} {w : Wire} {i : Input}
    (h : At b p c w) (hw : w.AdmitsInput i) (hb : b = true → i.sound = true) :
    Goes (b && ok) p w i ok (c.onInput ok i) := by
  obtain ⟨state, l, t⟩ := w
  cases i with
  | connect =>
    obtain rfl : state = .connecting := hw
    exact goes_opened h
  | disconnect =>
    obtain rfl : state = .disconnecting := hw
    exact goes_closed h
  | encryptionEstablished =>
    obtain ⟨rfl, hl⟩ : state = .connected ∧ _ := hw
    exact goes_encryption_answer h hl (.inl rfl)
  | encryptionFailedToEstablish =>
    obtain ⟨rfl, hl⟩ : state = .connected ∧ _ := hw
    exact goes_encryption_answer h hl (.inr rfl)
  | connectionError error peerState => exact goes_error error peerState ok hw
  | secret secret =>
    obtain rfl : state = .connected := hw
    exact goes_secret ok (h.weaken ok) secret
  | bestRegion region =>
    obtain ⟨rfl, hl⟩ : state = .connected ∧ _ := hw
    exact goes_bestRegion h hl region
  | response r =>
    obtain ⟨rfl, hr⟩ : state = .connected ∧ _ := hw
    exact goes_response h hr hb

end LoadBalancing
