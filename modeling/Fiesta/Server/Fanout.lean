import Fiesta.Server.Model

/-!
# The fan-out of one message

* `sendLoop_append`   what a resend loop appends does not depend on the stream before it;
* `fanOut_spec`       the whole fan-out, recipient by recipient;
* `sendLoop_exact`    when the resend loop appends the message exactly;
* `onReady_cases`     what one ready socket does to the state;
* `relay_delivery`    when a recipient gets a received message exactly;
* `resend_ends_iff`   when the loop ends on recipients that take something of every call.

The loop passes the whole message again after a `Partial`, so a recipient gets the accepted
BEGINNINGS of the message one after the other.  They make up the message in two cases only
(`SentOnce`): the first call took everything, or the beginnings happen to repeat inside the
message at the offsets where they land (`Retraces`) and the last call took nothing.
-/

namespace Relay

/-- what SFML promises of a `Partial`: a non-empty proper prefix was accepted -/
def Legal (data : List Byte) (rs : List SendResult) : Prop :=
  ∀ k, SendResult.partialSent k ∈ rs → 0 < k ∧ k < data.length

instance (data : List Byte) (rs : List SendResult) : Decidable (Legal data rs) :=
  decidable_of_iff (∀ r ∈ rs, ∀ k ∈ (match r with | .partialSent k => [k] | _ => []),
      0 < k ∧ k < data.length) <| by
    refine ⟨?_, ?_⟩
    · intro h k hk
      exact h _ hk k List.mem_cons_self
    · intro h r hr k hk
      cases r with
      | partialSent j =>
        obtain rfl : k = j := List.mem_singleton.mp hk
        exact h k hr
      | done => exact absurd hk List.not_mem_nil
      | notReady => exact absurd hk List.not_mem_nil
      | disconnected => exact absurd hk List.not_mem_nil
      | error => exact absurd hk List.not_mem_nil

theorem Legal.tail {data : List Byte} {r : SendResult} {rs : List SendResult}
    (h : Legal data (r :: rs)) : Legal data rs := fun k hk => h k (List.mem_cons_of_mem _ hk)

/-! ## one recipient -/

theorem sendLoop_nil (data stream : List Byte) : sendLoop data [] stream = none := rfl
theorem sendLoop_again (data stream : List Byte) (r : SendResult) (rs : List SendResult)
    (h : r.isPartial = true) :
    sendLoop data (r :: rs) stream = sendLoop data rs (stream ++ r.accepted data) := if_pos h
theorem sendLoop_last (data stream : List Byte) (r : SendResult) (rs : List SendResult)
    (h : r.isPartial = false) :
    sendLoop data (r :: rs) stream = some (stream ++ r.accepted data) :=
  if_neg (by rw [h]; exact Bool.false_ne_true)

theorem sendLoop_append (data : List Byte) (rs : List SendResult) (a b : List Byte) :
    sendLoop data rs (a ++ b) = (sendLoop data rs b).map (a ++ ·) := by
  induction rs generalizing b with
  | nil => rfl
  | cons r rs ih =>
    cases hr : r.isPartial with
    | true => rw [sendLoop_again _ _ _ _ hr, sendLoop_again _ _ _ _ hr, List.append_assoc, ih]
    | false =>
      rw [sendLoop_last _ _ _ _ hr, sendLoop_last _ _ _ _ hr, Option.map_some, List.append_assoc]

theorem sendLoop_eq (data : List Byte) (rs : List SendResult) (stream : List Byte) :
    sendLoop data rs stream = (sendLoop data rs []).map (stream ++ ·) := by
  rw [← sendLoop_append, List.append_nil]

theorem sendLoop_extends {data : List Byte} {rs : List SendResult} {a t : List Byte}
    (h : sendLoop data rs a = some t) : a.length ≤ t.length := by
  rw [sendLoop_eq] at h
  obtain ⟨b, _, rfl⟩ := Option.map_eq_some_iff.mp h
  rw [List.length_append]
  omega

/-- a first call that takes everything ends the loop -/
theorem sendLoop_done {data : List Byte} {rs : List SendResult} (h : rs.head? = some .done)
    (stream : List Byte) : sendLoop data rs stream = some (stream ++ data) := by
  obtain ⟨tl, rfl⟩ := List.head?_eq_some_iff.mp h
  exact sendLoop_last data stream .done tl rfl

/-! ## the whole table -/

theorem fanOut_spec (data : List Byte) (send : SocketId → List SendResult)
    (cells : List (Option SocketId)) (hnd : cells.reduceOption.Nodup)
    (out out' : SocketId → List Byte) (h : fanOut data send cells out = some out') :
    (∀ r, some r ∈ cells → sendLoop data (send r) (out r) = some (out' r)) ∧
      ∀ r, some r ∉ cells → out' r = out r := by
  induction cells generalizing out with
  | nil =>
    obtain rfl : out = out' := Option.some.inj h
    exact ⟨fun r hr => absurd hr List.not_mem_nil, fun _ _ => rfl⟩
  | cons c cells ih =>
    cases c with
    | none =>
      obtain ⟨hin, hout⟩ := ih (by simpa using hnd) out h
      refine ⟨?_, ?_⟩
      · intro r hr
        exact hin r (by simpa using hr)
      · intro r hr
        exact hout r (fun h' => hr (List.mem_cons_of_mem _ h'))
    | some q =>
      rw [List.reduceOption_cons_of_some, List.nodup_cons, List.reduceOption_mem_iff] at hnd
      obtain ⟨stream, hs, hrest⟩ := Option.bind_eq_some_iff.mp h
      obtain ⟨hin, hout⟩ := ih hnd.2 _ hrest
      refine ⟨?_, ?_⟩
      · intro r hr
        rcases List.mem_cons.mp hr with hq | hr'
        · obtain rfl : r = q := Option.some.inj hq
          rw [hs, hout r hnd.1, Function.update_self]
        · have hne : r ≠ q := fun e => hnd.1 (e ▸ hr')
          rw [← hin r hr', Function.update_of_ne hne]
      · intro r hr
        have hne : r ≠ q := fun e => hr (e ▸ List.mem_cons_self)
        rw [hout r (fun h' => hr (List.mem_cons_of_mem _ h')), Function.update_of_ne hne]

/-- a resend loop ends at the first answer that is not `Partial` -/
theorem sendLoop_ends_iff (data : List Byte) (rs : List SendResult) (stream : List Byte) :
    (∃ t, sendLoop data rs stream = some t) ↔ ∃ r ∈ rs, r.isPartial = false := by
  induction rs generalizing stream with
  | nil =>
    refine iff_of_false ?_ (by simp)
    rintro ⟨t, ht⟩
    cases ht
  | cons r rs ih =>
    cases hr : r.isPartial with
    | true =>
      rw [sendLoop_again _ _ _ _ hr, ih]
      simp [hr]
    | false =>
      rw [sendLoop_last _ _ _ _ hr]
      exact iff_of_true ⟨_, rfl⟩ ⟨r, List.mem_cons_self, hr⟩

/-- the fan-out ends when every recipient's loop does -/
theorem fanOut_ends_iff (data : List Byte) (send : SocketId → List SendResult)
    (cells : List (Option SocketId)) (out : SocketId → List Byte) :
    (∃ out', fanOut data send cells out = some out') ↔
      ∀ r, some r ∈ cells → ∃ a ∈ send r, a.isPartial = false := by
  induction cells generalizing out with
  | nil => exact iff_of_true ⟨out, rfl⟩ fun r hr => absurd hr List.not_mem_nil
  | cons c cells ih =>
    cases c with
    | none =>
      show (∃ out', fanOut data send cells out = some out') ↔ _
      rw [ih]
      simp
    | some q =>
      have hfirst := sendLoop_ends_iff data (send q) (out q)
      refine ⟨?_, ?_⟩
      · rintro ⟨out', h⟩
        obtain ⟨stream, hs, hrest⟩ := Option.bind_eq_some_iff.mp h
        intro r hr
        rcases List.mem_cons.mp hr with hq | hr'
        · obtain rfl : r = q := Option.some.inj hq
          exact hfirst.mp ⟨stream, hs⟩
        · exact (ih _).mp ⟨out', hrest⟩ r hr'
      · intro h
        obtain ⟨stream, hs⟩ := hfirst.mpr (h q List.mem_cons_self)
        obtain ⟨out', h'⟩ := (ih (Function.update out q stream)).mpr
          fun r hr => h r (List.mem_cons_of_mem _ hr)
        exact ⟨out', by rw [fanOut, hs]; exact h'⟩

/-- when no loop is endless, neither is the fan-out -/
theorem fanOut_total (data : List Byte) (send : SocketId → List SendResult)
    (hsend : ∀ r stream, ∃ t, sendLoop data (send r) stream = some t)
    (cells : List (Option SocketId)) (out : SocketId → List Byte) :
    ∃ out', fanOut data send cells out = some out' :=
  (fanOut_ends_iff data send cells out).mpr
    fun r _ => (sendLoop_ends_iff data (send r) (out r)).mp (hsend r (out r))

/-- the call passes exactly the received bytes -/
theorem messageBuffer_take (m : List Byte) : (messageBuffer m).take m.length = m := by
  rw [messageBuffer, List.take_left]

/-! ## exactness -/

/-- the beginnings of `m` of lengths `ks` lie in `m` one after the other from offset `o` to the
end -/
def Retraces (m : List Byte) : Nat → List Nat → Prop
  | o, [] => o = m.length
  | o, k :: ks => (m.drop o).take k = m.take k ∧ Retraces m (o + k) ks

theorem Retraces.le {m : List Byte} {ks : List Nat} : ∀ {o : Nat}, Retraces m o ks → o ≤ m.length := by
  induction ks with
  | nil => exact fun h => Nat.le_of_eq h
  | cons k ks ih =>
    intro o h
    have := ih h.2
    omega

/-- the condition under which a resend loop appends the message exactly -/
def SentOnce (m : List Byte) (rs : List SendResult) : Prop :=
  rs.head? = some .done ∨
    ∃ ks r rest, rs = ks.map .partialSent ++ r :: rest ∧ r.isPartial = false ∧ r ≠ .done ∧
      Retraces m 0 ks

theorem accepted_eq_nil {r : SendResult} (hp : r.isPartial = false) (hd : r ≠ .done)
    (m : List Byte) : r.accepted m = [] := by
  cases r with
  | done => exact absurd rfl hd
  | partialSent k => exact absurd hp (by simp [SendResult.isPartial])
  | notReady => rfl
  | disconnected => rfl
  | error => rfl

/-- with `o` bytes of `m` accepted, the loop reaches exactly `m` iff it retraces the rest of `m`
(or starts with a call that takes everything) -/
theorem sendLoop_from (m : List Byte) (rs : List SendResult) (hleg : Legal m rs) (o : Nat)
    (ho : o ≤ m.length) :
    sendLoop m rs (m.take o) = some m ↔
      (o = 0 ∧ rs.head? = some .done) ∨
        ∃ ks r rest, rs = ks.map .partialSent ++ r :: rest ∧ r.isPartial = false ∧ r ≠ .done ∧
          Retraces m o ks := by
  induction rs generalizing o with
  | nil =>
    rw [sendLoop_nil]
    refine ⟨?_, ?_⟩
    · intro h
      exact absurd h (by simp)
    · rintro (⟨_, h⟩ | ⟨ks, r, rest, h, _⟩)
      · exact absurd h (by simp)
      · exact absurd h (by simp)
  | cons r rs ih =>
    cases hr : r.isPartial with
    | false =>
      rw [sendLoop_last _ _ _ _ hr]
      have hks : ∀ (ks : List Nat) (r' : SendResult) (rest : List SendResult),
          r :: rs = ks.map .partialSent ++ r' :: rest → ks = [] ∧ r' = r := by
        intro ks r' rest h
        cases ks with
        | nil => exact ⟨rfl, (List.cons.inj h).1.symm⟩
        | cons k ks =>
          rw [(List.cons.inj h).1] at hr
          exact absurd hr (by simp [SendResult.isPartial])
      by_cases hd : r = .done
      · subst hd
        refine ⟨?_, ?_⟩
        · intro h
          have hlen := congrArg List.length (Option.some.inj h)
          rw [List.length_append, List.length_take] at hlen
          have hacc : (SendResult.done.accepted m).length = m.length := rfl
          exact Or.inl ⟨by omega, rfl⟩
        · rintro (⟨rfl, _⟩ | ⟨ks, r', rest, h, _, hne, _⟩)
          · rfl
          · exact absurd (hks ks r' rest h).2 hne
      · rw [accepted_eq_nil hr hd, List.append_nil]
        refine ⟨?_, ?_⟩
        · intro h
          have hlen := congrArg List.length (Option.some.inj h)
          rw [List.length_take] at hlen
          exact Or.inr ⟨[], r, rs, rfl, hr, hd, show o = m.length by omega⟩
        · rintro (⟨_, h⟩ | ⟨ks, r', rest, h, _, _, hret⟩)
          · exact absurd (Option.some.inj h) hd
          · obtain ⟨rfl, _⟩ := hks ks r' rest h
            have ho' : o = m.length := hret
            rw [ho', List.take_length]
    | true =>
      obtain ⟨k, rfl⟩ : ∃ k, r = .partialSent k := by
        cases r with
        | partialSent k => exact ⟨k, rfl⟩
        | done => exact absurd hr (by simp [SendResult.isPartial])
        | notReady => exact absurd hr (by simp [SendResult.isPartial])
        | disconnected => exact absurd hr (by simp [SendResult.isPartial])
        | error => exact absurd hr (by simp [SendResult.isPartial])
      obtain ⟨hk0, hklt⟩ := hleg k List.mem_cons_self
      rw [sendLoop_again _ _ _ _ hr]
      show sendLoop m rs (m.take o ++ m.take k) = some m ↔ _
      refine ⟨?_, ?_⟩
      · intro h
        -- the loop only appends, so what is there already is a beginning of `m`
        have hle := sendLoop_extends h
        rw [List.length_append, List.length_take, List.length_take] at hle
        have hpre : m.take o ++ m.take k = m.take (o + k) := by
          rw [sendLoop_eq] at h
          obtain ⟨b, _, hb⟩ := Option.map_eq_some_iff.mp h
          have htake := congrArg (List.take (o + k)) hb
          rw [List.take_append_of_le_length (by simp; omega), List.take_of_length_le (by simp; omega)]
            at htake
          exact htake
        have hret : (m.drop o).take k = m.take k := by
          rw [List.take_add] at hpre
          exact (List.append_cancel_left hpre).symm
        rw [hpre] at h
        rcases (ih hleg.tail (o + k) (by omega)).mp h with ⟨h0, _⟩ | ⟨ks, r', rest, rfl, hp, hd, hks⟩
        · omega
        · exact Or.inr ⟨k :: ks, r', rest, rfl, hp, hd, hret, hks⟩
      · rintro (⟨_, h⟩ | ⟨ks, r', rest, h, hp, hd, hks⟩)
        · exact absurd (Option.some.inj h) (by simp)
        · cases ks with
          | nil =>
            rw [← (List.cons.inj h).1] at hp
            exact absurd hp (by simp [SendResult.isPartial])
          | cons k' ks =>
            obtain ⟨hk', hrs⟩ := List.cons.inj h
            obtain rfl : k = k' := SendResult.partialSent.inj hk'
            have hle := hks.2.le
            have hpre : m.take o ++ m.take k = m.take (o + k) := by
              rw [List.take_add, hks.1]
            rw [hpre]
            exact (ih hleg.tail (o + k) hle).mpr (Or.inr ⟨ks, r', rest, hrs, hp, hd, hks.2⟩)

theorem sendLoop_exact (m : List Byte) (rs : List SendResult) (hleg : Legal m rs)
    (stream t : List Byte) (h : sendLoop m rs stream = some t) :
    t = stream ++ m ↔ SentOnce m rs := by
  have hfrom := sendLoop_from m rs hleg 0 (Nat.zero_le _)
  rw [sendLoop_eq] at h
  obtain ⟨b, hb, rfl⟩ := Option.map_eq_some_iff.mp h
  rw [List.take_zero, hb] at hfrom
  unfold SentOnce
  refine ⟨?_, ?_⟩
  · intro heq
    rcases hfrom.mp (congrArg some (List.append_cancel_left heq)) with ⟨_, h⟩ | h
    · exact Or.inl h
    · exact Or.inr h
  · intro hcond
    rw [Option.some.inj (hfrom.mpr (hcond.imp (fun h => ⟨rfl, h⟩) id))]

/-! ## one ready socket -/

/-- **All that a ready socket can do**: nothing, report its end, or have its message relayed. -/
theorem onReady_cases {env : Env} {s : SocketId} {w w' : World} (h : onReady env s w = some w') :
    w' = w ∨ w' = { w with ended := w.ended ++ [s] } ∨
      ∃ n out', env.recv s = .done n ∧ received w s n ≠ [] ∧
        fanOut (received w s n) (env.send s) w.sockets.cells w.out = some out' ∧
        w' = { w with
          incoming := Function.update w.incoming s ((w.incoming s).drop (received w s n).length)
          relayed := w.relayed ++ [(s, received w s n)]
          out := out' } := by
  unfold onReady at h
  cases hrecv : env.recv s with
  | done n =>
    simp only [hrecv, messageBuffer_take] at h
    by_cases hm : received w s n = []
    · rw [if_pos hm] at h
      exact Or.inl (Option.some.inj h).symm
    · rw [if_neg hm] at h
      obtain ⟨out', ho, rfl⟩ := Option.map_eq_some_iff.mp h
      exact Or.inr (Or.inr ⟨n, out', rfl, hm, ho, rfl⟩)
  | partialReceived =>
    simp only [hrecv] at h
    exact Or.inl (Option.some.inj h).symm
  | notReady =>
    simp only [hrecv] at h
    exact Or.inl (Option.some.inj h).symm
  | disconnected =>
    simp only [hrecv] at h
    exact Or.inr (Or.inl (Option.some.inj h).symm)
  | error terminal =>
    simp only [hrecv] at h
    cases terminal
    · exact Or.inl (Option.some.inj h).symm
    · exact Or.inr (Or.inl (Option.some.inj h).symm)

/-- **Delivery of a received message to a slot**: when the resend loop (or the whole fan-out) has
ended, the message was appended exactly if and only if it was sent once. -/
theorem relay_delivery (env : Env) (w : World) (s : SocketId) (n : Nat)
    (hrecv : env.recv s = .done n) (hm : received w s n ≠ []) (r : SocketId) (hr : r ∈ w.sockets)
    (hleg : Legal (received w s n) (env.send s r)) :
    (∀ stream, sendLoop ((messageBuffer (received w s n)).take (received w s n).length)
        (env.send s r) (w.out r) = some stream →
      (stream = w.out r ++ received w s n ↔ SentOnce (received w s n) (env.send s r))) ∧
    ∀ w', onReady env s w = some w' → r ∈ w'.sockets ∧
      (w'.out r = w.out r ++ received w s n ↔ SentOnce (received w s n) (env.send s r)) := by
  refine ⟨?_, ?_⟩
  · intro stream h
    rw [messageBuffer_take] at h
    exact sendLoop_exact _ _ hleg _ _ h
  · intro w' h
    unfold onReady at h
    simp only [hrecv, messageBuffer_take, if_neg hm] at h
    obtain ⟨out', ho, rfl⟩ := Option.map_eq_some_iff.mp h
    have hloop := (fanOut_spec _ _ _ w.sockets.nodup _ _ ho).1 r hr
    exact ⟨hr, sendLoop_exact _ _ hleg _ _ hloop⟩

/-- a client is accepted and sends two bytes, of which its socket takes one back at first -/
def echoEnv : Env where
  localPortZero := fun _ => false
  acceptDone := true
  arrivals := fun _ => [1, 2]
  wait := true
  ready := fun _ => true
  recv := fun _ => .done 2
  send := fun _ _ => [.partialSent 1, .done]

theorem relay_delivery_echo :
    (∀ stream, sendLoop ((messageBuffer [1, 2]).take 2) [.partialSent 1, .done] [] = some stream →
      (stream = [] ++ [1, 2] ↔ SentOnce [1, 2] [.partialSent 1, .done])) ∧
    ∀ w', onReady echoEnv 0 (beforeSelect echoEnv start) = some w' → 0 ∈ w'.sockets ∧
      (w'.out 0 = [] ++ [1, 2] ↔ SentOnce [1, 2] [.partialSent 1, .done]) :=
  relay_delivery echoEnv (beforeSelect echoEnv start) 0 2 rfl (by decide) 0 (by decide) (by decide)

/-- `[1, 2]` arrives as `[1, 1, 2]`. -/
theorem relay_delivery_repeats :
    ¬ ∀ (env : Env) (w w' : World) (s r : SocketId) (n : Nat), env.recv s = .done n →
      received w s n ≠ [] → r ∈ w.sockets → Legal (received w s n) (env.send s r) →
      onReady env s w = some w' → w'.out r = w.out r ++ received w s n := by
  intro h
  obtain ⟨w', hw'⟩ : ∃ w', onReady echoEnv 0 (beforeSelect echoEnv start) = some w' := ⟨_, rfl⟩
  have hout : w'.out 0 = [1, 1, 2] := by
    cases hw'
    rfl
  have hexact := h echoEnv (beforeSelect echoEnv start) w' 0 0 2 rfl (by decide) (by decide)
    (by decide) hw'
  rw [hout] at hexact
  exact absurd hexact (by decide)

/-! ## recipients that keep draining -/

/-- a recipient's socket that takes at least one byte of whatever it is given: `accepts i data` is
how many bytes of `data` its `i`-th call takes -/
structure Reader where
  accepts : Nat → List Byte → Nat
  progress : ∀ i data, data ≠ [] → 1 ≤ accepts i data ∧ accepts i data ≤ data.length

def Reader.answer (p : Reader) (data : List Byte) (i : Nat) : SendResult :=
  if p.accepts i data = data.length then .done else .partialSent (p.accepts i data)

/-- the answers to the first `n` calls of the loop, each of which passes the same `data` -/
def Reader.answers (p : Reader) (data : List Byte) (n : Nat) : List SendResult :=
  (List.range n).map (p.answer data)

theorem Reader.answer_isPartial (p : Reader) (data : List Byte) (i : Nat) :
    (p.answer data i).isPartial = false ↔ p.accepts i data = data.length := by
  unfold Reader.answer
  split
  · rename_i h
    exact iff_of_true rfl h
  · rename_i h
    exact iff_of_false (by simp [SendResult.isPartial]) h

theorem Reader.answers_end (p : Reader) (data : List Byte) (n : Nat) :
    (∃ a ∈ p.answers data n, a.isPartial = false) ↔ ∃ i, i < n ∧ p.accepts i data = data.length := by
  refine ⟨?_, ?_⟩
  · rintro ⟨a, ha, hend⟩
    obtain ⟨i, hi, rfl⟩ := List.mem_map.mp ha
    exact ⟨i, List.mem_range.mp hi, (p.answer_isPartial data i).mp hend⟩
  · rintro ⟨i, hi, hall⟩
    exact ⟨_, List.mem_map.mpr ⟨i, List.mem_range.mpr hi, rfl⟩, (p.answer_isPartial data i).mpr hall⟩

/-- **The resend loop of a recipient ends within `actualLength` calls, or at all, if and only if
one of these calls takes the whole message at once: bytes taken before do not count.  The fan-out
ends so if and only if every held client has such a call.** -/
theorem resend_ends_iff (readers : SocketId → Reader) (m : List Byte) :
    (∀ r stream, (∃ t, sendLoop m ((readers r).answers m m.length) stream = some t) ↔
      ∃ i, i < m.length ∧ (readers r).accepts i m = m.length) ∧
    (∀ r stream, (∃ n t, sendLoop m ((readers r).answers m n) stream = some t) ↔
      ∃ i, (readers r).accepts i m = m.length) ∧
    ∀ cells out, (∃ out', fanOut m (fun r => (readers r).answers m m.length) cells out = some out') ↔
      ∀ r, some r ∈ cells → ∃ i, i < m.length ∧ (readers r).accepts i m = m.length := by
  refine ⟨fun r stream => ?_, fun r stream => ?_, fun cells out => ?_⟩
  · rw [sendLoop_ends_iff, Reader.answers_end]
  · refine ⟨?_, ?_⟩
    · rintro ⟨n, h⟩
      rw [sendLoop_ends_iff, Reader.answers_end] at h
      obtain ⟨i, _, hall⟩ := h
      exact ⟨i, hall⟩
    · rintro ⟨i, hall⟩
      refine ⟨i + 1, ?_⟩
      rw [sendLoop_ends_iff, Reader.answers_end]
      exact ⟨i, Nat.lt_succ_self i, hall⟩
  · rw [fanOut_ends_iff]
    exact forall_congr' fun r => imp_congr_right fun _ => Reader.answers_end _ _ _

/-- a recipient that takes one byte of every call -/
def trickle : Reader where
  accepts := fun _ _ => 1
  progress := fun _ _ h => ⟨Nat.le_refl 1, List.length_pos_iff.mpr h⟩

/-- Two bytes are enough to keep the loop going on it. -/
theorem resend_goes_on :
    ¬ ∀ (p : Reader) (m stream : List Byte), m ≠ [] → m.length ≤ maxMessageLength →
      ∃ t, sendLoop m (p.answers m m.length) stream = some t := by
  intro h
  obtain ⟨t, ht⟩ := h trickle [1, 2] [] (by decide) (by decide)
  cases ht

end Relay
