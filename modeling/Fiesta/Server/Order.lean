import Fiesta.Server.Table

/-!
# Total order of the relay

As long as every send reports `Done`:

* `iteration_total`    no round gets stuck;
* `Ordered`            the invariant: a held client has been sent the messages since its acceptance,
                       and every peer's messages are what it wrote, cut where the receives cut it;
* `ordered_serve`      it holds along every run;
* `Later`              what a run adds to the history (`later_exec`);
* `relay_total_order`  the byte streams of a whole run, and of any interval of it.
-/

namespace Relay

/-- the bytes of a list of messages -/
def bytes (l : List (SocketId × List Byte)) : List Byte := (l.map Prod.snd).flatten

theorem bytes_append (l r : List (SocketId × List Byte)) : bytes (l ++ r) = bytes l ++ bytes r := by
  unfold bytes
  rw [List.map_append, List.flatten_append]

theorem bytes_single (s : SocketId) (m : List Byte) : bytes [(s, m)] = m := by simp [bytes]

/-- the messages of one sender -/
def sentBy (s : SocketId) (l : List (SocketId × List Byte)) : List (SocketId × List Byte) :=
  l.filter fun c => decide (c.1 = s)

theorem bytes_sentBy_snoc (s q : SocketId) (l : List (SocketId × List Byte)) (m : List Byte) :
    bytes (sentBy s (l ++ [(q, m)])) = bytes (sentBy s l) ++ if q = s then m else [] := by
  unfold sentBy
  rw [List.filter_append, bytes_append]
  congr 1
  by_cases h : q = s
  · rw [List.filter_cons_of_pos (by simpa using h), if_pos h]
    exact bytes_single q m
  · rw [List.filter_cons_of_neg (by simpa using h), if_neg h]
    rfl

/-! ## no round gets stuck -/

/-- every send reports `Done` -/
def AllDone (env : Env) : Prop := ∀ s r, (env.send s r).head? = some .done

theorem onReady_total {env : Env} (hdone : AllDone env) (s : SocketId) (w : World) :
    ∃ w', onReady env s w = some w' := by
  unfold onReady
  cases env.recv s with
  | done n =>
    obtain ⟨out', ho⟩ := fanOut_total
      ((messageBuffer (received w s n)).take (received w s n).length) (env.send s)
      (fun r stream => ⟨_, sendLoop_done (hdone s r) stream⟩) w.sockets.cells w.out
    simp only [ho]
    split
    · exact ⟨w, rfl⟩
    · exact ⟨_, rfl⟩
  | partialReceived => exact ⟨w, rfl⟩
  | notReady => exact ⟨w, rfl⟩
  | disconnected => exact ⟨_, rfl⟩
  | error terminal => exact ⟨_, rfl⟩

theorem poll_total {env : Env} (hdone : AllDone env) (cells : List (Option SocketId)) (w : World) :
    ∃ w', poll env cells w = some w' := by
  induction cells generalizing w with
  | nil => exact ⟨w, rfl⟩
  | cons c cells ih =>
    cases c with
    | none => exact ih w
    | some s =>
      rw [poll]
      cases isReady env w s with
      | false => exact ih w
      | true =>
        obtain ⟨v, hv⟩ := onReady_total hdone s w
        obtain ⟨w', hw'⟩ := ih v
        exact ⟨w', by rw [if_pos rfl, hv]; exact hw'⟩

theorem iteration_total {env : Env} (hdone : AllDone env) (w : World) :
    ∃ w', iteration w env = some w' := by
  unfold iteration
  cases env.wait with
  | false => exact ⟨_, rfl⟩
  | true => exact poll_total hdone _ _

/-! ## the invariant -/

structure Ordered (w : World) : Prop where
  out_eq : ∀ r ∈ w.sockets, w.since r ≤ w.relayed.length ∧
    w.out r = bytes (w.relayed.drop (w.since r))
  out_new : ∀ r, w.accepted ≤ r → w.out r = []
  wrote_eq : ∀ s, bytes (sentBy s w.relayed) ++ w.incoming s = w.wrote s
  size : ∀ c ∈ w.relayed, 1 ≤ c.2.length ∧ c.2.length ≤ maxMessageLength

theorem ordered_start : Ordered start where
  out_eq := fun r hr => absurd hr (Slots.not_mem_empty r)
  out_new := fun _ _ => rfl
  wrote_eq := fun _ => rfl
  size := fun _ hc => absurd hc List.not_mem_nil

theorem ordered_beforeSelect {w : World} (env : Env) (hw : Ordered w) :
    Ordered (beforeSelect env w) := by
  obtain ⟨hin, hwrote, hout, hrel, _⟩ := accept_streams env (reap env w)
  have hout' : (beforeSelect env w).out = w.out := hout
  have hrel' : (beforeSelect env w).relayed = w.relayed := hrel
  refine ⟨?_, ?_, ?_, ?_⟩
  · intro r hr
    rw [hout', hrel']
    show (accept env (reap env w)).since r ≤ _ ∧ _ = bytes (w.relayed.drop
      ((accept env (reap env w)).since r))
    rcases (mem_beforeSelect env w r).mp hr with ⟨hmem, _⟩ | ⟨hacc, rfl⟩
    · have hsince : (accept env (reap env w)).since r = w.since r := by
        cases h : env.acceptDone with
        | false =>
          rw [accept_false env _ h]
          rfl
        | true =>
          have hne : r ≠ (reap env w).accepted := Nat.ne_of_lt (w.fresh r hmem)
          rw [(accept_true env _ h).2.2.2.2, Function.update_of_ne hne]
          rfl
      rw [hsince]
      exact hw.out_eq r hmem
    · have hsince : (accept env (reap env w)).since w.accepted = w.relayed.length := by
        rw [(accept_true env _ hacc).2.2.2.2]
        exact Function.update_self ..
      rw [hsince, List.drop_length, hw.out_new _ (Nat.le_refl _)]
      exact ⟨Nat.le_refl _, rfl⟩
  · intro r hr
    rw [hout']
    refine hw.out_new r (Nat.le_trans ?_ hr)
    rw [beforeSelect_accepted]
    split
    · exact Nat.le_succ _
    · exact Nat.le_refl _
  · intro s
    rw [hrel']
    show _ ++ ((accept env (reap env w)).incoming s ++ env.arrivals s)
      = (accept env (reap env w)).wrote s ++ env.arrivals s
    rw [hin, hwrote, ← List.append_assoc]
    exact congrArg (· ++ env.arrivals s) (hw.wrote_eq s)
  · rw [hrel']
    exact hw.size

theorem received_size (w : World) (s : SocketId) (n : Nat) (h : received w s n ≠ []) :
    1 ≤ (received w s n).length ∧ (received w s n).length ≤ maxMessageLength := by
  refine ⟨?_, ?_⟩
  · exact List.length_pos_iff.mpr h
  · exact Nat.le_trans (List.length_take_le _ _) (Nat.min_le_right _ _)

/-- **One ready socket**: its message goes to every held client, and to the end of the history. -/
theorem ordered_onReady {env : Env} (hdone : AllDone env) {s : SocketId} {w w' : World}
    (hw : Ordered w) (h : onReady env s w = some w') : Ordered w' := by
  rcases onReady_cases h with rfl | rfl | ⟨n, out', _, hm, hfan, rfl⟩
  · exact hw
  · exact ⟨hw.out_eq, hw.out_new, hw.wrote_eq, hw.size⟩
  · obtain ⟨hin, hother⟩ := fanOut_spec _ _ _ w.sockets.nodup _ _ hfan
    refine ⟨?_, ?_, ?_, ?_⟩
    · intro r hr
      obtain ⟨hle, hout⟩ := hw.out_eq r hr
      have happ : out' r = w.out r ++ received w s n := by
        have hloop := hin r hr
        rw [sendLoop_done (hdone s r)] at hloop
        exact (Option.some.inj hloop).symm
      refine ⟨?_, ?_⟩
      · show w.since r ≤ (w.relayed ++ [(s, received w s n)]).length
        rw [List.length_append]
        omega
      · show out' r = bytes ((w.relayed ++ [(s, received w s n)]).drop (w.since r))
        rw [List.drop_append_of_le_length hle, bytes_append, bytes_single, happ, hout]
    · intro r hr
      have hnot : some r ∉ w.sockets.cells := fun hmem =>
        Nat.lt_irrefl _ (Nat.lt_of_lt_of_le (w.fresh r hmem) hr)
      show out' r = []
      rw [hother r hnot]
      exact hw.out_new r hr
    · intro q
      show bytes (sentBy q (w.relayed ++ [(s, received w s n)])) ++
        Function.update w.incoming s ((w.incoming s).drop (received w s n).length) q = w.wrote q
      rw [bytes_sentBy_snoc, ← hw.wrote_eq q, List.append_assoc]
      congr 1
      by_cases hq : s = q
      · subst hq
        rw [if_pos rfl, Function.update_self]
        exact List.prefix_iff_eq_append.mp (List.take_prefix _ _)
      · rw [if_neg hq, Function.update_of_ne (Ne.symm hq)]
        rfl
    · intro c hc
      rcases List.mem_append.mp hc with hc | hc
      · exact hw.size c hc
      · obtain rfl : c = (s, received w s n) := List.mem_singleton.mp hc
        exact received_size w s n hm

theorem ordered_iteration {env : Env} (hdone : AllDone env) {w w' : World} (hw : Ordered w)
    (h : iteration w env = some w') : Ordered w' :=
  iteration_inv Ordered (ordered_beforeSelect env hw)
    (fun _ _ _ _ hv hstep => ordered_onReady hdone hv hstep) h

theorem ordered_serve (envs : List Env) (hdone : ∀ env ∈ envs, AllDone env) (w : World)
    (h : serve envs = some w) : Ordered w :=
  Runs.exec_inv iteration AllDone Ordered (fun _ _ _ hd hv hstep => ordered_iteration hd hv hstep)
    envs hdone start ordered_start w h

/-! ## what a run adds to the history -/

/-- `w` comes after `v`: more messages, and nobody's acceptance has moved -/
def Later (v w : World) : Prop :=
  v.relayed <+: w.relayed ∧ v.accepted ≤ w.accepted ∧ ∀ r, r < v.accepted → w.since r = v.since r

theorem later_iteration {env : Env} {u v w : World} (hu : Later u v)
    (h : iteration v env = some w) : Later u w := by
  obtain ⟨hrel, hacc, hsince⟩ := hu
  have hacc' : v.accepted ≤ (beforeSelect env v).accepted := by
    rw [beforeSelect_accepted]
    split
    · exact Nat.le_succ _
    · exact Nat.le_refl _
  refine iteration_inv (Later u) ⟨?_, Nat.le_trans hacc hacc', ?_⟩ ?_ h
  · show u.relayed <+: (accept env (reap env v)).relayed
    rw [(accept_streams env (reap env v)).2.2.2.1]
    exact hrel
  · intro r hr
    rw [← hsince r hr]
    show (accept env (reap env v)).since r = v.since r
    cases ha : env.acceptDone with
    | false =>
      rw [accept_false env _ ha]
      rfl
    | true =>
      have hne : r ≠ (reap env v).accepted := Nat.ne_of_lt (Nat.lt_of_lt_of_le hr hacc)
      rw [(accept_true env _ ha).2.2.2.2, Function.update_of_ne hne]
      rfl
  · intro s x x' _ hx hstep
    rcases onReady_cases hstep with rfl | rfl | ⟨n, out', _, _, _, rfl⟩
    · exact hx
    · exact hx
    · exact ⟨hx.1.trans (List.prefix_append _ _), hx.2⟩

theorem later_exec (envs : List Env) (v w : World) (h : Runs.exec iteration v envs = some w) :
    Later v w :=
  Runs.exec_inv iteration (fun _ => True) (Later v)
    (fun _ _ _ _ hu hstep => later_iteration hu hstep) envs (fun _ _ => trivial) v
    ⟨List.prefix_refl _, Nat.le_refl _, fun _ _ => rfl⟩ w h

/-! ## the streams of a run -/

/-- **Total order.**  With every send `Done` the loop runs through any inputs.  A held client has
been sent the messages since its acceptance, in processing order; any two clients held over an
interval got the same bytes in it; each peer's messages are a beginning of what it wrote: all that is
not waiting to be received any more. -/
theorem relay_total_order (envs : List Env) (hdone : ∀ env ∈ envs, AllDone env) :
    ∃ w, serve envs = some w ∧
      (∀ c ∈ w.relayed, 1 ≤ c.2.length ∧ c.2.length ≤ maxMessageLength) ∧
      (∀ r ∈ w.sockets, w.out r = bytes (w.relayed.drop (w.since r))) ∧
      (∀ s, bytes (sentBy s w.relayed) ++ w.incoming s = w.wrote s) ∧
      (∀ s, bytes (sentBy s w.relayed) <+: w.wrote s) ∧
      ∀ pre post, envs = pre ++ post → ∃ v, serve pre = some v ∧ v.relayed <+: w.relayed ∧
        ∀ r, r ∈ v.sockets → r ∈ w.sockets →
          w.out r = v.out r ++ bytes (w.relayed.drop v.relayed.length) := by
  obtain ⟨w, hw⟩ := Runs.exec_total iteration AllDone (fun v env hd => iteration_total hd v)
    envs hdone start
  have hord := ordered_serve envs hdone w hw
  refine ⟨w, hw, hord.size, fun r hr => (hord.out_eq r hr).2, hord.wrote_eq, fun s => ?_, ?_⟩
  · rw [← hord.wrote_eq s]
    exact List.prefix_append _ _
  · rintro pre post rfl
    obtain ⟨v, hv, hpost⟩ := Runs.exec_prefix hw
    obtain ⟨hrel, _, hsince⟩ := later_exec post v w hpost
    have hordv := ordered_serve pre (fun env henv => hdone env (List.mem_append_left _ henv)) v hv
    refine ⟨v, hv, hrel, fun r hrv hrw => ?_⟩
    obtain ⟨hle, hout⟩ := hordv.out_eq r hrv
    rw [(hord.out_eq r hrw).2, hsince r (v.fresh r hrv), hout]
    obtain ⟨new, hnew⟩ := hrel
    rw [← hnew, List.drop_append_of_le_length hle, bytes_append, List.drop_left]

/-- a client joins, whoever is there speaks, and the sends take everything -/
def talkEnv : Env :=
  { joinEnv with
    arrivals := fun s => if s = 0 then [7] else if s = 1 then [8] else []
    wait := true
    ready := fun _ => true
    recv := fun _ => .done 3
    send := fun _ _ => [.done] }

theorem allDone_talk : ∀ env ∈ [talkEnv, talkEnv, talkEnv], AllDone env := by
  intro env henv s r
  obtain rfl : env = talkEnv := by simpa using henv
  rfl

/-- The second client gets what the first one gets from its acceptance on. -/
theorem relay_total_order_talk : ∃ w, serve [talkEnv, talkEnv, talkEnv] = some w ∧
    w.out 0 = [7, 7, 8, 8, 7, 8] ∧ w.out 1 = [7, 8, 8, 7, 8] ∧ w.wrote 1 = [8, 8, 8] ∧
      bytes (sentBy 1 w.relayed) = [8, 8, 8] := by
  obtain ⟨w, hw, _, hout, hwrote, _, _⟩ := relay_total_order [talkEnv, talkEnv, talkEnv] allDone_talk
  refine ⟨w, hw, ?_, ?_, ?_, ?_⟩
  · rw [hout 0 (by cases hw; decide)]
    cases hw
    decide
  · rw [hout 1 (by cases hw; decide)]
    cases hw
    decide
  · rw [← hwrote 1]
    cases hw
    decide
  · cases hw
    decide

end Relay
