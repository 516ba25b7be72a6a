import EventHub.Hub.Dispatch
set_option autoImplicit false

namespace EventHub

def Ask.look (ask : Ask) : Ask := { ask with take := false }

namespace Hub

structure Took (e : Event) (looked taken : Hub) : Prop where
  queue : ∃ head, looked.queue = head :: taken.queue ∧ e = { head.event with id := e.id }
  delivered : taken.delivered = looked.delivered + 1
  dropped : taken.dropped = looked.dropped

/-- How two calls stand beside each other that came to the same pause. -/
def Beside (looked taken : Turn) : Pause → Prop
  | .answer (.delivered e) => Took e looked.hub taken.hub
  | _ => taken.hub = looked.hub

theorem beside_idle (mode : WaitMode) (t : Turn) :
    (∃ t', waitForEntries mode t = .again t') ∨
      ∃ p t', waitForEntries mode t = .pause p t' ∧ Beside t' t' p := by
  unfold waitForEntries
  dsimp only
  split
  · exact .inr ⟨_, _, rfl, rfl⟩
  · exact .inr ⟨_, _, rfl, rfl⟩
  · exact .inr ⟨_, _, rfl, rfl⟩
  · split
    · exact .inl ⟨_, rfl⟩
    · exact .inr ⟨_, _, rfl, rfl⟩
    · exact .inr ⟨_, _, rfl, rfl⟩

theorem answerHead_look {ask : Ask} (ht : ask.take = true) (fromCache : Bool) (a : Assignment)
    {head : Entry} {rest : List Entry} {t : Turn} (hq : t.hub.queue = head :: rest) :
    ∃ p taken looked, answerHead ask fromCache a head rest t = .pause p taken ∧
      answerHead ask.look fromCache a head rest t = .pause p looked ∧ Beside looked taken p := by
  by_cases hw : a.sink = ask.sink ∧ ask.mask.accepts a.canonical = true
  · refine ⟨.answer (.delivered { head.event with id := a.canonical }),
      { t with
        hub := { t.hub with cached := none, queue := rest, delivered := t.hub.delivered + 1 }
        woke := true }, t, ?_, ?_, ⟨head, hq, rfl⟩, rfl, rfl⟩
    · rw [answerHead, if_pos hw]
      simp [ht]
    · rw [answerHead, if_pos (show a.sink = ask.look.sink ∧ ask.look.mask.accepts a.canonical from hw)]
      simp [Ask.look]
  · by_cases hb : ask.mode = .block ∧ fromCache = false
    · refine ⟨.onQueue, t, t, ?_, ?_, rfl⟩
      · rw [answerHead, if_neg hw, if_pos hb]
      · rw [answerHead, if_neg (show ¬ (a.sink = ask.look.sink ∧ ask.look.mask.accepts a.canonical) from hw),
          if_pos (show ask.look.mode = .block ∧ fromCache = false from hb)]
    · refine ⟨.answer (.pending .outOfSeq), t, t, ?_, ?_, rfl⟩
      · rw [answerHead, if_neg hw, if_neg hb]
      · rw [answerHead, if_neg (show ¬ (a.sink = ask.look.sink ∧ ask.look.mask.accepts a.canonical) from hw),
          if_neg (show ¬ (ask.look.mode = .block ∧ fromCache = false) from hb)]

/-- One turn of each from the same place: both go on from the same place, or both pause. -/
theorem turn_look {ask : Ask} (ht : ask.take = true) (t : Turn) :
    (∃ t', turn ask t = .again t' ∧ turn ask.look t = .again t') ∨
      ∃ p taken looked, turn ask t = .pause p taken ∧ turn ask.look t = .pause p looked ∧
        Beside looked taken p := by
  rw [turn, turn]
  cases hr : t.hub.running with
  | false => exact .inr ⟨_, _, _, rfl, rfl, rfl⟩
  | true =>
    simp only [if_true]
    cases hq : t.hub.forgetStale.queue with
    | nil =>
      rcases beside_idle ask.mode { t with hub := t.hub.forgetStale, scanned := true } with
        ⟨t', h⟩ | ⟨p, t', h, hb⟩
      · exact .inl ⟨t', h, h⟩
      · exact .inr ⟨p, t', t', h, h, hb⟩
    | cons head rest =>
      cases hc : t.hub.forgetStale.cached with
      | some a => exact .inr (answerHead_look ht _ a hq)
      | none =>
        cases ho : t.hub.forgetStale.route head.event.id with
        | some o =>
          simp only [ho]
          exact .inr (answerHead_look ht _ _ rfl)
        | none =>
          simp only [ho]
          exact .inl ⟨_, rfl, rfl⟩

theorem turns_look {ask : Ask} (ht : ask.take = true) (fuel : Nat) (t : Turn) :
    turns ask fuel t = none ∧ turns ask.look fuel t = none ∨
      ∃ p taken looked, turns ask fuel t = some (p, taken) ∧ turns ask.look fuel t = some (p, looked) ∧
        Beside looked taken p := by
  induction fuel generalizing t with
  | zero => exact .inl ⟨rfl, rfl⟩
  | succ fuel ih =>
    rcases turn_look ht t with ⟨t', h, h'⟩ | ⟨p, taken, looked, h, h', hb⟩
    · rw [turns, turns, h, h']
      exact ih t'
    · exact .inr ⟨p, taken, looked, by rw [turns, h], by rw [turns, h'], hb⟩

/-- A call that looks comes to the same answer as one that takes, and what was taken it still sees. -/
theorem dispatch_look (h : Hub) (flag : Flag) {ask : Ask} (ht : ask.take = true) (scanned : Bool) :
    (h.dispatch flag ask.look scanned).1 = (h.dispatch flag ask scanned).1 ∧
      Beside (h.dispatch flag ask.look scanned).2 (h.dispatch flag ask scanned).2
        (h.dispatch flag ask scanned).1 := by
  rw [dispatch, dispatch]
  rcases turns_look ht (h.queue.length + 1) ⟨h, flag, scanned, false⟩ with
    ⟨hn, hn'⟩ | ⟨p, taken, looked, hs, hs', hb⟩
  · rw [hn, hn']
    exact ⟨rfl, rfl⟩
  · rw [hs, hs']
    exact ⟨rfl, hb⟩

end Hub
end EventHub
