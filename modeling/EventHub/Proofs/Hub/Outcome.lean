import EventHub.Hub.Dispatch
set_option autoImplicit false

/-!
What one call of a hub comes to. As long as the cached assignment is the one that routing the head would
give, the turns of a call do nothing but throw away the entries in front that no sink takes; then the call
either finds nothing, or an entry that belongs to somebody. `Outcome` lists the ends that this can have.
-/
namespace EventHub

/-- The sink at this place is the first that takes an id, and gives it this name. -/
structure IsOwner (sinks : List Sink) (id : Path) (index : Nat) (canonical : Path) : Prop where
  takes : ∃ s, sinks[index]? = some s ∧ s.accept id = some canonical
  first : ∀ j < index, ∀ s, sinks[j]? = some s → s.accept id = none

theorem IsOwner.lt {sinks : List Sink} {id canonical : Path} {k : Nat} (h : IsOwner sinks id k canonical) :
    k < sinks.length := by
  obtain ⟨s, hs, -⟩ := h.takes
  exact (List.getElem?_eq_some_iff.1 hs).1

def Ask.Wants (ask : Ask) (sink : Nat) (canonical : Path) : Prop :=
  sink = ask.sink ∧ ask.mask.accepts canonical = true

theorem not_isOwner_nil {id c : Path} {k : Nat} : ¬ IsOwner [] id k c := by
  intro ho
  obtain ⟨s, hs, -⟩ := ho.takes
  simp at hs

theorem isOwner_cons_zero {s : Sink} {ss : List Sink} {id c : Path} :
    IsOwner (s :: ss) id 0 c ↔ s.accept id = some c := by
  constructor
  · intro ho
    obtain ⟨t, ht, hc⟩ := ho.takes
    cases ht
    exact hc
  · intro h
    exact ⟨⟨s, rfl, h⟩, fun j hj => by omega⟩

theorem isOwner_cons_succ {s : Sink} {ss : List Sink} {id c : Path} {k : Nat} :
    IsOwner (s :: ss) id (k + 1) c ↔ s.accept id = none ∧ IsOwner ss id k c := by
  constructor
  · intro ho
    exact ⟨ho.first 0 (by omega) s rfl, ho.takes, fun j hj t ht => ho.first (j + 1) (by omega) t ht⟩
  · rintro ⟨hs, ho⟩
    refine ⟨ho.takes, fun j hj t ht => ?_⟩
    cases j with
    | zero =>
      cases ht
      exact hs
    | succ j => exact ho.first j (by omega) t ht

namespace Hub

theorem routeFrom_eq_none_iff {index : Nat} {id : Path} {ss : List Sink} :
    routeFrom index id ss = none ↔ ∀ s ∈ ss, s.accept id = none := by
  induction ss generalizing index with
  | nil => simp [routeFrom]
  | cons s ss ih =>
    rw [routeFrom]
    cases hs : s.accept id with
    | none => simp [hs, ih]
    | some c => simp [hs]

theorem routeFrom_eq_some_iff {index i : Nat} {id c : Path} {ss : List Sink} :
    routeFrom index id ss = some (i, c) ↔ ∃ k, i = index + k ∧ IsOwner ss id k c := by
  induction ss generalizing index with
  | nil =>
    constructor
    · intro h
      cases h
    · rintro ⟨k, -, ho⟩
      exact absurd ho not_isOwner_nil
  | cons s ss ih =>
    rw [routeFrom]
    cases hs : s.accept id with
    | some d =>
      constructor
      · intro h
        cases h
        exact ⟨0, rfl, isOwner_cons_zero.2 hs⟩
      · rintro ⟨k, rfl, ho⟩
        cases k with
        | zero =>
          rw [isOwner_cons_zero, hs] at ho
          cases ho
          rfl
        | succ k =>
          rw [isOwner_cons_succ, hs] at ho
          cases ho.1
    | none =>
      simp only [ih]
      constructor
      · rintro ⟨k, rfl, ho⟩
        exact ⟨k + 1, by omega, isOwner_cons_succ.2 ⟨hs, ho⟩⟩
      · rintro ⟨k, rfl, ho⟩
        cases k with
        | zero =>
          rw [isOwner_cons_zero, hs] at ho
          cases ho
        | succ k => exact ⟨k, by omega, (isOwner_cons_succ.1 ho).2⟩

theorem route_eq_some_iff {h : Hub} {id c : Path} {i : Nat} :
    h.route id = some (i, c) ↔ IsOwner h.sinks id i c := by
  rw [route, routeFrom_eq_some_iff]
  constructor
  · rintro ⟨k, hk, ho⟩
    rw [Nat.zero_add] at hk
    exact hk ▸ ho
  · intro ho
    exact ⟨i, by omega, ho⟩

theorem route_eq_none_iff {h : Hub} {id : Path} :
    h.route id = none ↔ ∀ s ∈ h.sinks, s.accept id = none := routeFrom_eq_none_iff

theorem route_addSink {h : Hub} {id : Path} {o : Nat × Path} (s : Sink) (hr : h.route id = some o) :
    (h.addSink s).2.route id = some o := by
  rw [route] at hr
  simp only [addSink, route, routeFrom_append, hr, Option.some_or]

/-- The cached assignment, if there is one, is what routing the head gives. -/
def Coherent (h : Hub) : Prop :=
  ∀ a, h.cached = some a → ∃ head rest,
    h.queue = head :: rest ∧ a.seq = head.seq ∧ h.route head.event.id = some (a.sink, a.canonical)

theorem coherent_of_cached_eq_none {h : Hub} (hc : h.cached = none) : h.Coherent := by
  intro a ha
  rw [hc] at ha
  cases ha

theorem Coherent.forgetStale_eq {h : Hub} (hc : h.Coherent) : h.forgetStale = h := by
  unfold forgetStale
  cases ha : h.cached with
  | none => rfl
  | some a =>
    obtain ⟨head, rest, hq, hs, -⟩ := hc a ha
    simp [hq, hs]

theorem Coherent.addSink {h : Hub} (hc : h.Coherent) (s : Sink) : (h.addSink s).2.Coherent := by
  intro a ha
  obtain ⟨head, rest, hq, hs, hr⟩ := hc a ha
  exact ⟨head, rest, hq, hs, route_addSink s hr⟩

theorem Coherent.publish {h : Hub} (hc : h.Coherent) (flag : Flag) (e : Event) :
    (h.publish flag e).2.1.Coherent := by
  unfold Hub.publish
  split
  · intro a ha
    obtain ⟨head, rest, hq, hs, hr⟩ := hc a ha
    exact ⟨head, rest ++ [⟨h.nextSeq, e⟩], by simp [hq], hs, hr⟩
  · exact hc

theorem Coherent.stop {h : Hub} (hc : h.Coherent) (flag : Flag) : (h.stop flag).1.Coherent := by
  unfold Hub.stop
  split
  · exact hc
  · exact hc

def idlePause (mode : WaitMode) (flag : Flag) : Pause :=
  match mode with
  | .block => .onQueue
  | .noWait => .answer (.pending (if flag.isRaised then .outOfSeq else .wait))
  | .wait =>
    if flag.isRaised then .answer (.pending .outOfSeq)
    else if flag.asyncCount = 0 then .answer (.pending .error) else .onFlag

def shed (h : Hub) (lost rest : List Entry) (cached : Option Assignment) : Hub :=
  { h with queue := rest, cached := cached, dropped := h.dropped + lost.length }

def Refuses (h : Hub) (lost : List Entry) : Prop := ∀ e ∈ lost, h.route e.event.id = none

structure Finds (h : Hub) (lost : List Entry) (head : Entry) (rest : List Entry) (sink : Nat)
    (canonical : Path) : Prop where
  running : h.running = true
  queue : h.queue = lost ++ head :: rest
  refused : h.Refuses lost
  owner : h.route head.event.id = some (sink, canonical)

def facing (h : Hub) (lost : List Entry) (head : Entry) (rest : List Entry) (sink : Nat)
    (canonical : Path) : Hub :=
  h.shed lost (head :: rest) (some ⟨head.seq, sink, canonical⟩)

/-- The ends of a call on a hub: where it pauses, and where things stand then. `woke` says whether it woke
anybody before it came here. -/
inductive Outcome (h : Hub) (flag : Flag) (ask : Ask) (scanned woke : Bool) : Pause → Turn → Prop where
  | closed (stopped : h.running = false) :
      Outcome h flag ask scanned woke (.answer (.pending .closed)) ⟨h, flag, scanned, woke⟩
  | idle (running : h.running = true) (refused : h.Refuses h.queue) :
      Outcome h flag ask scanned woke (idlePause ask.mode (flag.clear h.bit))
        ⟨h.shed h.queue [] none, flag.clear h.bit, true, woke || !h.queue.isEmpty⟩
  | taken (lost : List Entry) (head : Entry) (rest : List Entry) (sink : Nat) (canonical : Path)
      (found : h.Finds lost head rest sink canonical) (wanted : ask.Wants sink canonical)
      (take : ask.take = true) :
      Outcome h flag ask scanned woke (.answer (.delivered { head.event with id := canonical }))
        ⟨{ h.shed lost rest none with delivered := h.delivered + 1 }, flag, true, true⟩
  | shown (lost : List Entry) (head : Entry) (rest : List Entry) (sink : Nat) (canonical : Path)
      (found : h.Finds lost head rest sink canonical) (wanted : ask.Wants sink canonical)
      (take : ask.take = false) :
      Outcome h flag ask scanned woke (.answer (.delivered { head.event with id := canonical }))
        ⟨h.facing lost head rest sink canonical, flag, true, woke || !lost.isEmpty⟩
  | held (lost : List Entry) (head : Entry) (rest : List Entry) (sink : Nat) (canonical : Path)
      (found : h.Finds lost head rest sink canonical) (unwanted : ¬ ask.Wants sink canonical)
      (insists : ask.mode = .block) (fresh : h.cached = none ∨ scanned = true) :
      Outcome h flag ask scanned woke .onQueue
        ⟨h.facing lost head rest sink canonical, flag, true, woke || !lost.isEmpty⟩
  | sentAway (lost : List Entry) (head : Entry) (rest : List Entry) (sink : Nat) (canonical : Path)
      (found : h.Finds lost head rest sink canonical) (unwanted : ¬ ask.Wants sink canonical)
      (yields : ask.mode = .block → h.cached ≠ none ∧ scanned = false) :
      Outcome h flag ask scanned woke (.answer (.pending .outOfSeq))
        ⟨h.facing lost head rest sink canonical, flag, true, woke || !lost.isEmpty⟩

theorem waitForEntries_eq (mode : WaitMode) (t : Turn) :
    waitForEntries mode t =
      .pause (idlePause mode (t.flag.clear t.hub.bit)) { t with flag := t.flag.clear t.hub.bit } := by
  cases hr : (t.flag.clear t.hub.bit).isRaised with
  | true => cases mode <;> simp [waitForEntries, idlePause, hr]
  | false =>
    cases mode with
    | noWait => simp [waitForEntries, idlePause, hr]
    | block => simp [waitForEntries, idlePause]
    | wait =>
      by_cases ha : (t.flag.clear t.hub.bit).asyncCount = 0
      · simp [waitForEntries, idlePause, Flag.wait, hr, ha]
      · simp [waitForEntries, idlePause, Flag.wait, hr, ha]

/-- A refused entry in front is thrown away, and the end is that of a call that looked before. -/
theorem Outcome.cons {h : Hub} {flag : Flag} {ask : Ask} {scanned woke : Bool} {e : Entry}
    {es : List Entry} {p : Pause} {t : Turn} (hq : h.queue = e :: es) (hr : h.running = true)
    (he : h.route e.event.id = none) (hc : h.cached = none)
    (o : Outcome { h with queue := es, dropped := h.dropped + 1 } flag ask true true p t) :
    Outcome h flag ask scanned woke p t := by
  -- one entry more was lost, and the rest of the outcome is that of the hub without it
  have hlost : ∀ lost : List Entry, h.dropped + 1 + lost.length = h.dropped + (e :: lost).length := by
    intro lost
    rw [List.length_cons]
    omega
  have hrefuses : ∀ lost : List Entry,
      Refuses { h with queue := es, dropped := h.dropped + 1 } lost → h.Refuses (e :: lost) := by
    intro lost hl x hx
    rcases List.mem_cons.1 hx with rfl | hx
    · exact he
    · exact hl x hx
  have hfinds : ∀ {lost head rest sink canonical},
      Finds { h with queue := es, dropped := h.dropped + 1 } lost head rest sink canonical →
        h.Finds (e :: lost) head rest sink canonical := by
    intro lost head rest sink canonical f
    exact ⟨hr, by rw [hq, List.cons_append, ← f.queue], hrefuses lost f.refused, f.owner⟩
  cases o with
  | closed stopped => rw [hr] at stopped; cases stopped
  | idle running refused =>
    have o : Outcome h flag ask scanned woke _ _ := .idle running (by rw [hq]; exact hrefuses es refused)
    simpa only [shed, hq, hlost, List.isEmpty_cons, Bool.not_false, Bool.or_true, Bool.true_or] using o
  | taken lost head rest sink canonical found wanted take =>
    have o : Outcome h flag ask scanned woke _ _ := .taken _ _ _ _ _ (hfinds found) wanted take
    simpa only [shed, hlost] using o
  | shown lost head rest sink canonical found wanted take =>
    have o : Outcome h flag ask scanned woke _ _ := .shown _ _ _ _ _ (hfinds found) wanted take
    simpa only [facing, shed, hlost, List.isEmpty_cons, Bool.not_false, Bool.or_true, Bool.true_or] using o
  | held lost head rest sink canonical found unwanted insists fresh =>
    have o : Outcome h flag ask scanned woke _ _ :=
      .held _ _ _ _ _ (hfinds found) unwanted insists (.inl hc)
    simpa only [facing, shed, hlost, List.isEmpty_cons, Bool.not_false, Bool.or_true, Bool.true_or] using o
  | sentAway lost head rest sink canonical found unwanted yields =>
    have o : Outcome h flag ask scanned woke _ _ :=
      .sentAway _ _ _ _ _ (hfinds found) unwanted (fun hb => absurd (yields hb).2 (by simp))
    simpa only [facing, shed, hlost, List.isEmpty_cons, Bool.not_false, Bool.or_true, Bool.true_or] using o

theorem answerHead_outcome {h : Hub} (flag : Flag) (ask : Ask) (scanned woke : Bool) {head : Entry}
    {rest : List Entry} {sink : Nat} {canonical : Path} (hq : h.queue = head :: rest)
    (hr : h.running = true) (ho : h.route head.event.id = some (sink, canonical)) :
    ∃ p t, answerHead ask (h.cached.isSome && !scanned) ⟨head.seq, sink, canonical⟩ head rest
        ⟨{ h with cached := some ⟨head.seq, sink, canonical⟩ }, flag, true, woke⟩ = .pause p t ∧
      Outcome h flag ask scanned woke p t := by
  have hfound : h.Finds [] head rest sink canonical := ⟨hr, hq, fun e he => absurd he (by simp), ho⟩
  have hfacing : h.facing [] head rest sink canonical =
      { h with cached := some ⟨head.seq, sink, canonical⟩ } := by
    simp [facing, shed, hq]
  by_cases hw : ask.Wants sink canonical
  · have hw' : sink = ask.sink ∧ ask.mask.accepts canonical = true := hw
    cases htake : ask.take with
    | true =>
      refine ⟨_, _, ?_, .taken _ _ _ _ _ hfound hw htake⟩
      rw [answerHead, if_pos hw']
      simp [htake, shed]
    | false =>
      refine ⟨_, _, ?_, .shown _ _ _ _ _ hfound hw htake⟩
      rw [answerHead, if_pos hw']
      simp [htake, hfacing]
  · have hw' : ¬ (sink = ask.sink ∧ ask.mask.accepts canonical = true) := hw
    by_cases hb : ask.mode = .block ∧ (h.cached.isSome && !scanned) = false
    · refine ⟨_, _, ?_, .held _ _ _ _ _ hfound hw hb.1 ?_⟩
      · rw [answerHead, if_neg hw', if_pos hb, hfacing]
        simp
      · cases hc : h.cached with
        | none => exact .inl rfl
        | some a => exact .inr (by simpa [hc] using hb.2)
    · refine ⟨_, _, ?_, .sentAway _ _ _ _ _ hfound hw ?_⟩
      · rw [answerHead, if_neg hw', if_neg hb, hfacing]
        simp
      · intro hm
        cases hc : h.cached with
        | none => simp [hm, hc] at hb
        | some a => exact ⟨by simp, by simpa [hm, hc] using hb⟩

theorem Coherent.cached_eq_none_of_nil {h : Hub} (hc : h.Coherent) (hq : h.queue = []) :
    h.cached = none := by
  cases ha : h.cached with
  | none => rfl
  | some a =>
    obtain ⟨head, rest, hq', -⟩ := hc a ha
    rw [hq] at hq'
    cases hq'

theorem Coherent.cached_eq_none_of_route {h : Hub} {head : Entry} {rest : List Entry} (hc : h.Coherent)
    (hq : h.queue = head :: rest) (ho : h.route head.event.id = none) : h.cached = none := by
  cases ha : h.cached with
  | none => rfl
  | some a =>
    obtain ⟨head', rest', hq', -, hr⟩ := hc a ha
    rw [hq] at hq'
    cases hq'
    rw [ho] at hr
    cases hr

theorem Coherent.eq_of_route {h : Hub} {head : Entry} {rest : List Entry} {sink : Nat} {canonical : Path}
    {a : Assignment} (hc : h.Coherent) (hq : h.queue = head :: rest)
    (ho : h.route head.event.id = some (sink, canonical)) (ha : h.cached = some a) :
    a = ⟨head.seq, sink, canonical⟩ := by
  obtain ⟨head', rest', hq', hs, hr⟩ := hc a ha
  rw [hq] at hq'
  cases hq'
  rw [ho] at hr
  cases a
  cases hr
  cases hs
  rfl

theorem turn_of_owner {h : Hub} {flag : Flag} {ask : Ask} {scanned woke : Bool} {head : Entry}
    {rest : List Entry} {sink : Nat} {canonical : Path} (hc : h.Coherent) (hr : h.running = true)
    (hq : h.queue = head :: rest) (ho : h.route head.event.id = some (sink, canonical)) :
    turn ask ⟨h, flag, scanned, woke⟩ =
      answerHead ask (h.cached.isSome && !scanned) ⟨head.seq, sink, canonical⟩ head rest
        ⟨{ h with cached := some ⟨head.seq, sink, canonical⟩ }, flag, true, woke⟩ := by
  have hs := hc.forgetStale_eq
  cases ha : h.cached with
  | none =>
    obtain ⟨name, bit, running, sinks, queue, nextSeq, cached, delivered, dropped⟩ := h
    subst hr hq ha
    simp only [turn, hs, if_true, ho]
  | some a =>
    have haa := hc.eq_of_route hq ho ha
    obtain ⟨name, bit, running, sinks, queue, nextSeq, cached, delivered, dropped⟩ := h
    subst hr hq ha haa
    simp only [turn, hs, if_true]

theorem turn_of_refused {h : Hub} {flag : Flag} {ask : Ask} {scanned woke : Bool} {head : Entry}
    {rest : List Entry} (hc : h.Coherent) (hr : h.running = true) (hq : h.queue = head :: rest)
    (ho : h.route head.event.id = none) :
    turn ask ⟨h, flag, scanned, woke⟩ =
      .again ⟨{ h with queue := rest, dropped := h.dropped + 1 }, flag, true, true⟩ := by
  have hs := hc.forgetStale_eq
  have ha := hc.cached_eq_none_of_route hq ho
  obtain ⟨name, bit, running, sinks, queue, nextSeq, cached, delivered, dropped⟩ := h
  subst hr hq ha
  simp only [turn, hs, if_true, ho]

theorem turn_of_nil {h : Hub} {flag : Flag} {ask : Ask} {scanned woke : Bool} (hc : h.Coherent)
    (hr : h.running = true) (hq : h.queue = []) :
    turn ask ⟨h, flag, scanned, woke⟩ =
      .pause (idlePause ask.mode (flag.clear h.bit)) ⟨h, flag.clear h.bit, true, woke⟩ := by
  have hs := hc.forgetStale_eq
  obtain ⟨name, bit, running, sinks, queue, nextSeq, cached, delivered, dropped⟩ := h
  subst hr hq
  simp only [turn, hs, if_true, waitForEntries_eq]

theorem turns_outcome (ask : Ask) (flag : Flag) (fuel : Nat) (h : Hub) (scanned woke : Bool)
    (hc : h.Coherent) (hf : h.queue.length < fuel) :
    ∃ p t, turns ask fuel ⟨h, flag, scanned, woke⟩ = some (p, t) ∧
      Outcome h flag ask scanned woke p t := by
  -- every turn that goes on has thrown the head of the queue away
  induction fuel generalizing h scanned woke with
  | zero => omega
  | succ fuel ih =>
    cases hr : h.running with
    | false => exact ⟨_, _, by simp [turns, turn, hr], .closed hr⟩
    | true =>
      cases hq : h.queue with
      | nil =>
        have o : Outcome h flag ask scanned woke _ _ := .idle hr
          (by simp [hq, Refuses])
        have hh : h.shed h.queue [] none = h := by
          simp only [shed, hq, List.length_nil, Nat.add_zero]
          rw [← hq, ← hc.cached_eq_none_of_nil hq]
        rw [hh, hq, List.isEmpty_nil, Bool.not_true, Bool.or_false] at o
        exact ⟨_, _, by rw [turns, turn_of_nil hc hr hq], o⟩
      | cons head rest =>
        cases ho : h.route head.event.id with
        | some o =>
          obtain ⟨sink, canonical⟩ := o
          obtain ⟨p, t, hp, ho'⟩ := answerHead_outcome flag ask scanned woke hq hr ho
          exact ⟨p, t, by rw [turns, turn_of_owner hc hr hq ho, hp], ho'⟩
        | none =>
          have hnone := hc.cached_eq_none_of_route hq ho
          obtain ⟨p, t, hp, ho'⟩ := ih { h with queue := rest, dropped := h.dropped + 1 } true true
            (coherent_of_cached_eq_none hnone) (by simp [hq] at hf; omega)
          refine ⟨p, t, ?_, ho'.cons hq hr ho hnone⟩
          rw [turns, turn_of_refused hc hr hq ho]
          exact hp

/-- The turns that a call may take suffice, and it ends as `Outcome` says. -/
theorem dispatch_outcome {h : Hub} (hc : h.Coherent) (flag : Flag) (ask : Ask) (scanned : Bool) :
    Outcome h flag ask scanned false (h.dispatch flag ask scanned).1 (h.dispatch flag ask scanned).2 := by
  obtain ⟨p, t, hp, ho⟩ := turns_outcome ask flag (h.queue.length + 1) h scanned false hc (by omega)
  have hd : h.dispatch flag ask scanned = (p, t) := by simp [dispatch, hp]
  rw [hd]
  exact ho

theorem Finds.coherent {h : Hub} {lost rest : List Entry} {head : Entry} {sink : Nat} {canonical : Path}
    (f : h.Finds lost head rest sink canonical) : (h.facing lost head rest sink canonical).Coherent := by
  intro a ha
  cases ha
  exact ⟨head, rest, rfl, rfl, f.owner⟩

theorem Outcome.coherent {h : Hub} {flag : Flag} {ask : Ask} {scanned woke : Bool} {p : Pause} {t : Turn}
    (hc : h.Coherent) (o : Outcome h flag ask scanned woke p t) : t.hub.Coherent := by
  cases o with
  | closed => exact hc
  | idle => exact coherent_of_cached_eq_none rfl
  | taken => exact coherent_of_cached_eq_none rfl
  | shown lost head rest sink canonical found => exact found.coherent
  | held lost head rest sink canonical found => exact found.coherent
  | sentAway lost head rest sink canonical found => exact found.coherent

theorem Coherent.dispatch {h : Hub} (hc : h.Coherent) (flag : Flag) (ask : Ask) (scanned : Bool) :
    (h.dispatch flag ask scanned).2.hub.Coherent := (dispatch_outcome hc flag ask scanned).coherent hc

end Hub
end EventHub
