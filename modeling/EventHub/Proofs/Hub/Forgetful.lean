import EventHub.Proofs.Hub.Outcome
import Mathlib.Logic.Relation
set_option autoImplicit false

namespace EventHub.Hub

def forgetful (h : Hub) : Hub := { h with cached := none }

def scanHead (ask : Ask) (flag : Flag) (h : Hub) (woke : Bool) (head : Entry) (rest : List Entry)
    (sink : Nat) (canonical : Path) : (Pause × Bool) × Hub × Flag :=
  if sink = ask.sink ∧ ask.mask.accepts canonical then
    let fetch := Fetch.delivered { head.event with id := canonical }
    if ask.take then
      ((.answer fetch, true), { h with queue := rest, delivered := h.delivered + 1 }, flag)
    else ((.answer fetch, woke), { h with queue := head :: rest }, flag)
  else if ask.mode = .block then ((.onQueue, woke), { h with queue := head :: rest }, flag)
  else ((.answer (.pending .outOfSeq), woke), { h with queue := head :: rest }, flag)

def scanQueue (ask : Ask) (flag : Flag) (h : Hub) (woke : Bool) :
    List Entry → (Pause × Bool) × Hub × Flag
  | [] =>
    ((idlePause ask.mode (flag.clear h.bit), woke), { h with queue := [] }, flag.clear h.bit)
  | head :: rest =>
    match h.route head.event.id with
    | none => scanQueue ask flag { h with dropped := h.dropped + 1 } true rest
    | some (sink, canonical) => scanHead ask flag h woke head rest sink canonical

/-- A call of a hub that remembers nobody, from its start or from its waking, to its next pause. The second
component says whether it woke those who sleep on the queue. -/
def scan (ask : Ask) (h : Hub) (flag : Flag) : (Pause × Bool) × Hub × Flag :=
  if h.running then scanQueue ask flag h false h.queue
  else ((.answer (.pending .closed), false), h, flag)

theorem scanQueue_refused (ask : Ask) (flag : Flag) {h : Hub} {lost : List Entry} (hl : h.Refuses lost)
    (woke : Bool) (rest : List Entry) :
    scanQueue ask flag h woke (lost ++ rest) =
      scanQueue ask flag { h with dropped := h.dropped + lost.length } (woke || !lost.isEmpty) rest := by
  induction lost generalizing h woke with
  | nil => simp
  | cons e lost ih =>
    have he : h.route e.event.id = none := hl e List.mem_cons_self
    have hl' : Refuses { h with dropped := h.dropped + 1 } lost :=
      fun x hx => hl x (List.mem_cons_of_mem e hx)
    rw [List.cons_append, scanQueue, he]
    dsimp only
    rw [ih hl' true]
    simp [Nat.add_assoc, Nat.add_comm 1]

theorem scan_eq_of_finds {ask : Ask} {flag : Flag} {h : Hub} {lost rest : List Entry} {head : Entry}
    {sink : Nat} {canonical : Path} (f : h.Finds lost head rest sink canonical) :
    h.forgetful.scan ask flag =
      scanHead ask flag (h.shed lost h.queue none) (!lost.isEmpty) head rest sink canonical := by
  have hl : h.forgetful.Refuses lost := f.refused
  have ho : (h.shed lost h.queue none).route head.event.id = some (sink, canonical) := f.owner
  have hq := scanQueue_refused ask flag hl false (head :: rest)
  rw [Bool.false_or, show { h.forgetful with dropped := h.forgetful.dropped + lost.length } =
    h.shed lost h.queue none from rfl, scanQueue.eq_2, ho] at hq
  rw [scan, if_pos (show h.forgetful.running = true from f.running),
    show h.forgetful.queue = lost ++ head :: rest from f.queue]
  exact hq

theorem scan_eq_of_idle {ask : Ask} {flag : Flag} {h : Hub} (hr : h.running = true)
    (hl : h.Refuses h.queue) :
    h.forgetful.scan ask flag =
      ((idlePause ask.mode (flag.clear h.bit), !h.queue.isEmpty), h.shed h.queue [] none,
       flag.clear h.bit) := by
  have hl' : h.forgetful.Refuses h.queue := hl
  have hq := scanQueue_refused ask flag hl' false []
  rw [List.append_nil, Bool.false_or] at hq
  rw [scan, if_pos (show h.forgetful.running = true from hr)]
  exact hq

theorem noWait_patient : WaitMode.noWait ≠ .block := by decide

/-- What was remembered before a call makes no difference to one who takes no for an answer. -/
theorem Outcome.scan_eq {h : Hub} {flag : Flag} {ask : Ask} {scanned : Bool} {p : Pause} {t : Turn}
    (patient : ask.mode ≠ .block) (o : Outcome h flag ask scanned false p t) :
    h.forgetful.scan ask flag = ((p, t.woke), t.hub.forgetful, t.flag) := by
  cases o with
  | closed stopped => simp [scan, forgetful, stopped]
  | idle running refused => exact scan_eq_of_idle running refused
  | taken lost head rest sink canonical found wanted take =>
    have hw : sink = ask.sink ∧ ask.mask.accepts canonical = true := wanted
    rw [scan_eq_of_finds found, scanHead, if_pos hw, if_pos take]
    rfl
  | shown lost head rest sink canonical found wanted take =>
    have hw : sink = ask.sink ∧ ask.mask.accepts canonical = true := wanted
    rw [scan_eq_of_finds found, scanHead, if_pos hw, if_neg (by simp [take])]
    rfl
  | held lost head rest sink canonical found unwanted insists => exact absurd insists patient
  | sentAway lost head rest sink canonical found unwanted =>
    have hw : ¬ (sink = ask.sink ∧ ask.mask.accepts canonical = true) := unwanted
    rw [scan_eq_of_finds found, scanHead, if_neg hw, if_neg patient]
    rfl

theorem Coherent.scan_eq {h : Hub} (hc : h.Coherent) (flag : Flag) {ask : Ask} (patient : ask.mode ≠ .block)
    (scanned : Bool) :
    h.forgetful.scan ask flag =
      (((h.dispatch flag ask scanned).1, (h.dispatch flag ask scanned).2.woke),
       (h.dispatch flag ask scanned).2.hub.forgetful, (h.dispatch flag ask scanned).2.flag) :=
  (dispatch_outcome hc flag ask scanned).scan_eq patient

/-- A turn after which the call goes on threw away a head that nobody wanted, so nothing was remembered. -/
theorem Coherent.again {ask : Ask} {t t' : Turn} (hc : t.hub.Coherent) (ht : turn ask t = .again t') :
    t'.hub.Coherent := by
  obtain ⟨h, flag, scanned, woke⟩ := t
  cases hr : h.running with
  | false => simp [turn, hr] at ht
  | true =>
    cases hq : h.queue with
    | nil =>
      rw [turn_of_nil hc hr hq] at ht
      cases ht
    | cons head rest =>
      cases ho : h.route head.event.id with
      | some o =>
        obtain ⟨sink, canonical⟩ := o
        obtain ⟨p, u, hp, -⟩ := answerHead_outcome flag ask scanned woke hq hr ho
        rw [turn_of_owner hc hr hq ho, hp] at ht
        cases ht
      | none =>
        rw [turn_of_refused hc hr hq ho] at ht
        cases ht
        exact coherent_of_cached_eq_none (hc.cached_eq_none_of_route hq ho)

/-- There is never anything stale to forget, in no turn of a call. -/
theorem Coherent.forgetStale_eq_of_turns {ask : Ask} {t t' : Turn} (hc : t.hub.Coherent)
    (ht : Relation.ReflTransGen (fun a b => turn ask a = .again b) t t') :
    t'.hub.forgetStale = t'.hub := by
  have h : t'.hub.Coherent := by
    induction ht with
    | refl => exact hc
    | tail _ hlast ih => exact ih.again hlast
  exact h.forgetStale_eq

structure Numbered (h : Hub) : Prop where
  increasing : h.queue.Pairwise fun a b => a.seq < b.seq
  below : ∀ e ∈ h.queue, e.seq < h.nextSeq

theorem Numbered.of_suffix {h h' : Hub} (hn : h.Numbered) (hs : h'.queue <:+ h.queue)
    (he : h'.nextSeq = h.nextSeq) : h'.Numbered where
  increasing := hn.increasing.sublist hs.sublist
  below e hm := he ▸ hn.below e (hs.subset hm)

theorem Numbered.publish {h : Hub} (hn : h.Numbered) (flag : Flag) (e : Event) :
    (h.publish flag e).2.1.Numbered := by
  unfold Hub.publish
  split
  · constructor
    · rw [List.pairwise_append]
      refine ⟨hn.increasing, List.pairwise_singleton _ _, fun a ha b hb => ?_⟩
      rw [List.mem_singleton.1 hb]
      exact hn.below a ha
    · intro a ha
      rcases List.mem_append.1 ha with ha | ha
      · exact Nat.lt_succ_of_lt (hn.below a ha)
      · rw [List.mem_singleton.1 ha]
        exact Nat.lt_succ_self _
  · exact hn

theorem Outcome.queue_suffix {h : Hub} {flag : Flag} {ask : Ask} {scanned woke : Bool} {p : Pause} {t : Turn}
    (o : Outcome h flag ask scanned woke p t) : t.hub.queue <:+ h.queue ∧ t.hub.nextSeq = h.nextSeq := by
  have hfound : ∀ {lost head rest sink canonical}, h.Finds lost head rest sink canonical →
      head :: rest <:+ h.queue := fun {lost _ _ _ _} f => ⟨lost, f.queue.symm⟩
  cases o with
  | closed => exact ⟨List.suffix_refl _, rfl⟩
  | idle => exact ⟨List.nil_suffix, rfl⟩
  | taken lost head rest sink canonical found =>
    exact ⟨(List.suffix_cons head rest).trans (hfound found), rfl⟩
  | shown lost head rest sink canonical found => exact ⟨hfound found, rfl⟩
  | held lost head rest sink canonical found => exact ⟨hfound found, rfl⟩
  | sentAway lost head rest sink canonical found => exact ⟨hfound found, rfl⟩

theorem Outcome.running {h : Hub} {flag : Flag} {ask : Ask} {scanned woke : Bool} {p : Pause} {t : Turn}
    (o : Outcome h flag ask scanned woke p t) : t.hub.running = h.running := by cases o <;> rfl

theorem Outcome.bit {h : Hub} {flag : Flag} {ask : Ask} {scanned woke : Bool} {p : Pause} {t : Turn}
    (o : Outcome h flag ask scanned woke p t) : t.hub.bit = h.bit := by cases o <;> rfl

end EventHub.Hub
