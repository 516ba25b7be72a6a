import EventHub.Proofs.Flag
import EventHub.Proofs.Hub.Forgetful
set_option autoImplicit false

/-!
Hubs of which one has already thrown away what the other still has to. Whoever asks without insisting gets
the same answer from both, so it does not matter who came first to an event that belongs to nobody.
-/
namespace EventHub.Hub

/-- `h'` is `h` without the first entries, which no sink takes; their flags differ in the hub's bit at most,
and what the hubs remember is left out. -/
structure Ahead (h : Hub) (f : Flag) (h' : Hub) (f' : Flag) (lost : List Entry) : Prop where
  refused : h.Refuses lost
  queue : h.queue = lost ++ h'.queue
  hub : h'.forgetful = h.shed lost h'.queue none
  flag : f'.clear h.bit = f.clear h.bit

theorem Ahead.refl (h : Hub) (f : Flag) : Ahead h f h f [] where
  refused e he := by cases he
  queue := rfl
  hub := rfl
  flag := rfl

section Ahead

variable {h h' : Hub} {f f' : Flag} {lost : List Entry}

theorem Ahead.running (a : Ahead h f h' f' lost) : h'.running = h.running := by
  have hh := congrArg Hub.running a.hub
  exact hh

theorem Ahead.bit (a : Ahead h f h' f' lost) : h'.bit = h.bit := by
  have hh := congrArg Hub.bit a.hub
  exact hh

theorem Ahead.sinks (a : Ahead h f h' f' lost) : h'.sinks = h.sinks := by
  have hh := congrArg Hub.sinks a.hub
  exact hh

theorem Ahead.dropped (a : Ahead h f h' f' lost) : h'.dropped = h.dropped + lost.length := by
  have hh := congrArg Hub.dropped a.hub
  exact hh

theorem Ahead.delivered (a : Ahead h f h' f' lost) : h'.delivered = h.delivered := by
  have hh := congrArg Hub.delivered a.hub
  exact hh

theorem Ahead.refuses (a : Ahead h f h' f' lost) {more : List Entry} (hm : h'.Refuses more) :
    h.Refuses more := by
  intro e he
  have hr := hm e he
  rw [route, a.sinks] at hr
  exact hr

theorem Ahead.raise (a : Ahead h f h' f' lost) : Ahead h (f.raise h.bit) h' (f'.raise h'.bit) lost where
  refused := a.refused
  queue := a.queue
  hub := a.hub
  flag := by rw [a.bit, Flag.clear_raise, Flag.clear_raise, a.flag]

theorem Ahead.publish (a : Ahead h f h' f' lost) (e : Event) :
    (h'.publish f' e).1 = (h.publish f e).1 ∧
      Ahead (h.publish f e).2.1 (h.publish f e).2.2 (h'.publish f' e).2.1 (h'.publish f' e).2.2 lost := by
  have hflag := a.raise.flag
  obtain ⟨refused, queue, hub, flag⟩ := a
  obtain ⟨name, bit, running, sinks, q, nextSeq, cached, delivered, dropped⟩ := h
  obtain ⟨name', bit', running', sinks', q', nextSeq', cached', delivered', dropped'⟩ := h'
  simp only [forgetful, shed, Hub.mk.injEq] at hub
  obtain ⟨rfl, rfl, rfl, rfl, -, rfl, -, rfl, rfl⟩ := hub
  cases running' with
  | false => exact ⟨rfl, refused, queue, rfl, flag⟩
  | true =>
    subst queue
    exact ⟨rfl, refused, List.append_assoc _ _ _, rfl, hflag⟩

theorem Ahead.stop (a : Ahead h f h' f' lost) :
    Ahead (h.stop f).1 (h.stop f).2 (h'.stop f').1 (h'.stop f').2 lost := by
  have hflag := a.raise.flag
  obtain ⟨refused, queue, hub, flag⟩ := a
  obtain ⟨name, bit, running, sinks, q, nextSeq, cached, delivered, dropped⟩ := h
  obtain ⟨name', bit', running', sinks', q', nextSeq', cached', delivered', dropped'⟩ := h'
  simp only [forgetful, shed, Hub.mk.injEq] at hub
  obtain ⟨rfl, rfl, rfl, rfl, -, rfl, -, rfl, rfl⟩ := hub
  cases running' with
  | false => exact ⟨refused, queue, rfl, flag⟩
  | true => exact ⟨refused, queue, rfl, hflag⟩

theorem scanQueue_queue (ask : Ask) (f : Flag) (h : Hub) (woke : Bool) (q es : List Entry) :
    scanQueue ask f { h with queue := q } woke es = scanQueue ask f h woke es := by
  induction es generalizing h woke with
  | nil => rfl
  | cons e es ih =>
    rw [scanQueue, scanQueue, show route { h with queue := q } e.event.id = h.route e.event.id from rfl]
    split
    · exact ih { h with dropped := h.dropped + 1 } true
    · rfl

/-- Two scans come to the same in all but the hub's bit of the flag and who was woken. -/
structure Alike (bit : Nat) (r r' : (Pause × Bool) × Hub × Flag) : Prop where
  pause : r'.1.1 = r.1.1
  hub : r'.2.1 = r.2.1
  flag : r'.2.2.clear bit = r.2.2.clear bit

theorem alike_scanQueue (ask : Ask) {f f' : Flag} {h : Hub} (hf : f'.clear h.bit = f.clear h.bit)
    (woke woke' : Bool) (q : List Entry) :
    Alike h.bit (scanQueue ask f h woke q) (scanQueue ask f' h woke' q) := by
  induction q generalizing h woke woke' with
  | nil =>
    rw [scanQueue, scanQueue, hf]
    exact ⟨rfl, rfl, rfl⟩
  | cons e q ih =>
    rw [scanQueue, scanQueue]
    split
    · exact ih (h := { h with dropped := h.dropped + 1 }) hf true true
    · rw [scanHead, scanHead]
      split
      · cases ask.take <;> exact ⟨rfl, rfl, hf⟩
      · split <;> exact ⟨rfl, rfl, hf⟩

theorem Ahead.scan (a : Ahead h f h' f' lost) (hr : h.running = true) (ask : Ask) :
    Alike h.bit (h.forgetful.scan ask f) (h'.forgetful.scan ask f') := by
  have hl : h.forgetful.Refuses lost := a.refused
  have hq : h.forgetful.queue = lost ++ h'.queue := a.queue
  have hs : h.forgetful.scan ask f =
      scanQueue ask f (h.shed lost h'.queue none) (false || !lost.isEmpty) h'.queue := by
    rw [Hub.scan, if_pos (show h.forgetful.running = true from hr), hq, scanQueue_refused ask f hl,
      ← scanQueue_queue ask f _ _ h'.queue]
    rfl
  have hs' : h'.forgetful.scan ask f' = scanQueue ask f' (h.shed lost h'.queue none) false h'.queue := by
    rw [Hub.scan, if_pos (show h'.forgetful.running = true from a.running.trans hr), a.hub]
    rfl
  rw [hs, hs']
  exact alike_scanQueue ask (h := h.shed lost h'.queue none) a.flag _ _ _

theorem dispatch_of_stopped (hr : h.running = false) (f : Flag) (ask : Ask) (scanned : Bool) :
    h.dispatch f ask scanned = (.answer (.pending .closed), ⟨h, f, scanned, false⟩) := by
  simp [dispatch, turns, turn, hr]

/-- Whoever asks without insisting gets the same answer, and then what nobody wanted is gone from both. -/
theorem Ahead.ask (a : Ahead h f h' f' lost) (hc : h.Coherent) (hc' : h'.Coherent) (ask : Ask)
    (patient : ask.mode ≠ .block) :
    (h'.dispatch f' ask false).1 = (h.dispatch f ask false).1 ∧
      ∃ lost, Ahead (h.dispatch f ask false).2.hub (h.dispatch f ask false).2.flag
        (h'.dispatch f' ask false).2.hub (h'.dispatch f' ask false).2.flag lost := by
  cases hr : h.running with
  | false =>
    rw [dispatch_of_stopped hr, dispatch_of_stopped (a.running.trans hr)]
    exact ⟨rfl, lost, a⟩
  | true =>
    have hal := a.scan hr ask
    have hb := (dispatch_outcome hc f ask false).bit
    rw [hc.scan_eq f patient false, hc'.scan_eq f' patient false] at hal
    obtain ⟨hp, hh, hf⟩ := hal
    have hq : (h.dispatch f ask false).2.hub.queue = (h'.dispatch f' ask false).2.hub.queue := by
      have he := congrArg Hub.queue hh.symm
      exact he
    refine ⟨hp, [], (fun _ he => nomatch he), hq, ?_, ?_⟩
    · rw [← hq]
      exact hh
    · rw [hb]
      exact hf

/-- Who takes nothing away leaves the hub ahead of where it was. -/
theorem Ahead.peek (a : Ahead h f h' f' lost) {ask : Ask} {scanned woke : Bool} {p : Pause} {t : Turn}
    (look : ask.take = false) (o : Outcome h' f' ask scanned woke p t) :
    ∃ lost, Ahead h f t.hub t.flag lost := by
  have hshed : ∀ {more rest : List Entry} (cached : Option Assignment) (f'' : Flag), h'.queue = more ++ rest →
      h'.Refuses more → f''.clear h.bit = f'.clear h.bit →
      Ahead h f (h'.shed more rest cached) f'' (lost ++ more) := by
    intro more rest cached f'' hq hm hf
    refine ⟨fun e he => ?_, ?_, ?_, hf.trans a.flag⟩
    · rcases List.mem_append.1 he with he | he
      · exact a.refused e he
      · exact a.refuses hm e he
    · rw [a.queue, hq, List.append_assoc]
      rfl
    · have hh : (h'.shed more rest cached).forgetful = h'.forgetful.shed more rest none := rfl
      rw [hh, a.hub]
      simp only [shed, List.length_append, Nat.add_assoc]
  cases o with
  | closed => exact ⟨lost, a⟩
  | idle running refused =>
    exact ⟨_, hshed none _ (List.append_nil _).symm refused (by rw [a.bit, Flag.clear_clear])⟩
  | taken _ _ _ _ _ _ _ take =>
    rw [look] at take
    cases take
  | shown more head rest sink canonical found => exact ⟨_, hshed _ _ found.queue found.refused rfl⟩
  | held more head rest sink canonical found => exact ⟨_, hshed _ _ found.queue found.refused rfl⟩
  | sentAway more head rest sink canonical found => exact ⟨_, hshed _ _ found.queue found.refused rfl⟩

end Ahead

theorem scanQueue_pause (ask : Ask) (f : Flag) (h h' : Hub) (hs : h'.sinks = h.sinks) (hb : h'.bit = h.bit)
    (woke woke' : Bool) (q : List Entry) :
    (scanQueue ask f h' woke' q).1.1 = (scanQueue ask f h woke q).1.1 := by
  induction q generalizing h h' woke woke' with
  | nil => rw [scanQueue, scanQueue, hb]
  | cons e q ih =>
    rw [scanQueue, scanQueue, show h'.route e.event.id = h.route e.event.id by rw [route, route, hs]]
    split
    · exact ih { h with dropped := h.dropped + 1 } { h' with dropped := h'.dropped + 1 } hs hb true true
    · rw [scanHead, scanHead]
      split
      · cases ask.take <;> rfl
      · split <;> rfl

structure SameRules (h h' : Hub) : Prop where
  running : h'.running = h.running
  sinks : h'.sinks = h.sinks
  bit : h'.bit = h.bit

theorem SameRules.refl (h : Hub) : SameRules h h := ⟨rfl, rfl, rfl⟩

theorem SameRules.trans {h h' h'' : Hub} (r : SameRules h h') (r' : SameRules h' h'') : SameRules h h'' :=
  ⟨r'.running.trans r.running, r'.sinks.trans r.sinks, r'.bit.trans r.bit⟩

theorem sameRules_publish (h : Hub) (f : Flag) (e : Event) : SameRules h (h.publish f e).2.1 := by
  unfold Hub.publish
  split <;> exact ⟨rfl, rfl, rfl⟩

theorem Outcome.sameRules {h : Hub} {flag : Flag} {ask : Ask} {scanned woke : Bool} {p : Pause} {t : Turn}
    (o : Outcome h flag ask scanned woke p t) : SameRules h t.hub := by
  cases o <;> exact ⟨rfl, rfl, rfl⟩

theorem Coherent.dispatch_fst_eq {h h' : Hub} (hc : h.Coherent) (hc' : h'.Coherent) (hr : SameRules h h')
    (hq : h'.queue = h.queue) (f : Flag) (ask : Ask) (patient : ask.mode ≠ .block) :
    (h'.dispatch f ask false).1 = (h.dispatch f ask false).1 := by
  have he := congrArg (fun r => r.1.1) (hc.scan_eq f patient false)
  have he' := congrArg (fun r => r.1.1) (hc'.scan_eq f patient false)
  dsimp only at he he'
  rw [← he, ← he', scan, scan, show h'.forgetful.running = h.forgetful.running from hr.running,
    show h'.forgetful.queue = h.forgetful.queue from hq]
  split
  · exact scanQueue_pause ask f h.forgetful h'.forgetful hr.sinks hr.bit false false _
  · rfl

end EventHub.Hub
