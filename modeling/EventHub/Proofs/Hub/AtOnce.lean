import EventHub.Proofs.Hub.Ahead
import Mathlib.Data.List.TakeWhile
set_option autoImplicit false

/-!
Asking without waiting. What such a call answers and what it leaves behind is said by the hub and its flag as
they stand, and not by what the hub remembers: by the entries in front that no sink takes, the first one behind
them, whose it is, and what else is raised on the flag.
-/
namespace EventHub.Hub

def isNobodys (h : Hub) (e : Entry) : Bool := h.sinks.all fun s => (s.accept e.event.id).isNone

def nobodys (h : Hub) : List Entry := h.queue.takeWhile h.isNobodys

def claimed (h : Hub) : List Entry := h.queue.dropWhile h.isNobodys

/-- Nothing is left for anybody: the hub's own bit is cleared and no other, and any other bit that is raised
is news. -/
structure FindsNothing (h : Hub) (f : Flag) (fetch : Fetch) (h' : Hub) (f' : Flag) : Prop where
  queue : h'.queue = []
  delivered : h'.delivered = h.delivered
  own : f'.isBitRaised h.bit = false
  others : ∀ bit ≠ h.bit, f'.sources[bit]? = f.sources[bit]?
  news : (∃ bit ≠ h.bit, f.isBitRaised bit = true) → fetch = .pending .outOfSeq
  silence : (∀ bit ≠ h.bit, f.isBitRaised bit = false) → fetch = .pending .wait

/-- An entry of this owner comes first. Only its owner gets it, if the mask wants it under the owner's name for
it, and only who takes it moves it. -/
structure FindsHead (h : Hub) (f : Flag) (ask : Ask) (head : Entry) (rest : List Entry) (sink : Nat)
    (canonical : Path) (fetch : Fetch) (h' : Hub) (f' : Flag) : Prop where
  owner : IsOwner h.sinks head.event.id sink canonical
  flag : f' = f
  fetched : ask.Wants sink canonical → fetch = .delivered { head.event with id := canonical }
  refused : ¬ask.Wants sink canonical → fetch = .pending .outOfSeq
  taken : ask.Wants sink canonical → ask.take = true → h'.queue = rest ∧ h'.delivered = h.delivered + 1
  left : ¬(ask.Wants sink canonical ∧ ask.take = true) → h'.queue = head :: rest ∧ h'.delivered = h.delivered

/-- The answer of a call that never waits, and the hub and the flag that it leaves. -/
structure AtOnce (h : Hub) (f : Flag) (ask : Ask) (fetch : Fetch) (h' : Hub) (f' : Flag) : Prop where
  closed : h.running = false → fetch = .pending .closed ∧ h' = h ∧ f' = f
  rules : h.SameRules h'
  name : h'.name = h.name
  nextSeq : h'.nextSeq = h.nextSeq
  dropped : h.running = true → h'.dropped = h.dropped + h.nobodys.length
  empty : h.running = true → h.claimed = [] → h.FindsNothing f fetch h' f'
  head : ∀ head rest, h.running = true → h.claimed = head :: rest →
    ∃ sink canonical, h.FindsHead f ask head rest sink canonical fetch h' f'

variable {h : Hub} {f : Flag} {ask : Ask} {lost rest : List Entry} {head : Entry} {sink : Nat} {canonical : Path}

theorem isNobodys_iff {e : Entry} : h.isNobodys e = true ↔ h.route e.event.id = none := by
  rw [route_eq_none_iff, isNobodys, List.all_eq_true]
  simp only [Option.isNone_iff_eq_none]

theorem Refuses.isNobodys (hl : h.Refuses lost) : ∀ e ∈ lost, h.isNobodys e = true :=
  fun e he => isNobodys_iff.2 (hl e he)

theorem Refuses.nobodys_eq (hl : h.Refuses h.queue) : h.nobodys = h.queue :=
  List.takeWhile_eq_self_iff.2 hl.isNobodys

theorem Refuses.claimed_eq (hl : h.Refuses h.queue) : h.claimed = [] :=
  List.dropWhile_eq_nil_iff.2 hl.isNobodys

theorem Finds.not_isNobodys (hf : h.Finds lost head rest sink canonical) : ¬h.isNobodys head = true := by
  rw [isNobodys_iff, hf.owner]
  exact Option.some_ne_none _

theorem Finds.nobodys_eq (hf : h.Finds lost head rest sink canonical) : h.nobodys = lost := by
  rw [nobodys, hf.queue, List.takeWhile_append_of_pos hf.refused.isNobodys,
    List.takeWhile_cons_of_neg hf.not_isNobodys, List.append_nil]

theorem Finds.claimed_eq (hf : h.Finds lost head rest sink canonical) : h.claimed = head :: rest := by
  rw [claimed, hf.queue, List.dropWhile_append_of_pos hf.refused.isNobodys,
    List.dropWhile_cons_of_neg hf.not_isNobodys]

theorem findsNothing (hf : f.Counted) (lost : List Entry) :
    h.FindsNothing f (.pending (if (f.clear h.bit).isRaised then .outOfSeq else .wait)) (h.shed lost [] none)
      (f.clear h.bit) := by
  have hother : ∀ bit ≠ h.bit, (f.clear h.bit).isBitRaised bit = f.isBitRaised bit := by
    intro bit hb
    rw [Flag.isBitRaised_clear]
    simp [hb]
  refine ⟨rfl, rfl, ?_, fun bit hb => f.sources_clear_of_ne hb, ?_, ?_⟩
  · rw [Flag.isBitRaised_clear]
    simp
  · rintro ⟨bit, hb, hr⟩
    rw [if_pos ((hf.clear h.bit).isRaised_iff.2 ⟨bit, by rw [hother bit hb, hr]⟩)]
  · intro hnone
    rw [if_neg]
    intro hr
    obtain ⟨bit, hbit⟩ := (hf.clear h.bit).isRaised_iff.1 hr
    have hb : bit ≠ h.bit := by
      rintro rfl
      simp [Flag.isBitRaised_clear] at hbit
    rw [hother bit hb, hnone bit hb] at hbit
    cases hbit

/-- Where an entry of somebody's is found, there is no more to a call than what it does with that entry. -/
theorem Finds.atOnce {fetch : Fetch} {h' : Hub} {f' : Flag} (found : h.Finds lost head rest sink canonical)
    (rules : h.SameRules h') (name : h'.name = h.name) (nextSeq : h'.nextSeq = h.nextSeq)
    (dropped : h'.dropped = h.dropped + lost.length)
    (finds : h.FindsHead f ask head rest sink canonical fetch h' f') : h.AtOnce f ask fetch h' f' where
  closed stopped := by
    rw [found.running] at stopped
    cases stopped
  rules := rules
  name := name
  nextSeq := nextSeq
  dropped _ := by rw [found.nobodys_eq, dropped]
  empty _ hq := by
    rw [found.claimed_eq] at hq
    cases hq
  head _ _ _ hq := by
    cases found.claimed_eq.symm.trans hq
    exact ⟨sink, canonical, finds⟩

/-- Who does not wait has an answer at once, and it is the one that `AtOnce` says. -/
theorem dispatch_atOnce (hc : h.Coherent) (hf : f.Counted) (hm : ask.mode = .noWait) :
    ∃ fetch, (h.dispatch f ask false).1 = .answer fetch ∧
      h.AtOnce f ask fetch (h.dispatch f ask false).2.hub (h.dispatch f ask false).2.flag := by
  have o := dispatch_outcome hc f ask false
  have hr := o.sameRules
  generalize (h.dispatch f ask false).1 = p at o ⊢
  generalize (h.dispatch f ask false).2 = t at o hr ⊢
  cases o with
  | closed stopped =>
    have hrun : ∀ {P : Prop}, h.running = true → P := by
      intro P running
      rw [stopped] at running
      cases running
    exact ⟨_, rfl, fun _ => ⟨rfl, rfl, rfl⟩, hr, rfl, rfl, hrun, hrun, fun _ _ => hrun⟩
  | idle running refused =>
    refine ⟨.pending (if (f.clear h.bit).isRaised then .outOfSeq else .wait), by rw [hm]; rfl, ?_, hr, rfl, rfl, ?_,
      fun _ _ => findsNothing hf h.queue, ?_⟩
    · intro stopped
      rw [running] at stopped
      cases stopped
    · intro _
      rw [refused.nobodys_eq]
      rfl
    · intro head rest _ hq
      rw [refused.claimed_eq] at hq
      cases hq
  | taken lost head rest sink canonical found wanted take =>
    exact ⟨_, rfl, found.atOnce hr rfl rfl rfl ⟨route_eq_some_iff.1 found.owner, rfl, fun _ => rfl,
      fun hw => absurd wanted hw, fun _ _ => ⟨rfl, rfl⟩, fun hn => absurd ⟨wanted, take⟩ hn⟩⟩
  | shown lost head rest sink canonical found wanted take =>
    refine ⟨_, rfl, found.atOnce hr rfl rfl rfl ⟨route_eq_some_iff.1 found.owner, rfl, fun _ => rfl,
      fun hw => absurd wanted hw, fun _ ht => ?_, fun _ => ⟨rfl, rfl⟩⟩⟩
    rw [take] at ht
    cases ht
  | held lost head rest sink canonical found unwanted insists fresh =>
    rw [hm] at insists
    cases insists
  | sentAway lost head rest sink canonical found unwanted yields =>
    exact ⟨_, rfl, found.atOnce hr rfl rfl rfl ⟨route_eq_some_iff.1 found.owner, rfl, fun hw => absurd hw unwanted,
      fun _ => rfl, fun hw => absurd hw unwanted, fun _ => ⟨rfl, rfl⟩⟩⟩

end EventHub.Hub
