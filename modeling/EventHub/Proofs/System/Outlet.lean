import EventHub.Proofs.System.OpenRun
set_option autoImplicit false

namespace EventHub

def Note.sentTo (s : System) (id : Nat) : Note → List Event
  | .posted c e (.ok ()) => if s.outletOf c = some (.collector id) then [e] else []
  | _ => []

namespace System

def collected (s : System) (id : Nat) : List Event := (s.collectors[id]?.map Collector.events).getD []

/-- An event is sent to an outlet, after something happened to recordings at most. -/
def SendsOn (s : System) (outlet : Outlet) (e : Event) (t : System) : Prop :=
  ∃ u, SameKindsAndBindings s u ∧ u.collectors = s.collectors ∧ t = (u.send outlet e).2

theorem collected_congr {s t : System} (h : t.collectors = s.collectors) (id : Nat) :
    t.collected id = s.collected id := by
  rw [collected, collected, h]

theorem outletOf_congr {s t : System} {channel : Nat} (h : t.kindOf channel = s.kindOf channel) :
    t.outletOf channel = s.outletOf channel := by
  unfold outletOf
  unfold kindOf at h
  cases hs : s.channels[channel]? with
  | none =>
    rw [hs] at h
    rw [Option.map_eq_none_iff.1 h]
  | some c =>
    rw [hs] at h
    obtain ⟨d, hd, hk⟩ := Option.map_eq_some_iff.1 h
    rw [hd, Option.bind_some, Option.bind_some, Channel.outlet?, Channel.outlet?, hk]

theorem collectors_changeChannel (s : System) (channel : Nat)
    (change : Channel → FileSystem → Channel.Outcome) :
    (s.changeChannel channel change).2.collectors = s.collectors := by
  unfold changeChannel
  split <;> rfl

theorem outletOf_recordPost (s : System) (channel : Nat) (e : Event) (other : Nat) :
    (s.changeChannel channel fun c fs => c.recordPost fs e).2.outletOf other = s.outletOf other :=
  outletOf_congr ((sameKindsAndBindings_changeChannel s channel (fun c fs => c.recordPost fs e)
    fun c fs => c.kindAndBinding_recordPost fs e).kindOf other)

theorem hands_post {s : System} {channel : Nat} {e : Event} {outlet : Outlet}
    (h : (s.post channel e).1 = .ok ()) (ho : s.outletOf channel = some outlet) :
    SendsOn s outlet e (s.post channel e).2 := by
  refine ⟨(s.changeChannel channel fun c fs => c.recordPost fs e).2,
    sameKindsAndBindings_changeChannel s channel
      (fun c fs => c.recordPost fs e) fun c fs => c.kindAndBinding_recordPost fs e,
    collectors_changeChannel s channel _, ?_⟩
  rw [post_eq] at h ⊢
  dsimp only at h ⊢
  rw [h, outletOf_recordPost, ho]

/-- A collector keeps what it is sent, whether it accepts or refuses it. -/
theorem collected_send {s : System} {id : Nat} (hl : id < s.collectors.length) (outlet : Outlet) (e : Event) :
    (s.send outlet e).2.collected id = s.collected id ++ (if outlet = .collector id then [e] else []) ∧
      (s.send outlet e).2.collectors.length = s.collectors.length := by
  unfold send
  split
  · rename_i hub
    have hc := (sameOutsideHubs_publish s hub e).collectors
    rw [collected_congr hc, hc]
    simp
  · rename_i other
    by_cases ho : other = id
    · subst ho
      rw [List.getElem?_eq_getElem hl]
      simp [collected, hl]
    · split
      · simp [ho]
      · rw [if_neg (by simpa using ho)]
        simp [collected, ho]

theorem collectors_attach (s : System) (channel flag : Nat) (asynchronous : Bool) :
    (s.attach channel flag asynchronous).2.collectors = s.collectors := by
  rcases attach_snd s channel flag asynchronous with h | ⟨c, -, -, h⟩
  · rw [h]
  · rw [h]
    rfl

theorem collectors_ran {s t : System} {channel : Nat} {mask : Mask} {mode : WaitMode}
    {reply : Option Reply} (h : Ran s (.fetchFrom channel mask mode) reply t) :
    t.collectors = s.collectors := by
  cases h with
  | stayed _ still => exact still.collectors
  | went s' _ resumed before after =>
    rw [after.collectors, ← before.collectors]
    have hf := fetched_advance s' channel mask mode resumed
    generalize s'.advance resumed (.fetchFrom channel mask mode) = r at hf
    obtain ⟨p, u⟩ := r
    cases hf with
    | nothing _ _ sameOutsideHubs _ _ => exact sameOutsideHubs.collectors
    | recorded c hub sink outlet mask mode resumed e _ there opened kind answer ok =>
      have hc := collectors_changeChannel (s'.askHub hub ⟨mask, mode, sink, true⟩ resumed).2 channel
        fun c fs => c.recordFetch fs e
      rw [ok] at hc
      exact hc.trans (sameOutsideHubs_askHub s' hub _ resumed).collectors
    | failed hub ask resumed e err _ error =>
      have hc := collectors_changeChannel (s'.askHub hub ask resumed).2 channel
        fun c fs => c.recordFetch fs e
      rw [error] at hc
      exact hc.trans (sameOutsideHubs_askHub s' hub ask resumed).collectors

theorem sentTo_ofCall (s : System) (id : Nat) (c : Call) (reply : Option Reply) :
    (Note.ofCall c reply).sentTo s id = [] := by
  cases reply with
  | none => rfl
  | some r => rfl

theorem collected_stepOnHubs (s : System) (m : HubMove) (id : Nat) :
    (m.step s).2.collectors = s.collectors ∧ (m.step s).1.sentTo s id = [] := by
  have hm := hubStep_step s m
  generalize m.step s = r at hm ⊢
  obtain ⟨note, t⟩ := r
  cases hm with
  | quiet _ sameOutsideHubs => exact ⟨sameOutsideHubs.collectors, rfl⟩
  | published hub e taken _ sameOutsideHubs => exact ⟨sameOutsideHubs.collectors, rfl⟩
  | called c reply _ sameOutsideHubs _ => exact ⟨sameOutsideHubs.collectors, sentTo_ofCall s id c reply⟩
  | fetched channel mask mode reply _ _ ran => exact ⟨collectors_ran ran, sentTo_ofCall s id _ reply⟩

theorem collected_post {s : System} {id : Nat} (hl : id < s.collectors.length) (channel : Nat) (e : Event) :
    (s.post channel e).2.collected id =
        s.collected id ++ (Note.posted channel e (s.post channel e).1).sentTo s id ∧
      id < (s.post channel e).2.collectors.length := by
  have hc := collectors_changeChannel s channel fun c fs => c.recordPost fs e
  have ho := outletOf_recordPost s channel e channel
  rw [post_eq]
  generalize (s.changeChannel channel fun c fs => c.recordPost fs e) = r at hc ho ⊢
  obtain ⟨err | u, t⟩ := r
  · dsimp only at hc ⊢
    rw [← hc] at hl
    simp [Note.sentTo, collected_congr hc, hl]
  · dsimp only at hc ho ⊢
    rw [← hc] at hl
    rw [ho, ← collected_congr hc]
    cases hs : s.outletOf channel with
    | none => simp [Note.sentTo, hs, hl]
    | some outlet =>
      obtain ⟨hsend, hlen⟩ := collected_send hl outlet e
      simp [Note.sentTo, hs, hsend, hlen, hl]

theorem collected_step {s : System} {id : Nat} (hl : id < s.collectors.length) (m : Move) :
    (m.step s).2.collected id = s.collected id ++ (m.step s).1.sentTo s id ∧
      id < (m.step s).2.collectors.length := by
  -- most moves leave all collectors alone and send nothing
  have hsame : ∀ {t : System} {note : Note}, t.collectors = s.collectors → note.sentTo s id = [] →
      t.collected id = s.collected id ++ note.sentTo s id ∧ id < t.collectors.length := by
    intro t note ht hn
    rw [hn, List.append_nil, collected_congr ht, ht]
    exact ⟨rfl, hl⟩
  cases m with
  | onHubs m =>
    obtain ⟨hc, hn⟩ := collected_stepOnHubs s m id
    exact hsame hc hn
  | makeCollector accepts =>
    refine ⟨?_, ?_⟩
    · rw [show (Move.step s (.makeCollector accepts)).1.sentTo s id = [] from rfl, List.append_nil]
      simp [Move.step, addCollector, collected, List.getElem?_append_left hl]
    · simp only [Move.step, addCollector, List.length_append]
      omega
  | makeChannel name outlet => exact hsame rfl rfl
  | makeBareChannel name => exact hsame rfl rfl
  | makeHubChannel name hub sink outlet =>
    refine hsame ?_ rfl
    rw [Move.step]
    split
    · exact collectors_attach _ _ _ false
    · rfl
  | attach other flag asynchronous =>
    refine hsame ?_ rfl
    rw [Move.step]
    split
    · exact collectors_attach s other flag asynchronous
    · rfl
  | init other config => exact hsame (collectors_changeChannel s other fun c fs => c.init fs config) rfl
  | close other => exact hsame (collectors_changeChannel s other Channel.close) rfl
  | abort other => exact hsame (collectors_changeChannel s other Channel.abort) rfl
  | flush other => exact hsame (collectors_changeChannel s other Channel.flush) rfl
  | post other e => exact collected_post hl other e
  | hasEvent other mask => exact hsame (sameOutsideHubs_hasEvent s other mask).collectors rfl
  | raiseOwn other => exact hsame (sameOutsideHubs_raiseOwn s other).collectors rfl
  | clearOwn other => exact hsame (sameOutsideHubs_clearOwn s other).collectors rfl
  | disturb files => exact hsame rfl rfl

/-- A collector that only one channel posts to collects what is posted through that one. -/
theorem OpenRun.collected {s t : System} {channel id : Nat} {run : List RunStep}
    (hr : OpenRun channel s run t) (hl : id < s.collectors.length)
    (ho : ∀ g ∈ run, g.note.sentTo g.before id = g.note.postedOn channel) :
    t.collected id = s.collected id ++ postedOn channel run := by
  induction hr with
  | done s => simp [postedOn]
  | move s m run t stays fine alone rest ih =>
    obtain ⟨hc, hl'⟩ := collected_step hl m
    rw [ih hl' fun g hg => ho g (List.mem_cons_of_mem _ hg), hc, ho _ List.mem_cons_self, List.append_assoc]
    rfl

end System
end EventHub
