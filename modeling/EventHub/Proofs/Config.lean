import EventHub.Config.Basic
import EventHub.Proofs.FileName
set_option autoImplicit false

/-!
Which logs channels share that have no settings of their own. Logs of one kind are never shared. The input log
of one channel is the output log of another just if the name of one begins with what the stem of a shared log
ends in, which takes a dot in that name.
-/
namespace EventHub.Config

/-- The two logs that all channels start from have names, and the channel has no settings of its own. -/
structure Shares (c : Config) (name : String) : Prop where
  input : c.channel.inputLog.isEmpty = false
  output : c.channel.outputLog.isEmpty = false
  own : c.channels.lookup name = none
  slash : '/' ∉ name.toList

theorem Shares.inputLog {c : Config} {name : String} (h : c.Shares name) :
    (c.forChannel name).inputLog = c.channel.inputLog.qualified name := by
  simp [forChannel, h.own, h.input]

theorem Shares.outputLog {c : Config} {name : String} (h : c.Shares name) :
    (c.forChannel name).outputLog = c.channel.outputLog.qualified name := by
  simp [forChannel, h.own, h.output]

/-- The stem and ending of two logs can be filled with these words so that one name comes out. -/
def Meet (f g : FileName) (m n : String) : Prop :=
  f.directory = g.directory ∧
    ((f.stem = g.stem ∧ m.toList ++ f.ending = n.toList ++ g.ending) ∨
      (∃ x, g.stem = f.stem ++ '.' :: x ∧ m.toList ++ f.ending = x ++ '.' :: (n.toList ++ g.ending)) ∨
      ∃ x, f.stem = g.stem ++ '.' :: x ∧ n.toList ++ g.ending = x ++ '.' :: (m.toList ++ f.ending))

structure LogsOf (c : Config) (m n : String) : Prop where
  inputs : (c.forChannel m).inputLog.same (c.forChannel n).inputLog = false
  outputs : (c.forChannel m).outputLog.same (c.forChannel n).outputLog = false
  dotless : '.' ∉ m.toList → '.' ∉ n.toList →
    (c.forChannel m).inputLog.same (c.forChannel n).outputLog = false ∧
      (c.forChannel m).outputLog.same (c.forChannel n).inputLog = false
  across : c.channel.inputLog.lastName?.isSome = true → c.channel.outputLog.lastName?.isSome = true →
    ((c.forChannel m).inputLog.same (c.forChannel n).outputLog = true ↔
      Meet c.channel.inputLog c.channel.outputLog m n)

theorem same_eq_false {f g : FileName} (h : f.components ≠ g.components) : f.same g = false := by
  simpa [FileName.same] using h

theorem logs_of_two_channels {c : Config} {m n : String} (hm : c.Shares m) (hn : c.Shares n) (hne : m ≠ n) :
    c.LogsOf m n where
  inputs := by
    rw [hm.inputLog, hn.inputLog]
    exact same_eq_false fun h => hne (FileName.qualified_inj hm.input hm.slash hn.slash h)
  outputs := by
    rw [hm.outputLog, hn.outputLog]
    exact same_eq_false fun h => hne (FileName.qualified_inj hm.output hm.slash hn.slash h)
  dotless hmd hnd := by
    rw [hm.inputLog, hn.inputLog, hm.outputLog, hn.outputLog]
    exact ⟨same_eq_false fun h => hne (FileName.eq_of_meet hm.input hn.output hm.slash hn.slash hmd hnd h),
      same_eq_false fun h => hne (FileName.eq_of_meet hm.output hn.input hm.slash hn.slash hmd hnd h)⟩
  across hf hg := by
    rw [hm.inputLog, hn.outputLog, Meet, ← FileName.lastWith_eq_iff,
      ← FileName.meet_iff hm.input hn.output hm.slash hn.slash hf hg]
    simp [FileName.same]

def twoNames : Config := ⟨false, ⟨⟨"x.log"⟩, ⟨"x.a.log"⟩, true⟩, []⟩

/-- What comes in through one channel is written where what goes out through another is. -/
theorem logs_of_two_channels_shared :
    twoNames.channel.inputLog.same twoNames.channel.outputLog = false ∧ twoNames.LogsOf "a.b" "b" ∧
      (twoNames.forChannel "a.b").inputLog.same (twoNames.forChannel "b").outputLog = true := by
  have hm : twoNames.Shares "a.b" := ⟨rfl, rfl, rfl, by decide⟩
  have hn : twoNames.Shares "b" := ⟨rfl, rfl, rfl, by decide⟩
  have h := logs_of_two_channels hm hn (by decide)
  refine ⟨by decide, h, (h.across (by decide) (by decide)).2 ⟨by decide, ?_⟩⟩
  exact .inr (.inl ⟨['a'], by decide, by decide⟩)

end EventHub.Config
