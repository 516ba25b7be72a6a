import EventHub.FileName
import Mathlib.Data.List.DropRight
set_option autoImplicit false

namespace EventHub.FileName

open Text

def saidBy (ps : List (List Char)) : List Component := (ps.filter fun p => !isIdle p).map Component.ofPiece

def leadOf : List (List Char) → List Component
  | [] => []
  | p :: ps => if p = [] ∧ ps ≠ [] then [.root] else if p = ['.'] then [.here] else []

theorem saidBy_append (ps qs : List (List Char)) : saidBy (ps ++ qs) = saidBy ps ++ saidBy qs := by
  simp [saidBy]

theorem saidBy_idle {p : List Char} (h : isIdle p = true) : saidBy [p] = [] := by
  simp [saidBy, h]

theorem saidBy_single {p : List Char} (h : isIdle p = false) : saidBy [p] = [.ofPiece p] := by
  simp [saidBy, h]

theorem ofPiece_inj {p q : List Char} (h : Component.ofPiece p = .ofPiece q) : p = q := by
  unfold Component.ofPiece at h
  split at h <;> split at h
  · simp_all
  · cases h
  · cases h
  · exact Component.named.inj h

theorem saidBy_inj {p q : List Char} (hp : p ≠ []) (hq : q ≠ []) (h : saidBy [p] = saidBy [q]) : p = q := by
  cases hip : isIdle p with
  | true =>
    cases hiq : isIdle q with
    | true => simp_all [isIdle]
    | false =>
      rw [saidBy_idle hip, saidBy_single hiq] at h
      cases h
  | false =>
    cases hiq : isIdle q with
    | true =>
      rw [saidBy_single hip, saidBy_idle hiq] at h
      cases h
    | false =>
      rw [saidBy_single hip, saidBy_single hiq] at h
      exact ofPiece_inj (List.singleton_inj.1 h)

theorem lead_eq (f : FileName) : f.lead = leadOf f.pieces := by
  unfold lead isAbsolute pieces
  cases f.text.toList with
  | nil => simp [splitOn, leadOf]
  | cons c cs =>
    by_cases hc : c = '/'
    · simp [hc, splitOn_cons_sep, splitOn_ne_nil, leadOf]
    · rw [splitOn_cons_ne hc]
      simp [hc, leadOf]

theorem components_eq (f : FileName) : f.components = leadOf f.pieces ++ saidBy f.pieces := by
  rw [components, lead_eq]
  rfl

theorem saidBy_eq_nil {ps : List (List Char)} (h : saidBy ps = []) : ∀ p ∈ ps, isIdle p = true := by
  simpa [saidBy] using h

theorem eq_empty_of_same {f : FileName} (h : f.same ⟨""⟩ = true) : f = ⟨""⟩ := by
  have hc : f.components = components ⟨""⟩ := by simpa [same] using h
  rw [show components ⟨""⟩ = [] from rfl] at hc
  rw [components_eq, List.append_eq_nil_iff] at hc
  obtain ⟨hl, hs⟩ := hc
  have hidle := saidBy_eq_nil hs
  obtain ⟨text⟩ := f
  rw [← String.ofList_toList (s := text)] at hl hidle ⊢
  cases ht : text.toList with
  | nil => rfl
  | cons c cs =>
    rw [ht, pieces, String.toList_ofList] at hl hidle
    by_cases hc : c = '/'
    · simp [hc, splitOn_cons_sep, splitOn_ne_nil, leadOf] at hl
    · rw [splitOn_cons_ne hc] at hl hidle
      have hp := hidle _ List.mem_cons_self
      simp [isIdle] at hp
      simp [leadOf, hp] at hl

theorem leadOf_append {ps : List (List Char)} (hne : ps ≠ []) (q r : List Char) :
    leadOf (ps ++ [q]) = leadOf (ps ++ [r]) := by
  obtain ⟨p, ps, rfl⟩ := List.exists_cons_of_ne_nil hne
  simp [leadOf]

theorem leadOf_concat {ps : List (List Char)} (hne : ps ≠ []) (he : ps ≠ [[]]) (q : List Char) :
    leadOf (ps ++ [q]) = leadOf ps := by
  obtain ⟨p, ps, rfl⟩ := List.exists_cons_of_ne_nil hne
  cases ps with
  | nil =>
    have hp : p ≠ [] := fun h => he (by rw [h])
    simp [leadOf, hp]
  | cons p' ps => simp [leadOf]

theorem isAbsolute_ofList {cs : List Char} (h : '/' ∉ cs) : isAbsolute ⟨String.ofList cs⟩ = false := by
  cases cs with
  | nil => simp [isAbsolute]
  | cons c cs =>
    have hc : c ≠ '/' := fun he => h (by simp [he])
    simpa [isAbsolute] using hc

theorem components_join {base : FileName} (hb : base.isEmpty = false) {last : List Char} (h : '/' ∉ last) :
    (base.join ⟨String.ofList last⟩).components = base.components ++ saidBy [last] := by
  rw [join, isAbsolute_ofList h, hb, if_neg (by simp), components_eq, components_eq]
  have hlast := splitOn_of_notMem h
  split
  · -- the base ends in a slash, so its last piece is empty
    rename_i hslash
    obtain ⟨cs, hcs⟩ := List.getLast?_eq_some_iff.1 hslash
    have hbase : base.pieces = splitOn '/' cs ++ [[]] := by
      rw [pieces, hcs, splitOn_append_sep]
      rfl
    have hjoin : pieces ⟨base.text ++ String.ofList last⟩ = splitOn '/' cs ++ [last] := by
      rw [pieces, String.toList_append, String.toList_ofList, hcs, List.append_assoc]
      exact (splitOn_append_sep '/' cs last).trans (congrArg (splitOn '/' cs ++ ·) hlast)
    have hidle : saidBy [([] : List Char)] = [] := rfl
    rw [hbase, hjoin, leadOf_append (splitOn_ne_nil '/' cs) last [], saidBy_append, saidBy_append, hidle,
      List.append_nil, List.append_assoc]
  · have hjoin : pieces ⟨base.text ++ "/" ++ String.ofList last⟩ = base.pieces ++ [last] := by
      simp only [pieces, String.toList_append, String.toList_ofList, List.append_assoc]
      exact (splitOn_append_sep '/' base.text.toList last).trans (congrArg (base.pieces ++ ·) hlast)
    have hnil : base.pieces ≠ [] := splitOn_ne_nil '/' _
    have hne : base.pieces ≠ [[]] := by
      intro hp
      have ht := join_splitOn '/' base.text.toList
      rw [show splitOn '/' base.text.toList = base.pieces from rfl, hp] at ht
      have : base.text = "" := String.toList_inj.1 ht.symm
      simp [isEmpty, this] at hb
    rw [hjoin, leadOf_concat hnil hne, saidBy_append, List.append_assoc]

theorem saidBy_rdropWhile (ps : List (List Char)) : saidBy (ps.rdropWhile isIdle) = saidBy ps := by
  induction ps using List.reverseRecOn with
  | nil => rfl
  | append_singleton ps p ih =>
    cases hp : isIdle p with
    | true => rw [List.rdropWhile_concat_pos _ _ _ hp, ih, saidBy_append, saidBy_idle hp, List.append_nil]
    | false => rw [List.rdropWhile_concat_neg _ _ _ (by simp [hp])]

theorem saidBy_dropLast (ps : List (List Char)) :
    saidBy (ps.rdropWhile isIdle).dropLast = (saidBy ps).dropLast := by
  rw [← saidBy_rdropWhile ps]
  rcases List.eq_nil_or_concat (ps.rdropWhile isIdle) with h | ⟨qs, q, h⟩
  · rw [h]
    rfl
  · have hq : isIdle q = false := by
      have hl := List.rdropWhile_last_not isIdle ps (by rw [h]; simp)
      simpa [h] using hl
    rw [h, List.concat_eq_append, List.dropLast_concat, saidBy_append, saidBy_single hq, List.dropLast_concat]

theorem components_ofJoin {ps : List (List Char)} (h : ∀ p ∈ ps, '/' ∉ p) :
    components ⟨String.ofList (Text.join '/' ps)⟩ = leadOf ps ++ saidBy ps := by
  cases ps with
  | nil => rfl
  | cons p ps => rw [components_eq, pieces, String.toList_ofList, splitOn_join (by simp) h]

theorem isAbsolute_iff (f : FileName) : f.isAbsolute = true ↔ ∃ p ps, f.pieces = [] :: p :: ps := by
  unfold isAbsolute pieces
  cases f.text.toList with
  | nil => simp [splitOn]
  | cons c cs =>
    by_cases hc : c = '/'
    · obtain ⟨p, ps, hp⟩ := List.exists_cons_of_ne_nil (splitOn_ne_nil '/' cs)
      simp [hc, splitOn_cons_sep, hp]
    · simp [splitOn_cons_ne hc, hc]

def body (ps : List (List Char)) : List (List Char) := dropIdleEnd (dropIdleEnd ps).dropLast

theorem saidBy_body (ps : List (List Char)) : saidBy (body ps) = (saidBy ps).dropLast := by
  rw [← saidBy_dropLast]
  exact saidBy_rdropWhile _

theorem body_initial (ps : List (List Char)) : body ps <+: ps :=
  (List.rdropWhile_prefix _ _).trans ((List.dropLast_prefix _).trans (List.rdropWhile_prefix _ _))

theorem withoutLast_of_lead {f : FileName} {c : Component} {p : List Char} {ps : List (List Char)}
    (hl : f.lead = [c]) (hp : f.pieces = p :: ps) :
    f.withoutLast = if (body ps).isEmpty ∧ f.isAbsolute then ⟨"/"⟩
      else ⟨String.ofList (Text.join '/' (p :: body ps))⟩ := by
  rw [withoutLast, hl, hp]
  rfl

theorem withoutLast_of_lead_nil {f : FileName} (hl : f.lead = []) :
    f.withoutLast = ⟨String.ofList (Text.join '/' (body f.pieces))⟩ := by
  have ha : f.isAbsolute = false := by
    unfold lead at hl
    split at hl
    · cases hl
    · rename_i h
      simpa using h
  rw [withoutLast, hl, ha]
  simp [body]

theorem components_withoutLast {f : FileName} (h : saidBy f.pieces ≠ []) :
    f.withoutLast.components = f.components.dropLast := by
  have hslash : ∀ p ∈ f.pieces, '/' ∉ p := fun p hp => notMem_of_mem_splitOn hp
  obtain ⟨p, ps, hp⟩ := List.exists_cons_of_ne_nil (splitOn_ne_nil '/' f.text.toList)
  replace hp : f.pieces = p :: ps := hp
  have hlead := f.lead_eq
  rw [components_eq f, List.dropLast_append_of_ne_nil h, ← saidBy_body]
  rw [hp] at hslash hlead h ⊢
  by_cases hroot : p = [] ∧ ps ≠ []
  · obtain ⟨rfl, hps⟩ := hroot
    have hl : leadOf ([] :: ps) = [.root] := if_pos ⟨rfl, hps⟩
    have hb : saidBy (body ([] :: ps)) = saidBy (body ps) := by rw [saidBy_body, saidBy_body]; rfl
    have ha : f.isAbsolute = true := by
      obtain ⟨q, qs, rfl⟩ := List.exists_cons_of_ne_nil hps
      exact f.isAbsolute_iff.2 ⟨q, qs, hp⟩
    rw [withoutLast_of_lead (hlead.trans hl) hp, hl, hb]
    cases hbs : body ps with
    | nil =>
      rw [if_pos ⟨rfl, ha⟩]
      rfl
    | cons b bs =>
      rw [if_neg (fun he => by cases he.1), components_ofJoin]
      · rfl
      · intro q hq
        rcases List.mem_cons.1 hq with rfl | hq
        · simp
        · exact hslash q (List.mem_cons_of_mem _ ((body_initial ps).subset (hbs ▸ hq)))
  · by_cases hdot : p = ['.']
    · subst hdot
      have hl : leadOf (['.'] :: ps) = [.here] := by simp [leadOf]
      have hb : saidBy (body (['.'] :: ps)) = saidBy (body ps) := by rw [saidBy_body, saidBy_body]; rfl
      have ha : f.isAbsolute = false := by
        cases ha : f.isAbsolute with
        | false => rfl
        | true =>
          obtain ⟨q, qs, hq⟩ := f.isAbsolute_iff.1 ha
          rw [hp] at hq
          cases hq
      rw [withoutLast_of_lead (hlead.trans hl) hp, hl, hb, ha, if_neg (by simp), components_ofJoin]
      · simp [leadOf, saidBy, isIdle]
      · intro q hq
        rcases List.mem_cons.1 hq with rfl | hq
        · simp
        · exact hslash q (List.mem_cons_of_mem _ ((body_initial ps).subset hq))
    · have hl : leadOf (p :: ps) = [] := by rw [leadOf, if_neg hroot, if_neg hdot]
      rw [withoutLast_of_lead_nil (hlead.trans hl), hp, hl, components_ofJoin]
      · -- what is left begins as the name does
        obtain ⟨rest, hrest⟩ := body_initial (p :: ps)
        cases hbs : body (p :: ps) with
        | nil => rfl
        | cons b bs =>
          rw [hbs, List.cons_append] at hrest
          obtain ⟨rfl, htail⟩ := List.cons.inj hrest
          rw [leadOf, if_neg, if_neg hdot]
          rintro ⟨rfl, hbs'⟩
          exact hroot ⟨rfl, by simp [← htail, hbs']⟩
      · exact fun q hq => hslash q ((body_initial _).subset hq)

theorem lastDot_inj {u v u' v' : List Char} (h : u ++ '.' :: v = u' ++ '.' :: v') (hv : '.' ∉ v)
    (hv' : '.' ∉ v') : u = u' ∧ v = v' := by
  rcases List.append_eq_append_iff.1 h with ⟨as, hu, has⟩ | ⟨bs, hu, hbs⟩
  · cases as with
    | nil => exact ⟨by simpa using hu.symm, by simpa using has⟩
    | cons a as =>
      obtain ⟨-, rfl⟩ := List.cons.inj has
      exact absurd (by simp) hv
  · cases bs with
    | nil => exact ⟨by simpa using hu, by simpa using hbs.symm⟩
    | cons b bs =>
      obtain ⟨-, rfl⟩ := List.cons.inj hbs
      exact absurd (by simp) hv'

/-- The ends of cutting: either there is no dot but one in front of everything, or the last dot is gone. -/
inductive Cut (name : List Char) : List Char × Option (List Char) → Prop where
  | whole (front : ∀ before after, name = before ++ '.' :: after → '.' ∉ after → before = []) :
      Cut name (name, none)
  | atDot (stem extension : List Char) (split : name = stem ++ '.' :: extension) (some : stem ≠ [])
      (last : '.' ∉ extension) : Cut name (stem, .some extension)

theorem cut_cutAtLastDot {name : List Char} (hne : name ≠ ['.', '.']) : Cut name (cutAtLastDot name) := by
  have hsplit := List.takeWhile_append_dropWhile (p := (· != '.')) (l := name.reverse)
  have htake : '.' ∉ (name.reverse.takeWhile (· != '.')).reverse := by
    intro h
    have := List.mem_takeWhile_imp (List.mem_reverse.1 h)
    simp at this
  unfold cutAtLastDot
  dsimp only
  cases hd : name.reverse.dropWhile (· != '.') with
  | nil =>
    rw [hd, List.append_nil] at hsplit
    rw [hsplit, List.reverse_reverse] at htake
    rw [if_pos (.inr rfl)]
    refine .whole fun before after he _ => ?_
    exact absurd (by simp [he]) htake
  | cons c cs =>
    have hc : c = '.' := by
      have := List.head?_dropWhile_not (· != '.') name.reverse
      rw [hd] at this
      simpa using this
    subst hc
    rw [hd] at hsplit
    have hname : name = cs.reverse ++ '.' :: (name.reverse.takeWhile (· != '.')).reverse := by
      have := congrArg List.reverse hsplit
      simpa using this.symm
    by_cases hcs : cs = []
    · rw [if_pos (.inr (by simp [hcs]))]
      refine .whole fun before after he ha => ?_
      rw [hname] at he
      have := (lastDot_inj he htake ha).1
      simpa [hcs] using this.symm
    · rw [if_neg (by simp [hne, hcs])]
      exact .atDot _ _ (by simpa using hname) (by simpa using hcs) htake

theorem named_of_lastName? {f : FileName} {n : List Char} (h : f.lastName? = some n) :
    (∃ before, f.components = before ++ [.named n]) ∧ saidBy f.pieces ≠ [] ∧ n ∈ f.pieces ∧
      isIdle n = false ∧ n ≠ ['.', '.'] := by
  have hl : f.components.getLast? = some (.named n) := by
    unfold lastName? at h
    split at h
    · rename_i m hm
      cases h
      exact hm
    · cases h
  have hsaid : .named n ∈ saidBy f.pieces := by
    have hm := List.mem_of_getLast? hl
    rw [components_eq] at hm
    rcases List.mem_append.1 hm with hm | hm
    · unfold leadOf at hm
      split at hm
      · cases hm
      · split at hm
        · simp at hm
        · split at hm <;> simp at hm
    · exact hm
  obtain ⟨p, hp, hpn⟩ := List.mem_map.1 hsaid
  obtain ⟨hp, hidle⟩ := List.mem_filter.1 hp
  have hpn' : p = n ∧ n ≠ ['.', '.'] := by
    unfold Component.ofPiece at hpn
    split at hpn
    · cases hpn
    · cases hpn
      exact ⟨rfl, by assumption⟩
  obtain ⟨rfl, hdd⟩ := hpn'
  exact ⟨List.getLast?_eq_some_iff.1 hl, List.ne_nil_of_mem hsaid, hp, by simpa using hidle, hdd⟩

def stem (f : FileName) : List Char := (cutAtLastDot (f.lastName?.getD [])).1

def ending (f : FileName) : List Char :=
  match (cutAtLastDot (f.lastName?.getD [])).2 with
  | none => []
  | some extension => '.' :: extension

def lastWith (f : FileName) (word : String) : List Char := f.stem ++ '.' :: (word.toList ++ f.ending)

def directory (f : FileName) : List Component :=
  if f.lastName?.isSome then f.components.dropLast else f.components

theorem directory_of_nameless {f : FileName} (h : f.lastName? = none) : f.directory = f.components := by
  rw [directory, h]
  rfl

theorem qualified_eq (f : FileName) (word : String) :
    f.qualified word = f.withLast (String.ofList (f.lastWith word)) := by
  unfold qualified lastWith stem ending
  split
  · rename_i h
    rw [h]
    exact congrArg f.withLast (String.toList_inj.1 (by simp [cutAtLastDot, toString]))
  · rename_i h _
    rw [h]
    exact congrArg f.withLast (String.toList_inj.1 (by simp))
  · rename_i h _
    rw [h]
    exact congrArg f.withLast (String.toList_inj.1 (by simp))

/-- The two ways in which the last name is made of a stem and an ending. -/
inductive Shape (f : FileName) (name : List Char) : Prop where
  | whole (stem : f.stem = name) (ending : f.ending = [])
      (front : ∀ before after, name = before ++ '.' :: after → '.' ∉ after → before = [])
  | atDot (extension : List Char) (ending : f.ending = '.' :: extension) (last : '.' ∉ extension)
      (some : f.stem ≠ []) (split : name = f.stem ++ '.' :: extension)

theorem shape_of_lastName? {f : FileName} {name : List Char} (h : f.lastName? = some name) :
    f.Shape name := by
  obtain ⟨-, -, -, -, hdd⟩ := named_of_lastName? h
  have hcut := cut_cutAtLastDot hdd
  have hstem : f.stem = (cutAtLastDot name).1 := by rw [stem, h]; rfl
  have hending : f.ending = match (cutAtLastDot name).2 with
      | none => []
      | some extension => '.' :: extension := by rw [ending, h]; rfl
  generalize cutAtLastDot name = cut at hcut hstem hending
  cases hcut with
  | whole front => exact .whole hstem hending front
  | atDot stem extension split some last =>
    dsimp only at hstem
    subst hstem
    exact .atDot extension hending last some split

theorem stem_ne_nil {f : FileName} {name : List Char} (h : f.lastName? = some name) : f.stem ≠ [] := by
  cases shape_of_lastName? h with
  | whole hs =>
    obtain ⟨-, -, -, hidle, -⟩ := named_of_lastName? h
    rw [hs]
    rintro rfl
    cases hidle
  | atDot _ _ _ hsome => exact hsome

theorem said_lastWith {f : FileName} {name : List Char} (h : f.lastName? = some name) (word : String) :
    saidBy [f.lastWith word] = [.named (f.lastWith word)] := by
  have hne := stem_ne_nil h
  have hlen : 2 ≤ (f.lastWith word).length := by
    have := List.length_pos_iff.2 hne
    simp only [lastWith, List.length_append, List.length_cons]
    omega
  have hidle : isIdle (f.lastWith word) = false := by
    cases hw : isIdle (f.lastWith word) with
    | false => rfl
    | true =>
      rcases (by simpa [isIdle] using hw : f.lastWith word = [] ∨ f.lastWith word = ['.']) with hw | hw
      · simp [hw] at hlen
      · simp [hw] at hlen
  have hup : f.lastWith word ≠ ['.', '.'] := by
    intro hw
    -- then the stem alone would be a dot, and the extension would be missing
    obtain ⟨c, cs, hs⟩ := List.exists_cons_of_ne_nil hne
    rw [lastWith, hs, List.cons_append] at hw
    obtain ⟨rfl, hw⟩ := List.cons.inj hw
    have hcs : cs = [] ∧ word.toList ++ f.ending = [] := by
      cases cs with
      | nil => simpa using hw
      | cons d ds => simp at hw
    obtain ⟨rfl, hend⟩ := hcs
    cases shape_of_lastName? h with
    | whole hstem =>
      obtain ⟨-, -, -, hidle', -⟩ := named_of_lastName? h
      rw [← hstem, hs] at hidle'
      cases hidle'
    | atDot _ hending => simp [hending] at hend
  rw [saidBy_single hidle, Component.ofPiece, if_neg hup]

theorem lastWith_of_nameless {f : FileName} (h : f.lastName? = none) (word : String) :
    f.lastWith word = '.' :: word.toList := by
  simp [lastWith, stem, ending, h, cutAtLastDot]

theorem slash_notMem_lastWith (f : FileName) {word : String} (hw : '/' ∉ word.toList) :
    '/' ∉ f.lastWith word := by
  cases h : f.lastName? with
  | none =>
    rw [lastWith_of_nameless h]
    simpa using hw
  | some name =>
    obtain ⟨-, -, hp, -, -⟩ := named_of_lastName? h
    have hname : '/' ∉ name := notMem_of_mem_splitOn hp
    cases shape_of_lastName? h with
    | whole hstem hending => simp [lastWith, hstem, hending, hname, hw]
    | atDot extension hending _ _ hsplit =>
      rw [hsplit] at hname
      simp only [List.mem_append, List.mem_cons, not_or] at hname
      simp [lastWith, hending, hname, hw]

theorem components_qualified {f : FileName} (hf : f.isEmpty = false) {word : String}
    (hw : '/' ∉ word.toList) :
    (f.qualified word).components = f.directory ++ saidBy [f.lastWith word] := by
  have hslash := f.slash_notMem_lastWith hw
  rw [qualified_eq, withLast, directory]
  cases h : f.lastName? with
  | none => exact components_join hf hslash
  | some name =>
    obtain ⟨-, hsaid, -, -, -⟩ := named_of_lastName? h
    rw [if_pos (by rfl), if_pos (by rfl), ← components_withoutLast hsaid]
    cases he : f.withoutLast.isEmpty with
    | false => exact components_join he hslash
    | true =>
      -- then the last piece stands alone
      have hbase : f.withoutLast = ⟨""⟩ := by
        have ht : f.withoutLast.text = "" := by simpa [isEmpty] using he
        rw [← ht]
      have hnone : components ⟨""⟩ = [] := rfl
      have hlead : leadOf [f.lastWith word] = [] := by
        have hdot : f.lastWith word ≠ ['.'] := by
          intro hd
          have hs := said_lastWith h word
          rw [hd, saidBy_idle rfl] at hs
          cases hs
        simp [leadOf, hdot]
      rw [join, he, Bool.or_true, if_pos rfl, hbase, hnone, components_eq, pieces, String.toList_ofList,
        splitOn_of_notMem hslash, hlead]

theorem lastWith_ne_nil (f : FileName) (word : String) : f.lastWith word ≠ [] := by
  simp [lastWith]

theorem qualified_inj {f : FileName} (hf : f.isEmpty = false) {m n : String} (hm : '/' ∉ m.toList)
    (hn : '/' ∉ n.toList) (h : (f.qualified m).components = (f.qualified n).components) : m = n := by
  rw [components_qualified hf hm, components_qualified hf hn] at h
  have hlast := saidBy_inj (f.lastWith_ne_nil m) (f.lastWith_ne_nil n) (List.append_cancel_left h)
  simp only [lastWith, List.append_cancel_left_eq, List.cons.injEq, true_and,
    List.append_cancel_right_eq] at hlast
  exact String.toList_inj.1 hlast

/-- The last pieces are the same because the words are, or because the beginning of one word is the end of the
other name's stem. -/
theorem lastWith_eq_iff (f g : FileName) (m n : String) : f.lastWith m = g.lastWith n ↔
    (f.stem = g.stem ∧ m.toList ++ f.ending = n.toList ++ g.ending) ∨
      (∃ x, g.stem = f.stem ++ '.' :: x ∧ m.toList ++ f.ending = x ++ '.' :: (n.toList ++ g.ending)) ∨
      ∃ x, f.stem = g.stem ++ '.' :: x ∧ n.toList ++ g.ending = x ++ '.' :: (m.toList ++ f.ending) := by
  rw [lastWith, lastWith, List.append_eq_append_iff]
  constructor
  · rintro (⟨as, hg, has⟩ | ⟨as, hf, has⟩)
    · cases as with
      | nil => exact .inl ⟨by simpa using hg.symm, by simpa using has⟩
      | cons a as =>
        obtain ⟨rfl, htail⟩ := List.cons.inj has
        exact .inr (.inl ⟨as, hg, htail⟩)
    · cases as with
      | nil => exact .inl ⟨by simpa using hf, by simpa using has.symm⟩
      | cons a as =>
        obtain ⟨rfl, htail⟩ := List.cons.inj has
        exact .inr (.inr ⟨as, hf, htail⟩)
  · rintro (⟨hs, ht⟩ | ⟨x, hg, ht⟩ | ⟨x, hf, ht⟩)
    · exact .inl ⟨[], by simp [hs], by simp [ht]⟩
    · exact .inl ⟨'.' :: x, hg, by simp [ht]⟩
    · exact .inr ⟨'.' :: x, hf, by simp [ht]⟩

theorem Shape.eq_of_lastWith {f g : FileName} {a b : List Char} (hf : f.Shape a) (hg : g.Shape b)
    (hfs : f.stem ≠ []) (hgs : g.stem ≠ []) {m n : String} (hm : '.' ∉ m.toList) (hn : '.' ∉ n.toList)
    (h : f.lastWith m = g.lastWith n) : m = n := by
  cases hf with
  | whole fstem fending ffront =>
    cases hg with
    | whole gstem gending gfront =>
      simp only [lastWith, fending, gending, List.append_nil] at h
      exact String.toList_inj.1 (lastDot_inj h hm hn).2
    | atDot e gending last some split =>
      simp only [lastWith, fending, gending, List.append_nil] at h
      rw [← List.cons_append, ← List.append_assoc] at h
      have hs := (lastDot_inj h hm last).1
      exact absurd (ffront g.stem n.toList (fstem ▸ hs) hn) hgs
  | atDot e fending last some split =>
    cases hg with
    | whole gstem gending gfront =>
      simp only [lastWith, fending, gending, List.append_nil] at h
      rw [← List.cons_append, ← List.append_assoc] at h
      have hs := (lastDot_inj h last hn).1
      exact absurd (gfront f.stem m.toList (gstem ▸ hs.symm) hm) hfs
    | atDot e' gending last' some' split' =>
      simp only [lastWith, fending, gending] at h
      rw [← List.cons_append, ← List.append_assoc, ← List.cons_append, ← List.append_assoc] at h
      have hs := (lastDot_inj h last last').1
      exact String.toList_inj.1 (lastDot_inj hs hm hn).2

theorem lastName?_of_components {f : FileName} {before : List Component} {name : List Char}
    (h : f.components = before ++ [.named name]) : f.lastName? = some name := by
  rw [lastName?, h, List.getLast?_concat]

theorem said_of_nameless {f : FileName} (hf : f.lastName? = none) {word : String} (hw : '.' ∉ word.toList) :
    saidBy [f.lastWith word] = if word.toList = [] then [] else [.named ('.' :: word.toList)] := by
  rw [lastWith_of_nameless hf]
  split
  · rename_i h
    rw [h]
    rfl
  · rename_i h
    have hup : '.' :: word.toList ≠ ['.', '.'] := by
      intro he
      exact hw (by simp [(List.cons.inj he).2])
    rw [saidBy_single (by simpa [isIdle] using h), Component.ofPiece, if_neg hup]

/-- A name that ends in no name does not become one by a word without dots that ends in another name. -/
theorem nameless_ne_named {f g : FileName} (hf : f.isEmpty = false) (hg : g.isEmpty = false) {m n : String}
    (hm : '/' ∉ m.toList) (hn : '/' ∉ n.toList) (hmd : '.' ∉ m.toList) {name : List Char}
    (hfn : f.lastName? = none) (hgn : g.lastName? = some name) :
    (f.qualified m).components ≠ (g.qualified n).components := by
  intro h
  rw [components_qualified hf hm, components_qualified hg hn, said_lastWith hgn, said_of_nameless hfn hmd,
    directory_of_nameless hfn] at h
  split at h
  · rw [List.append_nil] at h
    rw [lastName?_of_components h] at hfn
    cases hfn
  · obtain ⟨-, hlast⟩ := List.append_inj' h rfl
    obtain ⟨c, cs, hs⟩ := List.exists_cons_of_ne_nil (stem_ne_nil hgn)
    have hlast := Component.named.inj (List.singleton_inj.1 hlast)
    rw [lastWith, hs, List.cons_append] at hlast
    exact hmd (by simp [(List.cons.inj hlast).2])

theorem eq_of_nameless {f g : FileName} (hf : f.isEmpty = false) (hg : g.isEmpty = false) {m n : String}
    (hm : '/' ∉ m.toList) (hn : '/' ∉ n.toList) (hmd : '.' ∉ m.toList) (hnd : '.' ∉ n.toList)
    (hfn : f.lastName? = none) (hgn : g.lastName? = none)
    (h : (f.qualified m).components = (g.qualified n).components) : m = n := by
  rw [components_qualified hf hm, components_qualified hg hn, said_of_nameless hgn hnd,
    said_of_nameless hfn hmd, directory_of_nameless hfn, directory_of_nameless hgn] at h
  split at h
  · rename_i hm'
    split at h
    · rename_i hn'
      exact String.toList_inj.1 (hm'.trans hn'.symm)
    · rw [List.append_nil] at h
      rw [lastName?_of_components h] at hfn
      cases hfn
  · split at h
    · rw [List.append_nil] at h
      rw [lastName?_of_components h.symm] at hgn
      cases hgn
    · obtain ⟨-, hlast⟩ := List.append_inj' h rfl
      have hlast := Component.named.inj (List.singleton_inj.1 hlast)
      exact String.toList_inj.1 (List.cons.inj hlast).2

/-- Whatever the two names are, words without dots do not meet in them. -/
theorem eq_of_meet {f g : FileName} (hf : f.isEmpty = false) (hg : g.isEmpty = false) {m n : String}
    (hm : '/' ∉ m.toList) (hn : '/' ∉ n.toList) (hmd : '.' ∉ m.toList) (hnd : '.' ∉ n.toList)
    (h : (f.qualified m).components = (g.qualified n).components) : m = n := by
  cases hfn : f.lastName? with
  | none =>
    cases hgn : g.lastName? with
    | none => exact eq_of_nameless hf hg hm hn hmd hnd hfn hgn h
    | some b => exact absurd h (nameless_ne_named hf hg hm hn hmd hfn hgn)
  | some a =>
    cases hgn : g.lastName? with
    | none => exact absurd h.symm (nameless_ne_named hg hf hn hm hnd hgn hfn)
    | some b =>
      rw [components_qualified hf hm, components_qualified hg hn, said_lastWith hfn, said_lastWith hgn] at h
      obtain ⟨-, hlast⟩ := List.append_inj' h rfl
      have hlast := Component.named.inj (List.singleton_inj.1 hlast)
      exact (shape_of_lastName? hfn).eq_of_lastWith (shape_of_lastName? hgn) (stem_ne_nil hfn)
        (stem_ne_nil hgn) hmd hnd hlast

theorem meet_iff {f g : FileName} (hf : f.isEmpty = false) (hg : g.isEmpty = false) {m n : String}
    (hm : '/' ∉ m.toList) (hn : '/' ∉ n.toList) (hfn : f.lastName?.isSome = true)
    (hgn : g.lastName?.isSome = true) : (f.qualified m).components = (g.qualified n).components ↔
      f.directory = g.directory ∧ f.lastWith m = g.lastWith n := by
  obtain ⟨a, ha⟩ := Option.isSome_iff_exists.1 hfn
  obtain ⟨b, hb⟩ := Option.isSome_iff_exists.1 hgn
  rw [components_qualified hf hm, components_qualified hg hn, said_lastWith ha, said_lastWith hb]
  constructor
  · intro h
    obtain ⟨hdir, hlast⟩ := List.append_inj' h rfl
    exact ⟨hdir, Component.named.inj (List.singleton_inj.1 hlast)⟩
  · rintro ⟨hdir, hlast⟩
    rw [hdir, hlast]

end EventHub.FileName
