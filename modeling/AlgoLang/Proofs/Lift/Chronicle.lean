/-
# Fragments are lifted in the order of the text

All that has been written is of one line, and every routine follows the lines of C that it comes from.
Fragments come in order, so the line that is being read only grows.  One invariant (`Level.Tidy`) is carried from
fragment to fragment; that programs are balanced, that the source map follows the text and that names stay apart
are read off it in the end.
-/
import AlgoLang.Proofs.CSource.Origins
import AlgoLang.Proofs.Lift.Walk

namespace AlgoLang.Lift

open Sketch Text CSource List String Option Scene.Tidy

variable {sk : Sketch} {cs : List Char} {name : String} {head : CompoundHead} {m : Definition}
  {ms : List (List Char)} {next : List Fragment}
variable {now : Nat} {s : Scene}

/-! ## Fragments -/

def Progress.Tidy (now : Nat) : Progress → Prop
  | .inside s left => s.Tidy now ∧ OneLine left
  | .outside sk => sk.Tidy now

lemma Stride.tidy {n : Nat} {p : Progress} (hstride : Stride now s n p) (h : s.Tidy now) : p.Tidy now := by
  cases hstride with
  | inside m hleft => exact ⟨m.tidy h, hleft⟩
  | done m hblocks isMain =>
    have h₁ := m.tidy h
    have hroutine := h₁.routine
    rw [hblocks] at hroutine
    exact h₁.sketch.store isMain (hroutine.finish (isPresent_some now)) hroutine.unmatched

lemma Scene.Tidy.abandon (h : s.Tidy now) : s.abandon.Tidy now := by
  obtain ⟨hwork, hblocks⟩ := OpenRoutine.Work.closeAll now s.routine.blocks rfl
  have hclosed := hwork.tidy h.routine
  rw [hblocks] at hclosed
  exact (h.sketch.warn _).store _ (hclosed.finish (isPresent_none now)) hclosed.unmatched

/-! ## The outer level -/

lemma afterParams?_subset {rest : List Char} (h : afterParams? cs = some rest) : rest ⊆ cs := by
  unfold afterParams? at h
  split at h
  · next r =>
    have hsuffix : r.dropWhile (· != ')') <:+ r := dropWhile_suffix _
    split at h
    · next heq =>
      cases h
      rw [heq] at hsuffix
      exact subset_cons_of_subset _ ((suffix_cons _ rest).trans hsuffix).subset
    · cases h
  · cases h

lemma oneLine_definition? (h : OneLine cs)
    (hm : definition? cs = some m) : OneLine m.name.toList ∧ OneLine m.value := by
  unfold definition? at hm
  split at hm
  · have hbody := (h.tail.trimStart.drop 6).trimStart
    dsimp only at hm
    split at hm
    · have hname := hbody.takeWhile isWordChar
      have hrest := hbody.dropWhile isWordChar
      split at hm
      · next value hvalue =>
        cases hm
        exact ⟨by rwa [toList_ofList], (hrest.of_subset (afterParams?_subset hvalue)).trimStart⟩
      · cases hm
        exact ⟨by rwa [toList_ofList], hrest.trimStart⟩
    · cases hm
  · cases hm

lemma define_tidy (h : sk.Tidy now) (hname : OneLine m.name.toList) (hvalue : OneLine m.value) :
    Ensures (sk.define m) fun sk' => sk'.Tidy now := by
  have hliteral : Ensures (if m.hasParams then .ok none else literal? m.value) fun v =>
      ∀ s ∈ v, OneLine s.toList := by
    split
    · exact .ok fun _ hs => nomatch hs
    · exact oneLine_literal? hvalue
  unfold define
  split
  · exact .ok h
  · refine (attempt_ensures hliteral).bind fun v hv => ?_
    split
    · next value =>
      refine .ok { h with constants := forall_mem_append.mpr ⟨h.constants, ?_⟩ }
      exact forall_mem_singleton.mpr ⟨oneLine_safeName hname, hv value rfl⟩
    · exact .ok (h.warn _)

lemma oneLine_onlyName? (h : OneLine cs) (hname : onlyName? cs = some name) : OneLine name.toList := by
  unfold onlyName? at hname
  split at hname
  · next w r hword =>
    dsimp only at hname
    split at hname
    · cases hname
      rw [toList_ofList]
      exact (h.takeWord? hword).1
    · cases hname
  · cases hname

lemma Sketch.Tidy.typedef {text : List Char} (h : sk.Tidy now)
    (htext : OneLine text) : (sk.typedef text).Tidy now := by
  unfold Sketch.typedef
  dsimp only
  split
  · exact h.warn _
  · next type name hfound =>
    obtain ⟨t, ht, hname⟩ := bind_eq_some_iff.mp hfound
    obtain ⟨n, hn, heq⟩ := map_eq_some_iff.mp hname
    cases heq
    obtain ⟨htype, hrest⟩ := oneLine_typed? h.typeNames (htext.drop 7) ht
    have hsafe := oneLine_safeName (oneLine_onlyName? hrest hn)
    split
    · refine { h with types := ?_, typeNames := h.typeNames.put _ hsafe }
      exact forall_mem_append.mpr ⟨h.types, forall_mem_singleton.mpr ⟨hsafe, htype⟩⟩
    · exact { h with typeNames := h.typeNames.put _ htype }

lemma mem_members {p : List Char} (fs : List Fragment) : ∀ depth : Nat, p ∈ (members depth fs).1 →
    ∃ f ∈ fs, f.text = p := by
  induction fs with
  | nil => exact fun _ h => nomatch h
  | cons f fs ih =>
    intro depth hp
    have hmore (d : Nat) (hmem : p ∈ (members d fs).1) : ∃ g ∈ f :: fs, g.text = p := by
      obtain ⟨g, hg, heq⟩ := ih d hmem
      exact ⟨g, mem_cons_of_mem _ hg, heq⟩
    unfold members at hp
    split at hp
    · split at hp
      · cases hp
      · exact hmore _ hp
    · split at hp
      · exact hmore _ hp
      · dsimp only at hp
        split at hp
        · rcases mem_cons.mp hp with rfl | hp
          · exact ⟨f, mem_cons_self, rfl⟩
          · exact hmore _ hp
        · exact hmore _ hp

lemma oneLine_enumValues (h : ∀ m ∈ ms, OneLine m) : OneLineRows (enumValues ms) := by
  intro s hs
  obtain ⟨item, hitem, hsome⟩ := mem_filterMap.mp hs
  obtain ⟨m, hm, hpart⟩ := mem_flatMap.mp hitem
  dsimp only at hsome
  split at hsome
  · obtain rfl := Option.some.inj hsome
    refine oneLine_safeName ?_
    rw [toList_ofList]
    exact (((h m hm).splitTopLevel hpart).takeWhile _).trim
  · cases hsome

lemma memberFields_vars {names : Keyed String} (hnames : OneLineValues names) {m : List Char}
    (h : OneLine m) : ∀ v ∈ (memberFields names m).vars, v.OneLine := by
  unfold memberFields
  split
  · next t ht =>
    obtain ⟨htype, hrest⟩ := oneLine_typed? hnames h ht
    exact (oneLine_declareList false htype (hrest.dropEnd _)).vars
  · exact forall_mem_nil _

lemma recordFields_tidy (ms : List (List Char)) : ∀ {sk : Sketch}, sk.Tidy now → (∀ m ∈ ms, OneLine m) →
    Ensures (sk.recordFields ms) fun r => r.1.Tidy now ∧ ∀ v ∈ r.2, v.OneLine := by
  intro sk h hms
  unfold recordFields
  have hfields : ∀ v ∈ ([] : List Variable), v.OneLine := forall_mem_nil _
  generalize ([] : List Variable) = fields at hfields
  induction ms generalizing sk fields with
  | nil => exact .ok ⟨h, hfields⟩
  | cons m ms ih =>
    refine .bind (P := fun r => r.1.Tidy now ∧ ∀ v ∈ r.2, v.OneLine) ?_ ?_
    · dsimp only
      split
      · exact fun _ hr => nomatch hr
      · refine .ok ⟨h.warn _, forall_mem_append.mpr ⟨hfields, ?_⟩⟩
        exact memberFields_vars h.typeNames (hms m mem_cons_self)
    · rintro ⟨sk₁, fields₁⟩ ⟨h₁, hfields₁⟩
      exact ih h₁ (fun n hn => hms n (mem_cons_of_mem _ hn)) fields₁ hfields₁

lemma Sketch.Tidy.addCompound {entry : TypeEntry}
    (h : sk.Tidy now) (head : CompoundHead) (hname : OneLine name.toList) (hentry : entry.OneLine) :
    (sk.addCompound head name entry).Tidy now := by
  have hsafe := oneLine_safeName hname
  refine { h with types := ?_, typeNames := ?_ }
  · exact forall_mem_append.mpr ⟨h.types, forall_mem_singleton.mpr hentry⟩
  · show OneLineValues (head.tag.elim _ _)
    cases head.tag with
    | none => exact h.typeNames.put _ hsafe
    | some tag => exact (h.typeNames.put _ hsafe).put _ hsafe

lemma compoundNamed_tidy (h : sk.Tidy now) (head : CompoundHead) (hname : OneLine name.toList)
    (hms : ∀ m ∈ ms, OneLine m) : Ensures (sk.compoundNamed head name ms) fun sk' => sk'.Tidy now := by
  have hsafe := oneLine_safeName hname
  unfold compoundNamed
  split
  · have hvalues := oneLine_enumValues hms
    split
    · exact .ok h
    · exact .ok (h.addCompound head hname ⟨hsafe, hvalues⟩)
  · refine .map fun r hr => ?_
    obtain ⟨htidy, hfields⟩ := recordFields_tidy ms h hms r hr
    obtain ⟨sk₁, fields⟩ := r
    cases fields with
    | nil => exact htidy
    | cons f fs => exact htidy.addCompound head hname ⟨hsafe, hfields⟩

lemma oneLine_compoundHead? (h : OneLine cs)
    (hhead : compoundHead? cs = some head) : ∀ tag ∈ head.tag, OneLine tag.toList := by
  have hafter : OneLine (afterTypedef cs) := by
    unfold afterTypedef
    split
    · exact (h.drop 7).trimStart
    · exact h
  unfold compoundHead? at hhead
  split at hhead
  · next w r hword =>
    have hr := (hafter.takeWord? hword).2
    dsimp only at hhead
    split at hhead
    · cases hhead
      intro tag htag
      split at htag
      · obtain ⟨⟨t, rest⟩, ht, rfl⟩ := map_eq_some_iff.mp htag
        rw [toList_ofList]
        exact (oneLine_leadingWord? hr ht).1
      · cases htag
    · cases hhead
  · cases hhead

lemma oneLine_compoundTail? (h : OneLine cs) : ∀ name ∈ (compoundTail? cs).join, OneLine name.toList := by
  intro name hname
  obtain ⟨tail, htail, hjoin⟩ : ∃ tail, compoundTail? cs = some tail ∧ tail = some name := by
    cases hc : compoundTail? cs with
    | none =>
      rw [hc] at hname
      cases hname
    | some tail =>
      rw [hc] at hname
      exact ⟨tail, rfl, hname⟩
  unfold compoundTail? at htail
  cases hword : takeWord? cs with
  | none =>
    rw [hword] at htail
    dsimp only at htail
    split at htail
    · cases htail
      cases hjoin
    · cases htail
  | some p =>
    rw [hword] at htail
    dsimp only at htail
    split at htail
    · cases htail
      cases hjoin
      rw [toList_ofList]
      exact (h.takeWord? hword).1
    · cases htail

lemma oneLine_upcoming {fs : List Fragment} (h : ∀ f ∈ fs, OneLine f.text) : OneLine (upcoming fs) := by
  cases fs with
  | nil => exact .nil
  | cons f fs => exact h f mem_cons_self

lemma compound_tidy (h : sk.Tidy now) (hhead : ∀ tag ∈ head.tag, OneLine tag.toList) (text : List Char)
    (hnext : ∀ f ∈ next, OneLine f.text) : Ensures (sk.compound head text next) fun r => r.1.Tidy now := by
  have hdrop (n : Nat) : ∀ f ∈ next.drop n, OneLine f.text := fun f hf => hnext f (drop_subset n next hf)
  have hmembers (n : Nat) : ∀ m ∈ (members 0 (next.drop n)).1, OneLine m := by
    intro m hm
    obtain ⟨f, hf, rfl⟩ := mem_members _ 0 hm
    exact hdrop n f hf
  have hnamed {name : Option String} {ms : List (List Char)} (hname : ∀ n ∈ name, OneLine n.toList)
      (hms : ∀ m ∈ ms, OneLine m) :
      Ensures (name.elim (.ok sk) fun n => sk.compoundNamed head n ms) fun sk' => sk'.Tidy now := by
    cases name with
    | none => exact .ok h
    | some n => exact compoundNamed_tidy h head (hname n rfl) hms
  refine .map (hnamed ?_ (hmembers _))
  intro n hn
  rcases or_eq_some_iff.mp hn with hn | ⟨-, hn⟩
  · exact oneLine_compoundTail? (oneLine_upcoming (hdrop _)) n hn
  · exact hhead n hn

/-! ## Routines are opened -/

def Level.Tidy (now : Nat) : Level → Prop
  | .outer sk _ => sk.Tidy now
  | .routine s => s.Tidy now

lemma oneLine_routineHead? {head : RoutineHead} (h : OneLine cs)
    (hhead : routineHead? cs = some head) : OneLine head.name.toList ∧ OneLine head.params := by
  have haround {r params tail : List Char} (hr : OneLine r)
      (haround : aroundLastParen? r = some (params, tail)) : OneLine params := by
    have hreverse := hr.reverse.dropWhile (· != ')')
    unfold aroundLastParen? at haround
    split at haround
    · next heq =>
      cases haround
      rw [heq] at hreverse
      exact hreverse.tail.reverse
    · cases haround
  unfold routineHead? at hhead
  split at hhead
  · cases hhead
  · next w r hword =>
    obtain ⟨hw, hr⟩ := (h.dropWhile _).trimStart.takeWord? hword
    have hname : OneLine (ofList w).toList := by rwa [toList_ofList]
    have htrim := hr.trimStart
    split at hhead
    · next inside hinside =>
      rw [hinside] at htrim
      split at hhead
      · next params tail hparams =>
        have hp := haround htrim.tail hparams
        split at hhead
        · cases hhead
          exact ⟨hname, hp⟩
        · split at hhead
          · cases hhead
            exact ⟨hname, hp⟩
          · cases hhead
        · cases hhead
      · cases hhead
    · cases hhead

lemma notePointers_tidy (h : sk.Tidy now) (head : RoutineHead) : (sk.notePointers head).Tidy now := by
  unfold notePointers
  split
  · exact h
  · exact { h with }

lemma openRoutine_tidy {head : RoutineHead} {type : String} (h : sk.Tidy now)
    (hname : OneLine head.name.toList) (hparams : OneLine head.params) (htype : OneLine type.toList) :
    (sk.openRoutine head type now).Tidy now := by
  have htrail : [now].Pairwise (· ≤ ·) ∧ ∀ n ∈ [now], n ≤ now :=
    ⟨pairwise_singleton _ _, forall_mem_singleton.mpr (Nat.le_refl now)⟩
  have hnone {P : String → Prop} : ∀ s ∈ (none : Option String), P s := fun _ hs => nomatch hs
  unfold openRoutine
  split
  · have hmain : OneLine "main".toList := by decide
    exact ⟨⟨⟨hmain, hnone, .nil, forall_mem_nil _, .nil, forall_mem_nil _,
      htrail.1, htrail.2⟩, rfl, forall_mem_nil _, rfl, rfl⟩, h⟩
  · have hresult : ∀ s ∈ (if type == "VOID" then none else some type), OneLine s.toList := by
      intro s hs
      split at hs
      · cases hs
      · cases hs
        exact htype
    exact ⟨⟨⟨oneLine_safeName hname, hresult, oneLine_liftParams h.typeNames hparams,
      forall_mem_nil _, .nil, forall_mem_nil _, htrail.1, htrail.2⟩, rfl, forall_mem_nil _, rfl, rfl⟩, h.warn _⟩

lemma typedFragment_tidy {t : Typed} (h : sk.Tidy now) (htype : OneLine t.type.toList) (hrest : OneLine t.rest) :
    Ensures (sk.typedFragment t now) (Level.Tidy now) := by
  unfold typedFragment
  split
  · next head hhead =>
    obtain ⟨hname, hparams⟩ := oneLine_routineHead? hrest hhead
    have hnoted := notePointers_tidy h head
    split
    · exact .ok hnoted
    · refine .ok (openRoutine_tidy hnoted hname hparams ?_)
      split
      · decide
      · exact htype
  · refine (attempt_ensures (oneLine_declaration t.isConst htype (hrest.dropEnd _))).bind fun d hd => ?_
    obtain ⟨hdeclared, hinitials⟩ := h.declare hd
    refine .ok { hdeclared with initials := forall_mem_append.mpr ⟨hdeclared.initials, fun i hi => ?_⟩ }
    obtain ⟨s, hs, rfl⟩ := mem_map.mp hi
    exact ⟨hinitials s hs, Nat.le_refl now⟩

lemma outerFragment_tidy {f : Fragment} (h : sk.Tidy f.origin)
    (hf : OneLine f.text) (hnext : ∀ g ∈ next, OneLine g.text) :
    Ensures (sk.fragment f next) (Level.Tidy f.origin) := by
  unfold Sketch.fragment
  split
  · split
    · next m hm =>
      obtain ⟨hname, hvalue⟩ := oneLine_definition? hf hm
      exact (define_tidy h hname hvalue).bind fun sk₁ h₁ => .ok h₁
    · exact .ok h
  · split
    · exact .ok h
    · split
      · next head hhead =>
        have htag := oneLine_compoundHead? hf (filter_eq_some_iff.mp hhead).1
        exact (compound_tidy h htag f.text hnext).bind fun r hr => .ok hr
      · split
        · exact .ok (h.typedef hf)
        · split
          · exact .ok (h.warn _)
          · next t ht =>
            obtain ⟨htype, hrest⟩ := oneLine_typed? h.typeNames hf ht
            exact typedFragment_tidy h htype hrest

/-! ## Whole texts -/

lemma Level.Tidy.step {level : Level} {f : Fragment} (h : level.Tidy now) (hle : now ≤ f.origin) (hf : OneLine f.text)
    (hnext : ∀ g ∈ next, OneLine g.text) : Ensures (level.step f next) (Level.Tidy f.origin) := by
  unfold Level.step
  split
  · exact .ok (.later h hle)
  · exact outerFragment_tidy (.later h hle) hf hnext
  · have hlater := later h hle
    refine .bind (fun p hp => (fragmentWith_stride 0 _ _ hlater hf p hp).tidy hlater) ?_
    intro p hp
    cases p with
    | inside s₁ left => exact .ok hp.1
    | outside sk => exact .ok hp

lemma Level.Tidy.after {last : Nat} (hnext : ∀ g ∈ next, OneLine g.text) (past : List Fragment) :
    ∀ {level : Level} {now : Nat}, level.Tidy now → now ≤ last → (past.map Fragment.origin).Pairwise (· ≤ ·) →
      (∀ f ∈ past, now ≤ f.origin ∧ f.origin ≤ last ∧ OneLine f.text) →
        Ensures (level.after next past) (Level.Tidy last) := by
  induction past with
  | nil =>
    intro level now h hle _ _
    refine .ok ?_
    cases level with
    | outer sk taken => exact .later h hle
    | routine s => exact later h hle
  | cons f past ih =>
    intro level now h hle hsorted hfs
    obtain ⟨hlow, hhigh, hf⟩ := hfs f mem_cons_self
    rw [map_cons, pairwise_cons] at hsorted
    have hrest : ∀ g ∈ past, f.origin ≤ g.origin ∧ g.origin ≤ last ∧ OneLine g.text := by
      intro g hg
      obtain ⟨-, hhigh', hg'⟩ := hfs g (mem_cons_of_mem _ hg)
      exact ⟨hsorted.1 g.origin (mem_map_of_mem hg), hhigh', hg'⟩
    have hbehind : ∀ g ∈ past ++ next, OneLine g.text :=
      forall_mem_append.mpr ⟨fun g hg => (hrest g hg).2.2, hnext⟩
    exact (h.step hlow hf hbehind).bind fun level' h' => ih h' hhigh hsorted.2 hrest

section

variable {code : String} {files : Files} {style : Style}

/-- All that comes of the front of a text is of one line and comes from lines of that text, in order. -/
lemma after_tidy {past : List Fragment} (hsplit : splitFragments (expand files code).lines = past ++ next) :
    Ensures ((startLevel code files style).after next past) (Level.Tidy ((splitAt '\n' code.toList).length - 1)) := by
  obtain ⟨hsorted, hfs⟩ := splitFragments_origins files code
  rw [hsplit, map_append, pairwise_append] at hsorted
  rw [hsplit, forall_mem_append] at hfs
  refine Level.Tidy.after (fun g hg => (hfs.2 g hg).2) past ?_ (Nat.zero_le _) hsorted.1 ?_
  · exact ⟨forall_mem_nil _, forall_mem_nil _, forall_mem_nil _, .nil, forall_mem_nil _, forall_mem_nil _⟩
  · exact fun f hf => ⟨Nat.zero_le _, Nat.le_sub_one_of_lt (hfs.1 f hf).1, (hfs.1 f hf).2⟩

lemma fragments_tidy : Ensures (fragments (startLevel code files style) (splitFragments (expand files code).lines))
    fun sk => sk.Tidy ((splitAt '\n' code.toList).length - 1) := by
  have hsplit := (append_nil (splitFragments (expand files code).lines)).symm
  rw [hsplit, fragments_append]
  refine (after_tidy hsplit).bind ?_
  intro level htidy
  cases level with
  | outer sk' taken => exact .ok htidy
  | routine s => exact .ok (abandon htidy)

end

end AlgoLang.Lift
