/-
# Simple statements are written row by row

The rows of a simple statement, the head of a counting loop and the value of a label hold no newline
if the text of the statement holds none.
-/
import AlgoLang.Proofs.Lift.OneLine

namespace AlgoLang.Lift

open Text CSource List Option

variable {cs rest target value : List Char} {rows items : List String} {args : List (List Char)}
  {r : List Char × List Char} {c : Call} {a : Assignment} {sign : Char}

def OneLineRows (rows : List String) : Prop :=
  ∀ s ∈ rows, OneLine s.toList

lemma OneLineRows.nil : OneLineRows [] :=
  forall_mem_nil _

lemma OneLineRows.one {s : String} (h : OneLine s.toList) : OneLineRows [s] :=
  forall_mem_singleton.mpr h

lemma oneLineRows_map_liftExpr (h : ∀ a ∈ args, OneLine a) : OneLineRows (args.map liftExpr) := by
  intro s hs
  obtain ⟨a, ha, rfl⟩ := mem_map.mp hs
  exact oneLine_liftExpr (h a ha)

/-! ## Shapes -/

lemma oneLine_valueAfterEquals? (h : OneLine cs) (hv : valueAfterEquals? cs = some value) : OneLine value := by
  unfold valueAfterEquals? at hv
  split at hv
  · cases hv
  · split at hv
    · cases hv
    · cases hv
      exact h.tail.trimStart
  · cases hv

lemma afterIndices_suffix (cs : List Char) : afterIndices cs <:+ cs := by
  rw [afterIndices]
  split
  · next r hr =>
    split
    · next after hafter =>
      have hfirst : trimStart cs <:+ cs := dropWhile_suffix _
      have hsecond : r.dropWhile (· != ']') <:+ r := dropWhile_suffix _
      rw [hr] at hfirst
      rw [hafter] at hsecond
      have hrest : after <:+ cs :=
        ((suffix_cons _ after).trans hsecond).trans ((suffix_cons _ r).trans hfirst)
      have hshorter : after.length < cs.length := by
        have h₁ := hfirst.length_le
        have h₂ := hsecond.length_le
        simp only [length_cons] at h₁ h₂
        omega
      exact (afterIndices_suffix after).trans hrest
    · exact suffix_refl cs
  · exact suffix_refl cs
termination_by cs.length

lemma takeWord?_suffix {w : List Char} (h : takeWord? cs = some (w, rest)) : rest <:+ cs := by
  cases cs with
  | nil => cases h
  | cons c cs =>
    simp only [takeWord?, ite_none_right_eq_some, some.injEq, Prod.mk.injEq] at h
    obtain ⟨-, -, rfl⟩ := h
    exact (dropWhile_suffix _).trans (suffix_cons c cs)

lemma afterFields_suffix (cs : List Char) : afterFields cs <:+ cs := by
  rw [afterFields]
  split
  · next r hr =>
    split
    · next w rest hword =>
      have hfirst : trimStart cs <:+ cs := dropWhile_suffix _
      rw [hr] at hfirst
      have htrim : trimStart r <:+ r := dropWhile_suffix _
      have hrest : afterIndices rest <:+ cs :=
        (((afterIndices_suffix rest).trans (takeWord?_suffix hword)).trans htrim).trans ((suffix_cons _ r).trans hfirst)
      have hshorter : (afterIndices rest).length < cs.length := by
        have h₁ := hfirst.length_le
        have h₂ := ((afterIndices_suffix rest).trans (takeWord?_suffix hword)).length_le
        have h₃ := htrim.length_le
        simp only [length_cons] at h₁
        omega
      exact (afterFields_suffix _).trans hrest
    · exact suffix_refl cs
  · exact suffix_refl cs
termination_by cs.length

lemma afterTarget?_suffix (h : afterTarget? cs = some rest) : rest <:+ cs := by
  obtain ⟨⟨w, r⟩, hword, rfl⟩ := map_eq_some_iff.mp h
  exact ((afterFields_suffix _).trans (afterIndices_suffix r)).trans (takeWord?_suffix hword)

section

variable (h : OneLine cs)
include h

lemma oneLine_assignment? (ha : assignment? cs = some a) :
    OneLine a.target ∧ OneLine a.value ∧ ∀ op ∈ a.op, op ≠ '\n' := by
  unfold assignment? at ha
  split at ha
  · cases ha
  · next rest hrest =>
    have htrim := (h.of_subset (afterTarget?_suffix hrest).subset).trimStart
    split at ha
    · cases ha
    · next c r hr =>
      rw [hr] at htrim
      split at ha
      · obtain ⟨v, hv, rfl⟩ := map_eq_some_iff.mp ha
        refine ⟨h.take _, oneLine_valueAfterEquals? htrim.tail hv, ?_⟩
        rintro _ ⟨⟩
        exact (OneLine.cons_iff.mp htrim).1
      · obtain ⟨v, hv, rfl⟩ := map_eq_some_iff.mp ha
        exact ⟨h.take _, oneLine_valueAfterEquals? htrim hv, by simp⟩

lemma oneLine_increment? (hi : increment? cs = some (sign, target)) : OneLine target ∧ sign ≠ '\n' := by
  have hreverse := h.reverse
  unfold increment? at hi
  split at hi
  · cases hi
    exact ⟨h.tail.tail.trimStart, by decide⟩
  · cases hi
    exact ⟨h.tail.tail.trimStart, by decide⟩
  · split at hi
    · next heq =>
      rw [heq] at hreverse
      cases hi
      exact ⟨hreverse.tail.tail.reverse.trimEnd, by decide⟩
    · next heq =>
      rw [heq] at hreverse
      cases hi
      exact ⟨hreverse.tail.tail.reverse.trimEnd, by decide⟩
    · cases hi

lemma oneLine_call? (hc : call? cs = some c) : OneLine c.name.toList ∧ OneLine c.args := by
  unfold call? at hc
  split at hc
  · cases hc
  · next w r hword =>
    obtain ⟨hw, hr⟩ := h.takeWord? hword
    have htrim := hr.trimStart
    split at hc
    · next inside hinside =>
      rw [hinside] at htrim
      split at hc
      · cases hc
        exact ⟨by rwa [String.toList_ofList], htrim.tail.dropLast⟩
      · cases hc
    · cases hc

end

/-! ## Labels and heads -/

/-- The text begins with a word, and the part comes from behind it. -/
def Follows (word : String) (text part : List Char) : Prop :=
  ∃ behind, text = word.toList ++ behind ∧ part <+ behind

lemma Follows.of_isPrefixOf {word : String} (h : word.toList.isPrefixOf cs) (hrest : rest <+ cs.drop word.length) :
    Follows word cs rest := by
  obtain ⟨behind, rfl⟩ := isPrefixOf_iff_prefix.mp h
  rw [← String.length_toList, drop_left] at hrest
  exact ⟨behind, rfl, hrest⟩

lemma Follows.oneLine {word : String} (h : Follows word cs rest) (hcs : OneLine cs) : OneLine rest := by
  obtain ⟨behind, rfl, hrest⟩ := h
  exact (OneLine.append_iff.mp hcs).2.of_subset hrest.subset

lemma afterColon?_sublist (h : afterColon? cs = some rest) : rest <+ cs := by
  unfold afterColon? at h
  split at h
  · cases h
  · next heq =>
    cases h
    exact (trim_sublist _).trans (suffix_of_trimStart heq).sublist
  · cases h

lemma charLabel?_sublist (hr : charLabel? cs = some r) : r.1 <+ cs ∧ r.2 <+ cs := by
  unfold charLabel? at hr
  rw [orElse_eq_orElse, orElse_eq_or] at hr
  rcases or_eq_some_iff.mp hr with hr | ⟨-, hr⟩
  · split at hr
    · obtain ⟨after, hafter, rfl⟩ := map_eq_some_iff.mp hr
      exact ⟨by simp, ((((afterColon?_sublist hafter).cons _).cons _).cons _).cons _⟩
    · cases hr
  · split at hr
    · split at hr
      · cases hr
      · obtain ⟨after, hafter, rfl⟩ := map_eq_some_iff.mp hr
        exact ⟨by simp, (((afterColon?_sublist hafter).cons _).cons _).cons _⟩
    · cases hr

lemma plainLabel?_sublist {blanks : List Char} (hr : plainLabel? blanks cs = some r) :
    r.1 <+ blanks ++ cs ∧ r.2 <+ cs := by
  have hrest {rest : List Char} (hafter : afterColon? (cs.dropWhile (· != ':')) = some rest) : rest <+ cs :=
    (afterColon?_sublist hafter).trans (dropWhile_sublist _)
  unfold plainLabel? at hr
  dsimp only at hr
  split at hr
  · cases hr
  · next rest _ hafter =>
    split at hr
    · next b _ _ heq =>
      cases hr
      have hmem : b ∈ blanks := mem_reverse.mp (heq ▸ mem_cons_self)
      exact ⟨singleton_sublist.mpr (mem_append_left cs hmem), hrest hafter⟩
    · cases hr
  · next rest hafter _ =>
    cases hr
    have hvalue := (trimEnd_sublist _).trans (takeWhile_sublist (l := cs) (· != ':'))
    exact ⟨hvalue.trans (sublist_append_right blanks cs), hrest hafter⟩

lemma caseLabel?_follows (hr : caseLabel? cs = some r) : Follows "case" cs r.1 ∧ Follows "case" cs r.2 := by
  unfold caseLabel? at hr
  split at hr
  · next hcase =>
    have hbody : trimStart (cs.drop 4) <+ cs.drop 4 := dropWhile_sublist _
    suffices h : r.1 <+ cs.drop 4 ∧ r.2 <+ cs.drop 4 from ⟨.of_isPrefixOf hcase h.1, .of_isPrefixOf hcase h.2⟩
    dsimp only at hr
    split at hr
    · cases hr
    · rw [orElse_eq_orElse, orElse_eq_or] at hr
      rcases or_eq_some_iff.mp hr with hr | ⟨-, hr⟩
      · exact (charLabel?_sublist hr).imp (·.trans hbody) (·.trans hbody)
      · refine (plainLabel?_sublist hr).imp (fun h => ?_) (·.trans hbody)
        rwa [trimStart, takeWhile_append_dropWhile] at h
  · cases hr

lemma defaultLabel?_follows (h : defaultLabel? cs = some rest) : Follows "default" cs rest := by
  unfold defaultLabel? at h
  split at h
  · next hdefault =>
    split at h
    · next heq =>
      cases h
      exact .of_isPrefixOf hdefault ((trim_sublist _).trans (suffix_of_trimStart heq).sublist)
    · cases h
  · cases h

lemma headerOf?_follows {keyword : String} (hr : headerOf? keyword cs = some r) :
    Follows keyword cs r.1 ∧ Follows keyword cs r.2 := by
  obtain ⟨hkeyword, hr⟩ := ite_none_right_eq_some.mp hr
  have hword := (Bool.and_eq_true_iff.mp hkeyword).1
  exact (header?_sublist hr).imp (.of_isPrefixOf hword) (.of_isPrefixOf hword)

/-! ## Reading and printing -/

lemma oneLine_commaList (h : OneLineRows items) : OneLine (", ".intercalate items).toList := by
  rw [String.toList_intercalate]
  refine .intercalate (by decide) fun p hp => ?_
  obtain ⟨s, hs, rfl⟩ := mem_map.mp hp
  exact h s hs

lemma oneLine_wordCall {word : String} (hword : OneLine word.toList)
    (hitems : OneLineRows items) : OneLine (wordCall word items).toList := by
  have hlist := oneLine_commaList hitems
  rw [wordCall]
  simp only [String.toList_append, OneLine.append_iff]
  exact ⟨⟨⟨hword, by decide⟩, hlist⟩, by decide⟩

lemma oneLine_scanLines (h : ∀ a ∈ args, OneLine a) (hrows : scanLines args = some rows) : OneLineRows rows := by
  unfold scanLines at hrows
  dsimp only at hrows
  split at hrows
  · cases hrows
  · cases hrows
    refine .one (oneLine_wordCall (by decide) (oneLineRows_map_liftExpr fun a ha => ?_))
    obtain ⟨b, hb, rfl⟩ := mem_map.mp ha
    exact ((h b (mem_of_mem_tail hb)).dropWhile _).trim

lemma oneLine_putLines (h : ∀ a ∈ args, OneLine a) (hrows : putLines args = some rows) : OneLineRows rows := by
  unfold putLines at hrows
  split at hrows
  · next a =>
    split at hrows
    · cases hrows
      refine .one (oneLine_wordCall (by decide) (.one (oneLine_liftExpr (h a ?_))))
      exact mem_singleton_self a
    · cases hrows
  · cases hrows

lemma oneLineRows_textItem (h : OneLine cs) : OneLineRows (textItem cs) := by
  unfold textItem
  split
  · exact .nil
  · refine .one ?_
    rw [String.toList_ofList]
    exact (OneLine.cons_iff.mpr ⟨by decide, h⟩).append (by decide)

lemma oneLine_formatFrom {format : List Char} (hformat : OneLine format) :
    ∀ {text : List Char} {args : List (List Char)} {skip : Nat} {items : List String}, OneLine text →
      (∀ a ∈ args, OneLine a) → formatFrom text args skip format = some items → OneLineRows items := by
  induction format with
  | nil =>
    intro text args skip items htext hargs hitems
    cases hitems
    exact forall_mem_append.mpr ⟨oneLineRows_textItem htext, oneLineRows_map_liftExpr hargs⟩
  | cons c cs ih =>
    intro text args skip items htext hargs hitems
    have hrest := hformat.tail
    have hc : c ≠ '\n' := (OneLine.cons_iff.mp hformat).1
    cases skip with
    | succ n => exact ih hrest htext hargs hitems
    | zero =>
      simp only [formatFrom] at hitems
      split at hitems
      · exact ih hrest (htext.append (by decide)) hargs hitems
      · next d hhead =>
        have hd : d ≠ '\n' := by
          rintro rfl
          exact hrest (mem_of_mem_head? hhead)
        refine ih hrest (htext.append ?_) hargs hitems
        simp [hd, OneLine.nil]
      · split at hitems
        · next rest a args' _ =>
          obtain ⟨items', hitems', rfl⟩ := map_eq_some_iff.mp hitems
          have hmore := ih hrest .nil (fun b hb => hargs b (mem_cons_of_mem _ hb)) hitems'
          refine forall_mem_append.mpr ⟨oneLineRows_textItem htext, ?_⟩
          exact forall_mem_cons.mpr ⟨oneLine_liftExpr (hargs a mem_cons_self), hmore⟩
        · cases hitems
        · exact ih hrest (htext.append (by simp [hc, OneLine.nil])) hargs hitems
      · exact ih hrest (htext.append (by simp [hc, OneLine.nil])) hargs hitems

lemma oneLine_printLines (h : ∀ a ∈ args, OneLine a) (hrows : printLines args = some rows) : OneLineRows rows := by
  have hprint : OneLine "PRINT".toList := by decide
  unfold printLines at hrows
  split at hrows
  · cases hrows
  · next format more =>
    have hformat := h format mem_cons_self
    have hmore (a : List Char) (ha : a ∈ more) := h a (mem_cons_of_mem _ ha)
    split at hrows
    · cases hrows
    · split at hrows
      · obtain ⟨items, hitems, rfl⟩ := map_eq_some_iff.mp hrows
        have hinner : OneLine (withoutNewline (inner format)) := by
          unfold withoutNewline
          split
          · exact (oneLine_inner hformat).dropLast.dropLast
          · exact oneLine_inner hformat
        have hall := oneLine_formatFrom hinner .nil hmore hitems
        refine .one (oneLine_wordCall hprint ?_)
        split
        · exact .one (by decide)
        · exact hall
      · cases hrows
        exact .one (oneLine_wordCall hprint (oneLineRows_map_liftExpr h))

lemma oneLine_inOutLines (h : OneLine c.args) (hrows : inOutLines c = some rows) : OneLineRows rows := by
  have hargs : ∀ a ∈ ((splitTopLevel ',' c.args).map trim).filter (!·.isEmpty), OneLine a := by
    intro a ha
    obtain ⟨b, hb, rfl⟩ := mem_map.mp (mem_filter.mp ha).1
    exact (h.splitTopLevel hb).trim
  unfold inOutLines at hrows
  split at hrows
  · exact oneLine_scanLines hargs hrows
  · split at hrows
    · exact oneLine_putLines hargs hrows
    · exact oneLine_printLines hargs hrows

/-! ## Assignments and calls -/

lemma oneLine_incrementLines
    (hsign : sign ≠ '\n') (h : OneLine target) (hrows : incrementLines sign target = some rows) : OneLineRows rows := by
  have ht := oneLine_liftExpr h
  unfold incrementLines at hrows
  split at hrows
  · cases hrows
    exact .one (by simp [ht, hsign])
  · cases hrows

lemma oneLine_assignmentLines (htarget : OneLine a.target)
    (hvalue : OneLine a.value) (hop : ∀ op ∈ a.op, op ≠ '\n') (hrows : assignmentLines a = some rows) :
    OneLineRows rows := by
  have ht := oneLine_liftExpr htarget
  have hv := oneLine_liftExpr hvalue
  unfold assignmentLines at hrows
  split at hrows
  · split at hrows
    · cases hrows
      exact .one (by simp [ht, hv])
    · next op heq =>
      cases hrows
      have hword : OneLine (operatorWord op).toList := by
        unfold operatorWord
        split
        · decide
        · simp [hop op heq]
      refine .one ?_
      split
      · simp [ht, hv, hword]
      · simp [ht, hv, hword]
  · cases hrows

lemma oneLine_callLines (hname : OneLine c.name.toList)
    (hargs : OneLine c.args) (hrows : callLines c = some rows) : OneLineRows rows := by
  unfold callLines at hrows
  split at hrows
  · cases hrows
    exact .one (by simp [oneLine_safeName hname, oneLine_liftExpr hargs])
  · cases hrows

lemma oneLine_actionLines {text : List Char} (h : OneLine text)
    (hrows : actionLines text = some rows) : OneLineRows rows := by
  unfold actionLines at hrows
  dsimp only at hrows
  split at hrows
  · next c hc =>
    obtain ⟨hc, -⟩ := filter_eq_some_iff.mp hc
    exact oneLine_inOutLines (oneLine_call? h hc).2 hrows
  · split at hrows
    · next sign target hinc =>
      obtain ⟨htarget, hsign⟩ := oneLine_increment? h hinc
      exact oneLine_incrementLines hsign htarget hrows
    · split at hrows
      · next a ha =>
        obtain ⟨htarget, hvalue, hop⟩ := oneLine_assignment? h ha
        exact oneLine_assignmentLines htarget hvalue hop hrows
      · obtain ⟨c, hc, hrows⟩ := bind_eq_some_iff.mp hrows
        obtain ⟨hname, hargs⟩ := oneLine_call? h hc
        exact oneLine_callLines hname hargs hrows

lemma oneLine_returnLines {r : OpenRoutine} (h : OneLine value)
    (hrows : returnLines r value = some rows) : OneLineRows rows := by
  unfold returnLines at hrows
  split at hrows
  · split at hrows
    · cases hrows
      exact .nil
    · cases hrows
  · split at hrows
    · cases hrows
      exact .one (by simp [oneLine_liftExpr h])
    · cases hrows

/-! ## Counting loops -/

lemma oneLine_comparison? {c : Comparison} (h : OneLine cs) (hc : comparison? cs = some c) : OneLine c.bound := by
  unfold comparison? at hc
  split at hc
  · next w r hword =>
    have htrim := (h.takeWord? hword).2.trimStart
    unfold comparisonOf? at hc
    split at hc
    · next heq => rw [heq] at htrim; cases hc; exact htrim.tail.tail.trimStart
    · next heq => rw [heq] at htrim; cases hc; exact htrim.tail.trimStart
    · next heq => rw [heq] at htrim; cases hc; exact htrim.tail.tail.trimStart
    · next heq => rw [heq] at htrim; cases hc; exact htrim.tail.trimStart
    · cases hc
  · cases hc

lemma oneLine_lastValue {c : Comparison} (h : OneLine c.bound) : Ensures (lastValue c) fun s => OneLine s.toList := by
  have hbound := oneLine_liftExpr h
  unfold lastValue
  dsimp only
  split
  · exact .ok hbound
  · split
    · exact .bind' fun n => oneLine_write _
    · refine .ok ?_
      split
      · simp [hbound]
      · simp [hbound]

lemma oneLine_forHead {name : String} {first : List Char} {c : Comparison} (step : Int)
    (hname : OneLine name.toList) (hfirst : OneLine first) (hc : OneLine c.bound) :
    Ensures (forHead name first c step) fun head => ∀ s ∈ head, OneLine s.toList := by
  unfold forHead
  split
  · exact .ok fun _ hs => nomatch hs
  · refine (oneLine_lastValue hc).bind fun last hlast => ?_
    have hcounter := oneLine_safeName hname
    refine .ok ?_
    split
    · simp [hcounter, oneLine_liftExpr hfirst, hlast]
    · simp [hcounter, oneLine_liftExpr hfirst, hlast]

lemma oneLine_countedHead {init condition update : List Char} (hinit : OneLine init)
    (hcondition : OneLine condition) :
    Ensures (countedHead init condition update) fun head => ∀ s ∈ head, OneLine s.toList := by
  unfold countedHead
  split
  · next name first c hnamed hcomp =>
    obtain ⟨hname, hfirst⟩ := oneLine_named? hinit hnamed
    split
    · exact .ok fun _ hs => nomatch hs
    · refine .bind' fun step => ?_
      split
      · exact .ok fun _ hs => nomatch hs
      · exact oneLine_forHead _ hname hfirst (oneLine_comparison? hcondition hcomp)
  · exact .ok fun _ hs => nomatch hs

end AlgoLang.Lift
