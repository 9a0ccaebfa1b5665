/-
# What is lifted from one line is written on one line

Every function from text to text below `Lift` either cuts or puts in fixed words, so none brings in a newline.
-/
import AlgoLang.CSource.Include
import AlgoLang.Lift.File
import AlgoLang.Proofs.CSource.OneLine
import AlgoLang.Proofs.Ensures

namespace AlgoLang.Lift

open Text CSource List Option
open String (ofList toList_ofList)

variable {cs item rest : List Char} {names : Keyed String} {type name value : String} {d : Declarator}

/-! ## Names and numbers -/

lemma oneLine_safeName (h : OneLine name.toList) : OneLine (safeName name).toList := by
  unfold safeName
  split
  · simp [h]
  · exact h

lemma oneLine_truthWord? {word : String} (h : truthWord? word = some value) : OneLine value.toList := by
  unfold truthWord? at h
  split at h
  · cases h
    decide
  · split at h
    · cases h
      decide
    · cases h

@[simp] lemma oneLine_toDigits (n : Nat) : OneLine (Nat.toDigits 10 n) := by
  intro hmem
  have hdigit := Nat.isDigit_of_mem_toDigits (by decide) (by decide) hmem
  exact absurd hdigit (by decide)

@[simp] lemma oneLine_intRepr (n : Int) : OneLine n.repr.toList := by
  cases n with
  | ofNat n => exact Nat.toList_repr ▸ oneLine_toDigits n
  | negSucc n =>
    show OneLine ("-" ++ (n + 1).repr).toList
    simp

lemma oneLine_write (n : Int) : Ensures (Numeral.write n) fun s => OneLine s.toList := by
  unfold Numeral.write
  split
  · exact .ok (oneLine_intRepr n)
  · exact fun _ h => nomatch h

lemma oneLine_literal? (h : OneLine cs) : Ensures (literal? cs) fun v => ∀ s ∈ v, OneLine s.toList := by
  have hsome {s : String} (hs : OneLine s.toList) : ∀ t ∈ some s, OneLine t.toList := by
    rintro t ⟨⟩
    exact hs
  unfold literal?
  dsimp only
  split
  · refine .bind' fun n => ?_
    exact (oneLine_write n).bind fun s hs => .ok (hsome hs)
  · split
    · exact (oneLine_write _).bind fun s hs => .ok (hsome hs)
    · split
      · refine .ok (hsome ?_)
        rw [toList_ofList]
        exact h.trim.dropEnd _
      · split
        · refine .ok (hsome ?_)
          rw [toList_ofList]
          exact h.trim
        · exact .ok fun s hs => oneLine_truthWord? hs

/-! ## Expressions -/

lemma oneLine_powCall? {a b after : List Char} (h : OneLine cs)
    (hcall : powCall? cs = some (a, b, after)) : OneLine a ∧ OneLine b ∧ OneLine after := by
  have htrim := (h.drop 3).trimStart
  unfold powCall? at hcall
  split at hcall
  · split at hcall
    · next rest hrest =>
      rw [hrest] at htrim
      split at hcall
      · next inside after' hparens =>
        obtain ⟨hinside, hafter⟩ := htrim.tail.parenthesised? hparens
        split at hcall
        · next x y hsplit =>
          cases hcall
          have hpart (p : List Char) (hp : p ∈ [x, y]) : OneLine p := hinside.splitTopLevel (hsplit ▸ hp)
          exact ⟨(hpart x (by simp)).trim, (hpart y (by simp)).trim, hafter⟩
        · cases hcall
      · cases hcall
    · cases hcall
  · cases hcall

lemma oneLine_liftPow (m : Mode) (before : Option Char) (h : OneLine cs) : OneLine (liftPow m before cs) := by
  induction m, before, cs using liftPow.induct with
  | case1 m before =>
    rw [liftPow]
    exact .nil
  | case2 m before c rest a b after hpow _ iha ihb ihafter =>
    have hparts : OneLine a ∧ OneLine b ∧ OneLine after := by
      unfold powHere? at hpow
      split at hpow
      · exact oneLine_powCall? h hpow
      · cases hpow
    rw [liftPow]
    split
    · next a' b' after' heq =>
      cases hpow.symm.trans heq
      simp [iha hparts.1, ihb hparts.2.1, ihafter hparts.2.2]
    · next heq => cases hpow.symm.trans heq
  | case3 m before c rest hpow ih =>
    rw [liftPow]
    split
    · next heq => cases hpow.symm.trans heq
    · exact OneLine.cons_iff.mpr ⟨(OneLine.cons_iff.mp h).1, ih h.tail⟩

/-- The characters that the passes over code put in. -/
def putIn : List Char :=
  " .0_TRUEFALSEANDORNOTMOD<>=()".toList

lemma subset_append_of_ofLength {n : Nat} {new : List Char} {f : Found} (h : new ⊆ cs ++ putIn)
    (hf : Found.ofLength n new = some f) : f.instead ⊆ cs ++ putIn := by
  cases n with
  | zero => cases hf
  | succ n =>
    cases hf
    exact h

lemma leadingDigits_subset (behind cs : List Char) : leadingDigits behind cs ⊆ cs := by
  unfold leadingDigits
  split
  · exact nil_subset _
  · exact takeWhile_subset _

lemma respelled_subset (w : List Char) :
    ((truthWord? (ofList w)).getD (safeName (ofList w))).toList ⊆ w ++ putIn := by
  unfold truthWord? safeName
  split
  · rw [getD_some]
    exact subset_append_of_subset_right w (by decide)
  · split
    · rw [getD_some]
      exact subset_append_of_subset_right w (by decide)
    · split
      · rw [getD_none, String.toList_append, toList_ofList]
        exact append_subset.mpr ⟨subset_append_left _ _, subset_append_of_subset_right w (by decide)⟩
      · rw [getD_none, toList_ofList]
        exact subset_append_left _ _

/-- The finders of `liftCode` put in pieces of the text or fixed words. -/
lemma liftCode_subset (cs : List Char) : liftCode cs ⊆ cs ++ putIn := by
  have hafter {cs ds es : List Char} (h : ds ⊆ cs ++ putIn) (h' : es ⊆ ds ++ putIn) : es ⊆ cs ++ putIn :=
    fun c hc => (mem_append.mp (h' hc)).elim (fun hds => h hds) fun hput => mem_append_right _ hput
  have hfixed {cs new : List Char} (h : new ⊆ putIn) : new ⊆ cs ++ putIn :=
    subset_append_of_subset_right cs h
  have hcast (cs : List Char) : substitute castFinder cs ⊆ cs ++ putIn := by
    refine substitute_subset (fun _ ds f hf => ?_) cs
    unfold castFinder at hf
    split at hf
    · dsimp only at hf
      split at hf
      · split at hf
        · exact subset_append_of_ofLength (nil_subset _) hf
        · cases hf
      · cases hf
    · cases hf
  have hfloat (cs : List Char) : substitute floatSuffixFinder cs ⊆ cs ++ putIn := by
    refine substitute_subset (fun behind ds f hf => ?_) cs
    unfold floatSuffixFinder at hf
    split at hf
    · next d digits r hdigits hrest =>
      have hfront : d :: digits ⊆ ds := hdigits ▸ leadingDigits_subset behind ds
      have hback : '.' :: r ⊆ ds := hrest ▸ (dropWhile_suffix isDecimal).subset
      dsimp only at hf
      split at hf
      · split at hf
        · refine subset_append_of_ofLength (subset_append_of_subset_left _ (append_subset.mpr ⟨hfront, ?_⟩)) hf
          exact fun c hc => hback (cons_subset_cons _ (takeWhile_subset _) hc)
        · cases hf
      · cases hf
    · cases hf
  have hdot (cs : List Char) : substitute trailingDotFinder cs ⊆ cs ++ putIn := by
    refine substitute_subset (fun behind ds f hf => ?_) cs
    unfold trailingDotFinder at hf
    split at hf
    · next d digits r hdigits hrest =>
      have hfront : d :: digits ⊆ ds := hdigits ▸ leadingDigits_subset behind ds
      split at hf
      · cases hf
      · refine subset_append_of_ofLength (append_subset.mpr ⟨subset_append_of_subset_left _ hfront, ?_⟩) hf
        exact hfixed (by decide)
    · cases hf
  have hword (cs : List Char) : substitute wordFinder cs ⊆ cs ++ putIn := by
    refine substitute_subset (fun behind ds f hf => ?_) cs
    unfold wordFinder at hf
    split at hf
    · next word rest hfound =>
      have hsub : word ⊆ ds := by
        cases ds with
        | nil => cases hfound
        | cons d ds =>
          simp only [takeWord?, ite_none_right_eq_some, some.injEq, Prod.mk.injEq] at hfound
          obtain ⟨-, rfl, -⟩ := hfound
          exact cons_subset_cons d (takeWhile_subset _)
      refine subset_append_of_ofLength (fun c hc => ?_) hf
      rcases mem_append.mp (respelled_subset word hc) with hc | hc
      · exact mem_append_left _ (hsub hc)
      · exact mem_append_right _ hc
    · cases hf
  have hreplace {old new : String} (hnew : new.toList ⊆ putIn) (cs : List Char) : replace old new cs ⊆ cs ++ putIn := by
    refine substitute_subset (fun behind ds f hf => ?_) cs
    simp only [Finder.text, ite_none_right_eq_some] at hf
    exact subset_append_of_ofLength (hfixed hnew) hf.2
  have hrespell (cs : List Char) : respell cs ⊆ cs ++ putIn :=
    hafter (hafter (hafter (hafter (hafter (hreplace (by decide) _) (hreplace (by decide) _)) (hreplace (by decide) _))
      (hreplace (by decide) _)) (hreplace (by decide) _)) (hreplace (by decide) _)
  have hsqueeze (cs : List Char) : squeeze cs ⊆ cs ++ putIn :=
    substitute_subset (fun _ _ _ hf => subset_append_of_ofLength (hfixed (by decide)) hf) cs
  have hclosing (cs : List Char) : substitute blanksBeforeClosing cs ⊆ cs ++ putIn := by
    refine substitute_subset (fun behind ds f hf => ?_) cs
    unfold blanksBeforeClosing at hf
    split at hf
    · exact subset_append_of_ofLength (hfixed (by decide)) hf
    · cases hf
  have hopening (cs : List Char) : substitute blanksAfterOpening cs ⊆ cs ++ putIn := by
    refine substitute_subset (fun behind ds f hf => ?_) cs
    unfold blanksAfterOpening at hf
    split at hf
    · split at hf
      · exact subset_append_of_ofLength (hfixed (by decide)) hf
      · cases hf
    · cases hf
  exact hafter (hafter (hafter (hafter (hafter (hafter (hafter (hcast _) (hfloat _)) (hdot _)) (hword _))
    (hrespell _)) (hsqueeze _)) (hclosing _)) (hopening _)

lemma oneLine_liftCode (h : OneLine cs) : OneLine (liftCode cs) :=
  fun hmem => (mem_append.mp (liftCode_subset cs hmem)).elim h (by decide)

lemma oneLine_liftExpr (h : OneLine cs) : OneLine (liftExpr cs).toList := by
  have hpow := oneLine_liftPow .code none h.trim
  have hsegments : OneLine ((segments (liftPow .code none (trim cs))).flatMap liftSegment) := by
    intro hmem
    obtain ⟨seg, hseg, hin⟩ := mem_flatMap.mp hmem
    have htext : OneLine seg.text := hpow.of_subset fun c hc => by
      rw [← flatMap_text_segments (liftPow .code none (trim cs))]
      exact mem_flatMap.mpr ⟨seg, hseg, hc⟩
    cases seg with
    | code ds => exact oneLine_liftCode htext hin
    | literal ds => exact htext hin
  rw [liftExpr, toList_ofList]
  exact hsegments.trim

/-! ## Types and declarators -/

def OneLineValues (names : Keyed String) : Prop :=
  ∀ e ∈ names, OneLine e.2.toList

lemma OneLineValues.get? (h : OneLineValues names) {key : String}
    (hget : names.get? key = some value) : OneLine value.toList :=
  h (key, value) (mem_of_lookup hget)

lemma OneLineValues.put (h : OneLineValues names) (key : String)
    (hvalue : OneLine value.toList) : OneLineValues (names.put key value) := by
  intro e he
  rcases Keyed.mem_of_mem_put he with he | rfl
  · exact h e he
  · exact hvalue

lemma oneLine_leadingWord? {w : List Char} (h : OneLine cs)
    (hword : leadingWord? cs = some (w, rest)) : OneLine w ∧ OneLine rest :=
  h.trimStart.takeWord? hword

lemma oneLine_typedFrom {names : Keyed String} (hnames : OneLineValues names) (isConst modified : Bool)
    {cs : List Char} {t : Typed} (h : OneLine cs) (ht : typedFrom names isConst modified cs = some t) :
    OneLine t.type.toList ∧ OneLine t.rest := by
  rw [typedFrom] at ht
  split at ht
  · cases ht
  · next w rest hword =>
    obtain ⟨hw, hrest⟩ := oneLine_leadingWord? h hword
    have hshorter := leadingWord?_length hword
    dsimp only at ht
    split at ht
    · split at ht
      · next tag after hnext =>
        obtain ⟨htag, hafter⟩ := oneLine_leadingWord? hrest hnext
        cases ht
        refine ⟨?_, hafter.trim⟩
        cases hget : names.get? (ofList tag) with
        | some type => exact hnames.get? hget
        | none => exact oneLine_safeName (by rwa [toList_ofList])
      · cases ht
    · split at ht
      · next type hget =>
        have hbase : OneLineValues baseTypes := by
          unfold OneLineValues
          decide
        cases ht
        exact ⟨hbase.get? hget, hrest.trim⟩
      · split at ht
        · exact oneLine_typedFrom hnames _ _ hrest ht
        · split at ht
          · next type hget =>
            cases ht
            exact ⟨hnames.get? hget, hrest.trim⟩
          · split at ht
            · cases ht
              have hinteger : OneLine "INTEGER".toList := by decide
              exact ⟨hinteger, (hw.append hrest).trim⟩
            · cases ht
termination_by cs.length

lemma oneLine_typed? (hnames : OneLineValues names) {t : Typed}
    (h : OneLine cs) (ht : typed? names cs = some t) : OneLine t.type.toList ∧ OneLine t.rest :=
  oneLine_typedFrom hnames false false h ht

lemma oneLine_dimensions {cs : List Char} (h : OneLine cs) :
    (∀ d ∈ (dimensions cs).1, OneLine d) ∧ OneLine (dimensions cs).2 := by
  rw [dimensions.eq_def]
  split
  · next r =>
    split
    · next after hafter =>
      have hrest : OneLine (_ :: after) := hafter ▸ h.tail.dropWhile (· != ']')
      have hshorter : (trimStart after).length < r.length + 1 := by
        have h₁ := trimStart_length_le after
        have h₂ := (dropWhile_suffix (l := r) (· != ']')).length_le
        simp only [hafter, length_cons] at h₂
        omega
      obtain ⟨hmore, hend⟩ := oneLine_dimensions hrest.tail.trimStart
      refine ⟨fun d hd => ?_, hend⟩
      rcases mem_cons.mp hd with rfl | hd
      · exact (h.tail.takeWhile _).trim
      · exact hmore d hd
    · exact ⟨forall_mem_nil _, h⟩
  · exact ⟨forall_mem_nil _, h⟩
termination_by cs.length

structure Declarator.OneLine (d : Declarator) : Prop where
  name : Text.OneLine d.name.toList
  dimensions : ∀ ds ∈ d.dimensions, Text.OneLine ds
  initial : ∀ cs ∈ d.initial, Text.OneLine cs

lemma oneLine_declarator? (h : OneLine cs) (hd : declarator? cs = some d) : d.OneLine := by
  unfold declarator? at hd
  dsimp only at hd
  split at hd
  · cases hd
  · next w r hword =>
    obtain ⟨hw, hr⟩ := (h.dropWhile _).trimStart.takeWord? hword
    obtain ⟨hdims, hrest⟩ := oneLine_dimensions hr.trimStart
    have hname : OneLine (ofList w).toList := by rwa [toList_ofList]
    split at hd
    · cases hd
      exact ⟨hname, hdims, fun _ hcs => nomatch hcs⟩
    · next value hvalue =>
      rw [hvalue] at hrest
      split at hd
      · cases hd
      · cases hd
        refine ⟨hname, hdims, ?_⟩
        rintro _ ⟨⟩
        exact hrest.tail.trimStart
    · cases hd

/-! ## Declarations -/

structure Variable.OneLine (v : Variable) : Prop where
  name : Text.OneLine v.name.toList
  type : Text.OneLine v.type.toList
  dimensions : ∀ d ∈ v.dimensions, Text.OneLine d.toList

/-- Whatever is written of declarators is of one line; warnings are not written. -/
structure Declared.OneLine (d : Declared) : Prop where
  vars : ∀ v ∈ d.vars, v.OneLine
  initials : ∀ s ∈ d.initials, Text.OneLine s.toList

lemma Declared.OneLine.empty : ({} : Declared).OneLine :=
  ⟨forall_mem_nil _, forall_mem_nil _⟩

lemma Declared.OneLine.skipped (warning : String) : (Declared.skipped warning).OneLine :=
  ⟨forall_mem_nil _, forall_mem_nil _⟩

lemma Declared.OneLine.append {a b : Declared} (ha : a.OneLine) (hb : b.OneLine) : (a.append b).OneLine :=
  ⟨forall_mem_append.mpr ⟨ha.vars, hb.vars⟩, forall_mem_append.mpr ⟨ha.initials, hb.initials⟩⟩

lemma oneLine_inner (h : OneLine cs) : OneLine (inner cs) :=
  (h.drop 1).dropLast

lemma oneLine_initialiser (ds : List (List Char)) {initial : List Char}
    (hname : OneLine name.toList) (h : OneLine initial) : (initialiser name ds initial).OneLine := by
  unfold initialiser
  split
  · split
    · refine ⟨forall_mem_nil _, fun s hs => ?_⟩
      obtain ⟨⟨e, i⟩, he, rfl⟩ := mem_map.mp hs
      have hmem : e ∈ splitTopLevel ',' (inner initial) :=
        (mem_filter.mp (fst_mem_of_mem_zipIdx he)).1
      have hvalue := oneLine_liftExpr ((oneLine_inner h).splitTopLevel hmem)
      simp [hname, hvalue]
    · exact .skipped _
  · split
    · refine ⟨forall_mem_nil _, fun s hs => ?_⟩
      obtain rfl := mem_singleton.mp hs
      simp [hname, oneLine_liftExpr h]
    · exact .skipped _

lemma oneLine_shape? {r : String × List (List Char)}
    (htype : OneLine type.toList) (hd : d.OneLine) (hr : shape? type d = some r) :
    OneLine r.1.toList ∧ ∀ ds ∈ r.2, OneLine ds := by
  have hstring : OneLine "STRING".toList ∧ ∀ ds ∈ ([] : List (List Char)), OneLine ds :=
    ⟨by decide, forall_mem_nil _⟩
  unfold shape? at hr
  split at hr
  · split at hr
    · cases hr
      exact hstring
    · cases hr
  · split at hr
    · cases hr
      exact hstring
    · cases hr
      exact ⟨htype, hd.dimensions⟩

lemma oneLine_completeSizes {ds : List (List Char)} (initial : Option (List Char))
    (h : ∀ d ∈ ds, OneLine d) : ∀ d ∈ completeSizes ds initial, OneLine d := by
  unfold completeSizes
  split
  · split
    · intro d hd
      rcases mem_cons.mp hd with rfl | hd
      · simp
      · exact h d (mem_cons_of_mem _ hd)
    · exact h
  · exact h

lemma oneLine_declare {initials : Bool} (htype : OneLine type.toList)
    (hd : d.OneLine) : (declare initials type d).OneLine := by
  have hname := oneLine_safeName hd.name
  unfold declare
  dsimp only
  split
  · exact .skipped _
  · next type' ds hshape =>
    obtain ⟨htype', hds⟩ := oneLine_shape? htype hd hshape
    have hsizes := oneLine_completeSizes d.initial hds
    split
    · exact .skipped _
    · have hplain : Declared.OneLine
          { vars := [⟨safeName d.name, type', (completeSizes ds d.initial).map liftExpr⟩] } := by
        refine ⟨fun v hv => ?_, fun _ hs => nomatch hs⟩
        obtain rfl := mem_singleton.mp hv
        refine ⟨hname, htype', fun t ht => ?_⟩
        obtain ⟨e, he, rfl⟩ := mem_map.mp ht
        exact oneLine_liftExpr (hsizes e he)
      split
      · next initial hinitial =>
        have hvalue := hd.initial initial (filter_eq_some_iff.mp hinitial).1
        exact hplain.append (oneLine_initialiser _ hname hvalue.trim)
      · exact hplain

lemma oneLine_declareItem (initials : Bool)
    (htype : OneLine type.toList) (h : OneLine item) : (declareItem initials type item).OneLine := by
  unfold declareItem
  split
  · exact .empty
  · split
    · next d hd => exact oneLine_declare htype (oneLine_declarator? h.trim hd)
    · exact .skipped _

lemma oneLine_declareList (initials : Bool)
    (htype : OneLine type.toList) (h : OneLine cs) : (declareList initials type cs).OneLine := by
  have hall (ds : List Declared) : ∀ acc : Declared, acc.OneLine → (∀ d ∈ ds, d.OneLine) →
      (ds.foldl .append acc).OneLine := by
    induction ds with
    | nil => exact fun _ hacc _ => hacc
    | cons d ds ih =>
      intro acc hacc hds
      exact ih _ (hacc.append (hds d mem_cons_self)) fun e he => hds e (mem_cons_of_mem _ he)
  refine hall _ {} .empty fun d hd => ?_
  obtain ⟨item, hitem, rfl⟩ := mem_map.mp hd
  exact oneLine_declareItem initials htype (h.splitTopLevel hitem)

def Declaration.OneLine : Declaration → Prop
  | .constant name value => Text.OneLine name.toList ∧ Text.OneLine value.toList
  | .vars d => d.OneLine

lemma oneLine_named? {value : List Char} (h : OneLine cs)
    (hnamed : named? cs = some (name, value)) : OneLine name.toList ∧ OneLine value := by
  unfold named? at hnamed
  split at hnamed
  · next w r hword =>
    obtain ⟨hw, hr⟩ := h.takeWord? hword
    have htrim := hr.trimStart
    split at hnamed
    · next value' hvalue =>
      rw [hvalue] at htrim
      split at hnamed
      · cases hnamed
      · cases hnamed
        exact ⟨by rwa [toList_ofList], htrim.tail.trimStart⟩
    · cases hnamed
  · cases hnamed

lemma oneLine_constant? (h : OneLine cs) :
    Ensures (constant? cs) fun r => ∀ c ∈ r, OneLine c.1.toList ∧ OneLine c.2.toList := by
  unfold constant?
  split
  · exact .ok fun _ hc => nomatch hc
  · next name value hnamed =>
    obtain ⟨hname, hvalue⟩ := oneLine_named? h hnamed
    refine .map fun v hv => ?_
    rintro c hc
    obtain ⟨s, hs, rfl⟩ := map_eq_some_iff.mp hc
    exact ⟨oneLine_safeName hname, oneLine_literal? hvalue v hv s hs⟩

lemma oneLine_declaration (isConst : Bool) (htype : OneLine type.toList) (h : OneLine rest) :
    Ensures (declaration type rest isConst) Declaration.OneLine := by
  have hconstant : Ensures (if isConst then constant? rest else .ok none) fun r =>
      ∀ c ∈ r, OneLine c.1.toList ∧ OneLine c.2.toList := by
    split
    · exact oneLine_constant? h
    · exact .ok fun _ hc => nomatch hc
  unfold declaration
  split
  · exact .ok (.skipped _)
  · refine hconstant.bind fun r hr => ?_
    split
    · next name value => exact .ok (hr (name, value) rfl)
    · exact .ok (oneLine_declareList true htype h)

/-- No two variables have one name in different cases of letters. -/
def NamesApart (vs : List Variable) : Prop :=
  vs.Pairwise fun u v => lower u.name ≠ lower v.name

/-- The variables of a scope are of one line, and their names are apart. -/
structure TidyVariables (vs : List Variable) : Prop where
  oneLine : ∀ v ∈ vs, v.OneLine
  apart : NamesApart vs

lemma TidyVariables.nil : TidyVariables [] :=
  ⟨forall_mem_nil _, .nil⟩

lemma TidyVariables.add {known new : List Variable} (h : TidyVariables known) (hnew : ∀ v ∈ new, v.OneLine) :
    TidyVariables (addVariables known new) := by
  induction new generalizing known with
  | nil => exact h
  | cons u new ih =>
    obtain ⟨hu, hnew⟩ := forall_mem_cons.mp hnew
    refine ih ?_ hnew
    dsimp only
    split
    · exact h
    · next hany =>
      refine ⟨forall_mem_append.mpr ⟨h.oneLine, forall_mem_singleton.mpr hu⟩, ?_⟩
      exact pairwise_append.mpr ⟨h.apart, pairwise_singleton _ _, by simpa using hany⟩

/-! ## Parameters -/

lemma oneLine_param? (hnames : OneLineValues names) (h : OneLine item) (hp : param? names item = some (type, d)) :
    OneLine type.toList ∧ d.OneLine := by
  unfold param? at hp
  split at hp
  · cases hp
  · next t ht =>
    obtain ⟨htype, hrest⟩ := oneLine_typed? hnames h.trim ht
    split at hp
    · next d' hd =>
      split at hp
      · cases hp
        exact ⟨htype, oneLine_declarator? hrest hd⟩
      · cases hp
    · cases hp

lemma of_mem_paramItems (h : OneLine cs) (hitem : item ∈ paramItems cs) : OneLine item := by
  unfold paramItems at hitem
  dsimp only at hitem
  split at hitem
  · cases hitem
  · exact h.trim.splitTopLevel hitem

lemma oneLine_sizes {ds : List String} (h : ∀ d ∈ ds, OneLine d.toList) : OneLine (sizes ds).toList := by
  intro hmem
  rw [sizes, String.toList_join] at hmem
  obtain ⟨s, hs, hin⟩ := mem_flatMap.mp hmem
  obtain ⟨d, hd, rfl⟩ := mem_map.mp hs
  have hone : OneLine ("[" ++ d ++ "]").toList := by simp [h d hd]
  exact hone hin

variable (hnames : OneLineValues names)
include hnames

lemma oneLine_liftParam (h : OneLine item) : Ensures (liftParam names item) fun s => OneLine s.toList := by
  unfold liftParam
  split
  · exact fun _ hs => nomatch hs
  · next type d hparam =>
    obtain ⟨htype, hd⟩ := oneLine_param? hnames h hparam
    have hname := oneLine_safeName hd.name
    split
    · exact .ok (by simp [hname])
    · split
      · split
        · exact fun _ hs => nomatch hs
        · have hsizes : OneLine (sizes (d.dimensions.map liftExpr)).toList := by
            refine oneLine_sizes fun s hs => ?_
            obtain ⟨e, he, rfl⟩ := mem_map.mp hs
            exact oneLine_liftExpr (hd.dimensions e he)
          exact .ok (by simp [hname, hsizes, htype])
      · split
        · exact .ok (by simp [hname, htype])
        · exact .ok (by simp [hname, htype])

lemma oneLine_liftParams (h : OneLine cs) : ∀ s ∈ (liftParams names cs).1, OneLine s.toList := by
  intro s hs
  obtain ⟨r, hr, hsome⟩ := mem_filterMap.mp hs
  obtain ⟨item, hitem, rfl⟩ := mem_map.mp hr
  cases hlift : liftParam names item with
  | error w =>
    rw [hlift] at hsome
    cases hsome
  | ok t =>
    rw [hlift] at hsome
    cases hsome
    exact oneLine_liftParam hnames (of_mem_paramItems h hitem) s hlift

end AlgoLang.Lift
