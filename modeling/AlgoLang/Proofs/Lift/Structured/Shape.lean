/-
# What the lines of structured programs are recognised as

A name is told from every reserved word by what comes behind it, so an assignment is no control statement and
no declaration.  A condition is found between its parentheses because those inside it close each other.
-/
import AlgoLang.Proofs.Lift.Precedence
import AlgoLang.Proofs.Lift.Structured.Cutting

namespace AlgoLang.Lift

open Token Text CSource List Option Bool

variable {c : Char} {cs gap : List Char} {k : String}

/-! ## Without pointers -/

lemma stripDereferences_nil (cs : List Char) : stripDereferences [] cs = cs := by
  have hgrouped : ∀ allowed behind cs, guarded allowed (groupedDereference []) behind cs = none := by
    intro allowed behind cs
    simp only [guarded, map_eq_none_iff, groupedDereference]
    split
    · split <;> rfl
    · rfl
  have hplain : ∀ allowed behind cs, guarded allowed (plainDereference []) behind cs = none := by
    intro allowed behind cs
    simp only [guarded, map_eq_none_iff, plainDereference]
    split <;> rfl
  have harrow : ∀ allowed behind cs, guarded allowed (arrowAccess []) behind cs = none := by
    intro allowed behind cs
    simp only [guarded, map_eq_none_iff, arrowAccess]
    split <;> rfl
  simp [stripDereferences, substitute_of_none (hgrouped _), substitute_of_none (hplain _),
    substitute_of_none (harrow _)]

lemma stripAddressOf_nil (cs : List Char) : stripAddressOf [] cs = cs := by
  have hcalls : ∀ calls : List (List Char × Nat), calls.foldr (stripCall []) cs = cs := by
    intro calls
    induction calls with
    | nil => rfl
    | cons call calls ih =>
      rw [foldr_cons, ih]
      rfl
  exact hcalls _

/-! ## Names -/

lemma isBlank_of_isNameChar (h : isNameChar c) : isBlank c = false := by
  have hword := isWordChar_of_isNameChar h
  cases hblank : isBlank c with
  | false => rfl
  | true =>
    rw [isWordChar_of_isBlank hblank] at hword
    cases hword

lemma trimStart_of_not_blank (h : isBlank c = false) (cs : List Char) : trimStart (c :: cs) = c :: cs :=
  dropWhile_cons_of_neg (by simp [h])

namespace CName

variable (v : CName) {rest : List Char}

/-- A text does not go on with a character of words. -/
def Stops (rest : List Char) : Prop :=
  ∀ c, rest.head? = some c → isWordChar c = false

lemma stops_space (rest : List Char) : Stops (' ' :: rest) := by
  intro c hc
  obtain rfl : ' ' = c := some.inj hc
  decide

lemma isNameChar_of_mem (h : c ∈ v.text.toList) : isNameChar c :=
  all_eq_true.mp v.all_isNameChar c h

lemma exists_drop (hk : k ∈ cKeywords) (hrest : Stops rest) (h : k.toList.isPrefixOf (v.text.toList ++ rest)) :
    ∃ c cs, (v.text.toList ++ rest).drop k.length = c :: cs ∧ isNameChar c := by
  have hletters : ∀ k ∈ cKeywords, k.toList.all isNameChar := by decide
  obtain ⟨tail, htail⟩ := isPrefixOf_iff_prefix.mp h
  have hdrop : (v.text.toList ++ rest).drop k.length = tail := by
    rw [← htail, ← String.length_toList, drop_left]
  rcases append_eq_append_iff.mp htail with ⟨more, hname, htail'⟩ | ⟨more, hkey, hrest'⟩
  · cases more with
    | nil =>
      -- the name would be the reserved word itself
      rw [append_nil] at hname
      exact absurd (String.toList_injective hname ▸ hk) v.free
    | cons c more =>
      refine ⟨c, more ++ rest, by rw [hdrop, htail']; rfl, v.isNameChar_of_mem ?_⟩
      rw [hname]
      simp
  · cases more with
    | nil =>
      rw [append_nil] at hkey
      exact absurd (String.toList_injective hkey ▸ hk) v.free
    | cons c more =>
      have hc : isNameChar c := all_eq_true.mp (hletters k hk) c (by rw [hkey]; simp)
      have hstop : isWordChar c = false := hrest c (by rw [hrest']; rfl)
      rw [isWordChar_of_isNameChar hc] at hstop
      cases hstop

lemma isUncontrolled (hrest : Stops rest) : IsUncontrolled (v.text.toList ++ rest) := by
  refine ⟨?_, ?_, ?_, ?_⟩
  · unfold caseLabel?
    split
    · next h =>
      obtain ⟨c, cs, hdrop, hc⟩ := v.exists_drop (show "case" ∈ cKeywords by decide) hrest h
      have hdrop' : (v.text.toList ++ rest).drop 4 = c :: cs := hdrop
      rw [hdrop', takeWhile_cons_of_neg (by simp [isBlank_of_isNameChar hc])]
      rfl
    · rfl
  · unfold defaultLabel?
    split
    · next h =>
      obtain ⟨c, cs, hdrop, hc⟩ := v.exists_drop (show "default" ∈ cKeywords by decide) hrest h
      have hdrop' : (v.text.toList ++ rest).drop 7 = c :: cs := hdrop
      rw [hdrop', trimStart_of_not_blank (isBlank_of_isNameChar hc)]
      split
      · next heq =>
        obtain ⟨rfl, -⟩ := cons.inj heq
        cases hc
      · rfl
    · rfl
  · intro k hk
    have hkey : ∀ k ∈ ["if", "while", "for", "switch"], k ∈ cKeywords := by decide
    rw [startsWithHeader, and_eq_false_imp]
    intro h
    obtain ⟨c, cs, hdrop, hc⟩ := v.exists_drop (hkey k hk) hrest h
    rw [hdrop, trimStart_of_not_blank (isBlank_of_isNameChar hc)]
    simpa using ne_of_class (d := '(') hc rfl
  · intro k hk
    have hkey : ∀ k ∈ ["else", "do"], k ∈ cKeywords := by decide
    rw [startsWithWord, and_eq_false_imp]
    intro h
    obtain ⟨c, cs, hdrop, hc⟩ := v.exists_drop (hkey k hk) hrest h
    rw [hdrop]
    simpa using isWordChar_of_isNameChar hc

lemma ne_keyword (hk : k ∈ cKeywords) (hrest : Stops rest) : v.text.toList ++ rest ≠ k.toList := by
  intro heq
  obtain ⟨c, cs, hdrop, -⟩ := v.exists_drop hk hrest (by rw [heq]; exact isPrefixOf_iff_prefix.mpr (prefix_refl _))
  rw [heq, ← String.length_toList, drop_length] at hdrop
  cases hdrop

lemma isReturn_eq_false (hrest : Stops rest) : isReturn (v.text.toList ++ rest) = false := by
  have hkey : "return" ∈ cKeywords := by decide
  have hbehind : ∀ c, isNameChar c = false → ("return".toList ++ [c]).isPrefixOf (v.text.toList ++ rest) = false := by
    intro c hc
    rw [eq_false_iff]
    intro h
    obtain ⟨tail, htail⟩ := isPrefixOf_iff_prefix.mp h
    rw [append_assoc] at htail
    obtain ⟨d, ds, hdrop, hd⟩ := v.exists_drop hkey hrest (List.isPrefixOf_iff_prefix.mpr ⟨_, htail⟩)
    rw [← htail, ← String.length_toList, drop_left] at hdrop
    obtain ⟨rfl, -⟩ := cons.inj hdrop
    rw [hd] at hc
    cases hc
  have hspace : "return ".toList.isPrefixOf (v.text.toList ++ rest) = false := hbehind ' ' rfl
  have hparen : "return(".toList.isPrefixOf (v.text.toList ++ rest) = false := hbehind '(' rfl
  rw [isReturn, hspace, hparen, beq_eq_false_iff_ne.mpr (v.ne_keyword hkey hrest)]
  rfl

lemma trimStart_append (rest : List Char) : trimStart (v.text.toList ++ rest) = v.text.toList ++ rest := by
  obtain ⟨c, cs, hfront, -⟩ := v.exists_front
  have hc : isNameChar c := v.isNameChar_of_mem (by rw [hfront]; simp)
  rw [hfront]
  exact trimStart_of_not_blank (isBlank_of_isNameChar hc) (cs ++ rest)

lemma trimStart_text : trimStart v.text.toList = v.text.toList := by
  have h := v.trimStart_append []
  rwa [append_nil] at h

lemma takeWord?_append (hrest : Stops rest) : takeWord? (v.text.toList ++ rest) = some (v.text.toList, rest) := by
  obtain ⟨c, cs, hfront, hc⟩ := v.exists_front
  have hall : cs.all isWordChar := by
    have hall' := all_isWordChar_of_all_isNameChar v.all_isNameChar
    rw [hfront, all_cons, and_eq_true] at hall'
    exact hall'.2
  rw [hfront, cons_append, takeWord?, if_pos (by simp [isWordStart, hc]), takeWhile_append_stop hall hrest,
    dropWhile_append_stop hall hrest]

lemma typed?_eq_none (hrest : Stops rest) : typed? [] (v.text.toList ++ rest) = none := by
  have hword : leadingWord? (v.text.toList ++ rest) = some (v.text.toList, rest) := by
    rw [leadingWord?, v.trimStart_append, v.takeWord?_append hrest]
  have hnot : ∀ ks : List String, (∀ k ∈ ks, k ∈ cKeywords) → ks.contains v.text = false := by
    intro ks hks
    rw [eq_false_iff]
    exact fun hmem => v.free (hks _ (contains_iff_mem.mp hmem))
  have htag : tagWords.contains v.text = false := hnot _ (by decide)
  have hqualifier : qualifiers.contains v.text = false := hnot _ (by decide)
  have hbase : baseTypes.get? v.text = none := by
    refine lookup_eq_none_iff.mpr fun entry hentry => ?_
    have hkeys : ∀ entry ∈ baseTypes, entry.1 ∈ cKeywords ∨ entry.1 = "_Bool" := by decide
    refine bne_iff_ne.mpr fun heq => ?_
    rcases hkeys entry hentry with hmem | hbool
    · exact v.free (heq ▸ hmem)
    · have hword := v.isWord
      rw [heq, hbool] at hword
      exact absurd hword (by decide)
  rw [typed?, typedFrom]
  split
  · rfl
  · next w rest' heq =>
    obtain ⟨rfl, rfl⟩ := Prod.mk.inj (some.inj (hword.symm.trans heq))
    simp only [String.ofList_toList, htag, hqualifier, hbase]
    rfl

end CName

/-! ## Assignments -/

lemma exists_gaps (cs : List Char) : ∃ gap gap', allBlank gap ∧ allBlank gap' ∧ cs = gap ++ trim cs ++ gap' := by
  obtain ⟨gap, hgap, hfront⟩ := exists_eq_append_trimStart cs
  obtain ⟨gap', hgap', hback⟩ := exists_eq_trimEnd_append (trimStart cs)
  refine ⟨gap, gap', hgap, hgap', hfront.trans ?_⟩
  rw [append_assoc, trim, ← hback]

lemma dropEnd_semicolon (h : ';' ∉ cs) : dropEnd (· == ';') (cs ++ [';']) = cs :=
  dropEnd_append rfl fun _ hc => beq_eq_false_iff_ne.mpr fun heq => h (heq ▸ mem_of_mem_getLast? hc)

/-- The names of a program are names that both languages can have. -/
lemma CName.isName (v : CName) : isName v.text := by
  have hcast : ∀ k ∈ castWords, k ∈ cKeywords := by decide
  have hcast' : v.text ∉ castWords := fun hmem => v.free (hcast _ hmem)
  have htrue : v.text ≠ "true" := fun heq => v.free (heq ▸ by decide)
  have hfalse : v.text ≠ "false" := fun heq => v.free (heq ▸ by decide)
  simp [Lift.isName, v.isWord, hcast', truthWord?, htrue, hfalse]

def CName.formula (v : CName) : CFormula where
  tokens := [.word v.text]
  tree := .name none (safeName v.text)
  text := v.text.toList
  derives := .ofPrimary (.access (.name v.isName)) .disjunction
  spells := by
    have hlaid : Laid isBlank [v.text.toList] ([] ++ (v.text.toList ++ [])) :=
      .piece rfl (by rintro c ⟨⟩) (.done rfl)
    simpa [Spells, CToken.text] using hlaid
  free := by
    intro w hkey hw
    obtain rfl : w = v.text := by simpa using hw
    exact absurd hkey v.free

/-- An expression at the end of a statement: the semicolon goes, and so do the blanks before it. -/
lemma CFormula.exists_gap (e : CFormula) {front : List Char} (hfront : ';' ∉ front)
    (hstart : trimStart (front ++ e.text) = front ++ e.text) : ∃ gap, allBlank gap ∧
      trim (dropEnd (· == ';') (front ++ e.text ++ [';'])) = front ++ (gap ++ e.inner) := by
  obtain ⟨gap, gap', hgap, hgap', htext⟩ := exists_gaps e.text
  obtain ⟨back, c, hinner, hc⟩ := e.exists_last
  have hblank : isBlank c = false := by
    rcases hc with hname | hclosing
    · exact isBlank_of_isNameChar hname
    · have hall : ∀ c ∈ [')', ']'], isBlank c = false := forall_mem_of_all rfl
      exact hall c hclosing
  have hdrop : dropEnd (· == ';') (front ++ e.text ++ [';']) = front ++ e.text := by
    refine dropEnd_semicolon fun hd => (mem_append.mp hd).elim hfront fun hd => ?_
    exact absurd (all_eq_true.mp e.all_isSafe _ hd) (by decide)
  have hbody : front ++ e.text = (front ++ (gap ++ back)) ++ c :: gap' := by
    have heq : e.text = gap ++ (back ++ [c]) ++ gap' := by rw [← hinner]; exact htext
    rw [heq]
    simp
  refine ⟨gap, hgap, ?_⟩
  rw [hdrop, trim, hstart, hbody, trimEnd_cons hblank, trimEnd_of_allBlank hgap', hinner]
  simp

lemma CName.trimEnd_append (v : CName) (front : List Char) :
    trimEnd (front ++ v.text.toList) = front ++ v.text.toList := by
  obtain ⟨name, c, hname⟩ := (eq_nil_or_concat' v.text.toList).resolve_left <| by
    obtain ⟨d, ds, hfront, -⟩ := v.exists_front
    rw [hfront]
    simp
  have hc : isNameChar c := v.isNameChar_of_mem (by rw [hname]; simp)
  rw [hname, ← append_assoc, trimEnd_eq_self (by simpa using isBlank_of_isNameChar hc)]

lemma CName.inner_formula (v : CName) : v.formula.inner = v.text.toList := by
  show trimEnd (trimStart v.text.toList) = v.text.toList
  rw [v.trimStart_text]
  exact v.trimEnd_append []

/-- What begins with a word and ends in an expression is no step by one. -/
lemma increment?_eq_none {word : List Char × List Char} (hword : takeWord? cs = some word) (e : CFormula)
    (hsuffix : e.inner <:+ cs) : increment? cs = none := by
  have hfirst : ∀ c ∈ cs.head?, c ≠ '+' ∧ c ≠ '-' := by
    rintro c hc
    obtain ⟨cs, rfl⟩ := head?_eq_some_iff.mp hc
    constructor
    · rintro rfl
      cases hword
    · rintro rfl
      cases hword
  have hlast : ∀ c ∈ cs.reverse.head?, c ≠ '+' ∧ c ≠ '-' := by
    obtain ⟨front, rfl⟩ := hsuffix
    obtain ⟨inner, c, hinner, hc⟩ := e.exists_last
    rw [hinner, head?_reverse, ← append_assoc, getLast?_concat]
    rintro c' ⟨⟩
    constructor
    · rintro rfl
      exact absurd hc (by decide)
    · rintro rfl
      exact absurd hc (by decide)
  unfold increment?
  split
  · exact absurd rfl (hfirst '+' rfl).1
  · exact absurd rfl (hfirst '-' rfl).2
  · split
    · next heq =>
      rw [heq] at hlast
      exact absurd rfl (hlast '+' rfl).1
    · next heq =>
      rw [heq] at hlast
      exact absurd rfl (hlast '-' rfl).2
    · rfl

lemma afterIndices_of_ne (h : ∀ r, trimStart cs ≠ '[' :: r) : afterIndices cs = cs := by
  rw [afterIndices]
  split
  · next r heq => exact absurd heq (h r)
  · rfl

lemma afterFields_of_ne (h : ∀ r, trimStart cs ≠ '.' :: r) : afterFields cs = cs := by
  rw [afterFields]
  split
  · next r heq => exact absurd heq (h r)
  · rfl

lemma actionLines_assign (v : CName) (e : CFormula) (hgap : allBlank gap) :
    actionLines (v.text.toList ++ ' ' :: '=' :: ' ' :: (gap ++ e.inner)) =
      some [liftExpr v.text.toList ++ " <- " ++ liftExpr e.inner] := by
  have hstop : CName.Stops (' ' :: '=' :: ' ' :: (gap ++ e.inner)) := CName.stops_space _
  have hstart : trimStart (' ' :: '=' :: ' ' :: (gap ++ e.inner)) = '=' :: ' ' :: (gap ++ e.inner) := rfl
  have hword := v.takeWord?_append hstop
  have hcall : call? (v.text.toList ++ ' ' :: '=' :: ' ' :: (gap ++ e.inner)) = none := by
    rw [call?, hword]
    rfl
  have hincrement : increment? (v.text.toList ++ ' ' :: '=' :: ' ' :: (gap ++ e.inner)) = none :=
    increment?_eq_none hword e ⟨v.text.toList ++ ' ' :: '=' :: ' ' :: gap, by simp⟩
  have hassign : assignment? (v.text.toList ++ ' ' :: '=' :: ' ' :: (gap ++ e.inner)) =
      some ⟨v.text.toList, none, e.inner⟩ := by
    have hafter : afterTarget? (v.text.toList ++ ' ' :: '=' :: ' ' :: (gap ++ e.inner)) =
        some (' ' :: '=' :: ' ' :: (gap ++ e.inner)) := by
      rw [afterTarget?, hword, map_some, afterIndices_of_ne (by rw [hstart]; simp),
        afterFields_of_ne (by rw [hstart]; simp)]
    have hvalue : trimStart (' ' :: (gap ++ e.inner)) = e.inner := trimStart_append hgap fun _ hc => isBlank_of_head?_trim hc
    have hequals : valueAfterEquals? ('=' :: ' ' :: (gap ++ e.inner)) = some e.inner := by
      show some (trimStart (' ' :: (gap ++ e.inner))) = _
      rw [hvalue]
    have hmark : ("-+*/%".toList.contains '=') = false := by decide
    simp only [assignment?, hafter, hstart, hmark, hequals, length_append, Nat.add_sub_cancel, take_left]
    rfl
  have htarget : isLiftable v.text.toList := v.inner_formula ▸ v.formula.isLiftable_inner
  rw [actionLines, hcall, hincrement, hassign]
  show assignmentLines ⟨v.text.toList, none, e.inner⟩ = _
  rw [assignmentLines, e.isLiftable_inner, htarget]
  rfl

/-! ## Conditions -/

/-- The parenthesis that closes a condition is the first one that closes nothing inside it. -/
lemma closingMarked_of_nested (hquote : ∀ c ∈ cs, isQuote c = false) (rest : List Char)
    {depth : Nat} (h : nestFrom depth cs = some 0) :
    closingMarked '(' ')' depth (marked (cs ++ ')' :: rest)) = some (cs, rest) := by
  induction cs generalizing depth with
  | nil =>
    obtain rfl : depth = 0 := some.inj h
    show some ([], (markedFrom .code rest).map Prod.fst) = _
    rw [map_fst_markedFrom]
  | cons c cs ih =>
    have hc := hquote c mem_cons_self
    have ih := @ih fun d hd => hquote d (mem_cons_of_mem c hd)
    have hmarked : marked (c :: cs ++ ')' :: rest) = (c, .code) :: marked (cs ++ ')' :: rest) := by
      simp [marked, markedFrom, Mode.spot, Mode.next, hc]
    rw [nestFrom] at h
    rw [hmarked]
    unfold closingMarked
    by_cases hopen : c = '('
    · rw [if_pos hopen] at h
      rw [if_pos (beq_iff_eq.mpr hopen), ih h]
      rfl
    · rw [if_neg hopen] at h
      rw [if_neg (by simpa using hopen)]
      by_cases hclose : c = ')'
      · rw [if_pos hclose] at h
        rw [if_pos (beq_iff_eq.mpr hclose)]
        cases depth with
        | zero => cases h
        | succ n =>
          rw [if_neg (Nat.succ_ne_zero n), Nat.add_sub_cancel] at h
          show (closingMarked '(' ')' n (marked (cs ++ ')' :: rest))).map _ = _
          rw [ih h]
          rfl
      · rw [if_neg hclose] at h
        rw [if_neg (by simpa using hclose), ih h]
        rfl

namespace CFormula

variable (e : CFormula) (keyword : String) (rest : List Char)

lemma heading_append : e.heading keyword ++ rest = keyword.toList ++ (' ' :: '(' :: (e.text ++ ')' :: rest)) := by
  have hmark : " (".toList = [' ', '('] := by decide
  rw [heading, hmark]
  simp

lemma header?_eq : header? (' ' :: '(' :: (e.text ++ ')' :: rest)) = some (e.inner, trim rest) := by
  have hquote : ∀ c ∈ e.text, isQuote c = false := by
    intro c hc
    have hsafe := all_eq_true.mp e.all_isSafe c hc
    simp only [Cutting.isSafe, and_eq_true, not_eq_true'] at hsafe
    exact hsafe.1.1.1
  have hclosing : parenthesised? (e.text ++ ')' :: rest) = some (e.text, rest) :=
    closingMarked_of_nested hquote rest (e.nestFrom_text 0)
  show (parenthesised? (e.text ++ ')' :: rest)).map (fun r => (trim r.1, trim r.2)) = _
  rw [hclosing]
  rfl

lemma drop_heading : (e.heading keyword ++ rest).drop keyword.length = ' ' :: '(' :: (e.text ++ ')' :: rest) := by
  rw [e.heading_append, ← String.length_toList, drop_left]

lemma isPrefixOf_heading : keyword.toList.isPrefixOf (e.heading keyword ++ rest) := by
  rw [e.heading_append]
  exact isPrefixOf_iff_prefix.mpr (prefix_append _ _)

lemma startsWithHeader_heading : startsWithHeader keyword (e.heading keyword ++ rest) := by
  rw [startsWithHeader, e.isPrefixOf_heading, e.drop_heading]
  rfl

lemma headerOf?_heading : headerOf? keyword (e.heading keyword ++ rest) = some (e.inner, trim rest) := by
  rw [headerOf?, if_pos (e.startsWithHeader_heading keyword rest), e.drop_heading, e.header?_eq]

lemma startsWithWord_heading : startsWithWord keyword (e.heading keyword ++ rest) := by
  rw [startsWithWord, e.isPrefixOf_heading, e.drop_heading]
  rfl

end CFormula

/-! ## Declarations -/

lemma splitTopLevel_name (v : CName) : splitTopLevel ',' v.text.toList = [v.text.toList] := by
  obtain ⟨first, others, heq, -, ⟨rfl, rfl⟩ | ⟨rest, hms, -⟩⟩ := exists_splitMarked ',' 0 (marked v.text.toList)
  · rw [splitTopLevel, heq, map_fst_marked]
  · have hmem : ',' ∈ v.text.toList := by
      rw [← map_fst_marked v.text.toList, hms]
      simp
    exact absurd (v.isNameChar_of_mem hmem) (by decide)

lemma declaration_name (v : CName) :
    declaration "INTEGER" v.text.toList false = .ok (.vars { vars := [⟨safeName v.text, "INTEGER", []⟩] }) := by
  obtain ⟨c, cs, hfront, hc⟩ := v.exists_front
  have htrim : trim v.text.toList = v.text.toList := v.inner_formula
  have hword : takeWord? v.text.toList = some (v.text.toList, []) := by
    have h := v.takeWord?_append (show CName.Stops [] by rintro c ⟨⟩)
    rwa [append_nil] at h
  have hdeclarator : declarator? v.text.toList = some ⟨0, v.text, [], none⟩ := by
    have hstar : (c == '*') = false := beq_eq_false_iff_ne.mpr (ne_of_class hc rfl)
    have htake : v.text.toList.takeWhile (· == '*') = [] := by
      rw [hfront, takeWhile_cons_of_neg (by simp [hstar])]
    have hdrop : v.text.toList.dropWhile (· == '*') = v.text.toList := by
      rw [hfront, dropWhile_cons_of_neg (by simp [hstar])]
    have hsizes : dimensions (trimStart []) = ([], []) := by simp [trimStart, dimensions]
    simp only [declarator?, htake, hdrop, v.trimStart_text, hword, hsizes, String.ofList_toList]
    rfl
  have hitem : declareItem true "INTEGER" v.text.toList = { vars := [⟨safeName v.text, "INTEGER", []⟩] } := by
    rw [declareItem, htrim]
    split
    · next hnil =>
      rw [hfront] at hnil
      cases hnil
    · rw [hdeclarator]
      rfl
  show Except.ok (Declaration.vars (declareList true "INTEGER" v.text.toList)) = _
  rw [declareList, splitTopLevel_name, map_singleton, hitem]
  rfl

lemma typed?_declare (v : CName) :
    typed? [] ("int ".toList ++ v.text.toList) = some ⟨"INTEGER", v.text.toList, false⟩ := by
  have hword : leadingWord? ("int ".toList ++ v.text.toList) = some ("int".toList, ' ' :: v.text.toList) := rfl
  have htrim : trim (' ' :: v.text.toList) = v.text.toList := v.inner_formula
  rw [typed?, typedFrom]
  split
  · next heq =>
    cases heq
  · next w rest heq =>
    obtain ⟨rfl, rfl⟩ := Prod.mk.inj (some.inj (hword.symm.trans heq))
    simp only [htrim]
    rfl

end AlgoLang.Lift
