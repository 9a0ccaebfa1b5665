/-
# Assignments with an operator

An assignment such as `t *= e` becomes `t <- t * e`, with parentheses around `e` unless its text has only
words and indices.  But `MOD`, `AND` and `OR` are words: an expression of them that binds less tightly than the
operator before it comes apart.
-/
import AlgoLang.Proofs.Lift.Structured.Reading

namespace AlgoLang.Lift

open Text CSource Token Grammar Reading List IsCExpr Option

variable {k : CLevel} {o : BinaryOp} {op : Char}

/-! ## An operand put before an expression -/

lemma CLevel.ctorIdx_lt_of_mem_operators {p : Sign × BinaryOp} (h : p ∈ k.operators) : k.ctorIdx < 6 := by
  cases k
  case sign | primary => cases h
  all_goals decide

/-- What stands behind an operator is its operand if it is of a level that binds tighter.  Otherwise the
operator goes to the left operand of the whole. -/
lemma IsCExpr.prefixed {k' : CLevel} (hk : k.tighter = some k') {s : Sign}
    (hop : (s, o) ∈ k.operators) {xs : List CToken} {t : Expr} :
    ∀ {j : CLevel} {ys : List CToken} {e : Expr}, IsCExpr j ys e → j.ctorIdx ≤ k.ctorIdx → IsCExpr k xs t →
      IsCExpr k' ys e ∨ ∃ o' l l' r, e = .binary none o' l r ∧ IsCExpr j (xs ++ .sign s :: ys) (.binary none o' l' r)
  | j, _, _, .tighten hj h, hle, ht => by
    rcases Nat.lt_or_eq_of_le hle with hlt | heq
    · have hstep := CLevel.ctorIdx_tighter hj
      rcases h.prefixed hk hop (by omega) ht with htight | ⟨o', l, l', r, rfl, hall⟩
      · exact .inl htight
      · exact .inr ⟨o', l, l', r, rfl, .tighten hj hall⟩
    · obtain rfl : j = k := by cases j <;> cases k <;> first | rfl | cases heq
      cases hk.symm.trans hj
      exact .inl h
  | j, _, _, @binary _ _ _ _ ys _ _ _ hj hop' ha hb, hle, ht => by
    have hleft : ∃ l', IsCExpr j (xs ++ .sign s :: ys) l' := by
      rcases ha.prefixed hk hop hle ht with htight | ⟨_, _, _, _, -, hall⟩
      · exact ⟨_, (binary hk hop ht htight).loosen hle⟩
      · exact ⟨_, hall⟩
    obtain ⟨l', hl'⟩ := hleft
    exact .inr ⟨_, _, l', _, rfl, by simpa using binary hj hop' hl' hb⟩
  | _, _, _, .sign .., hle, _ | _, _, _, .paren _, hle, _ | _, _, _, .number .., hle, _ | _, _, _, .yes, hle, _
  | _, _, _, .no, hle, _ | _, _, _, .access _, hle, _ => by
    have hsix : 6 ≤ k.ctorIdx := Nat.le_trans (by decide) hle
    have := CLevel.ctorIdx_lt_of_mem_operators hop
    omega

lemma regrouped_binary_eq {o' : BinaryOp} {s : Option Span} {l r a b : Expr}
    (ho : isOrdering o = false ∧ isEquality o = false)
    (h : regrouped (.binary s o' l r) = .binary none o a b) : o' = o ∧ regrouped l = a ∧ regrouped r = b := by
  rw [regrouped] at h
  split at h
  · next heq =>
    by_cases hordering : isOrderingExpr (regrouped r)
    · have hroot : isOrderingExpr (graft (regrouped l) o' (regrouped r)) := isOrderingExpr_graft hordering
      rw [h] at hroot
      exact absurd (hroot.symm.trans ho.1) (by decide)
    · rw [graft_of_not_ordering (by simpa using hordering)] at h
      cases h
      exact absurd (heq.symm.trans ho.2) (by decide)
  · cases h
    exact ⟨rfl, rfl, rfl⟩

/-! ## The operators -/

def compoundOp : Char → BinaryOp
  | '+' => .add
  | '-' => .sub
  | '*' => .mul
  | '/' => .div
  | _ => .mod

/-- The level of what may stand behind an operator of arithmetic without parentheses. -/
def operandLevel : BinaryOp → CLevel
  | .add | .sub => .product
  | _ => .sign

lemma exists_compoundSign (h : op ∈ "-+*/%".toList) : ∃ s k, (s, compoundOp op) ∈ CLevel.operators k ∧
    k.tighter = some (operandLevel (compoundOp op)) ∧ s.lifted = operatorWord op := by
  have hop : op = '-' ∨ op = '+' ∨ op = '*' ∨ op = '/' ∨ op = '%' := by simpa using h
  rcases hop with rfl | rfl | rfl | rfl | rfl
  · exact ⟨.minus, .sum, by decide, rfl, by decide⟩
  · exact ⟨.plus, .sum, by decide, rfl, by decide⟩
  · exact ⟨.times, .product, by decide, rfl, by decide⟩
  · exact ⟨.slash, .product, by decide, rfl, by decide⟩
  · exact ⟨.percent, .product, by decide, rfl, by decide⟩

/-! ## Texts -/

lemma valueAfterEquals?_suffix {cs v : List Char} (h : valueAfterEquals? cs = some v) : v <:+ cs := by
  unfold valueAfterEquals? at h
  split at h
  · cases h
  · next r _ =>
    split at h
    · cases h
    · obtain rfl := some.inj h
      exact (dropWhile_suffix _).trans (suffix_cons '=' r)
  · cases h

lemma actionLines_compound {text target : List Char} (e : CFormula)
    (h : assignment? text = some ⟨target, some op, e.inner⟩) :
    op ∈ "-+*/%".toList ∧ actionLines text = assignmentLines ⟨target, some op, e.inner⟩ := by
  have hassign := h
  unfold assignment? at h
  split at h
  · cases h
  next rest hrest =>
  split at h
  · cases h
  next c r hr =>
  obtain ⟨⟨w, behind⟩, hword, hafter⟩ := map_eq_some_iff.mp hrest
  split at h
  case isFalse =>
    obtain ⟨v, -, heq⟩ := map_eq_some_iff.mp h
    cases heq
  case isTrue hc =>
    obtain ⟨v, hv, heq⟩ := map_eq_some_iff.mp h
    simp only [Assignment.mk.injEq, some.injEq] at heq
    obtain ⟨-, rfl, rfl⟩ := heq
    have hcall : call? text = none := by
      rw [call?, hword]
      dsimp only
      split
      · next inside hparen =>
        rw [afterIndices_of_ne (by simp [hparen]), afterFields_of_ne (by simp [hparen])] at hafter
        rw [← hafter, hparen] at hr
        cases hr
        exact absurd hc (by decide)
      · rfl
    have hincrement : increment? text = none := by
      have hbehind : c :: r <:+ rest := hr ▸ (dropWhile_suffix _ : trimStart rest <:+ rest)
      exact increment?_eq_none hword e
        (((valueAfterEquals?_suffix hv).trans (suffix_cons c r)).trans (hbehind.trans (afterTarget?_suffix hrest)))
    refine ⟨by simpa using hc, ?_⟩
    rw [actionLines, hcall, hincrement, hassign]
    rfl

/-! ## Lines -/

/-- What is put behind the operator. -/
def CFormula.operand (e : CFormula) : List CToken :=
  if isSimpleOperand (liftExpr e.inner) then e.tokens else .sign .lparen :: (e.tokens ++ [.sign .rparen])

/-- The text of the value that is assigned. -/
def CFormula.compound (t e : CFormula) (s : Sign) : String :=
  liftExpr t.inner ++ " " ++ s.lifted ++ " " ++
    if isSimpleOperand (liftExpr e.inner) then liftExpr e.inner else "(" ++ liftExpr e.inner ++ ")"

lemma CFormula.spelled_operand (e : CFormula) {rest : List Char} {more : List (TokenKind × String)}
    (hrest : Apart rest) (h : Spelled more rest) : Spelled (e.operand.map liftedWord ++ more)
      ((if isSimpleOperand (liftExpr e.inner) then liftExpr e.inner else "(" ++ liftExpr e.inner ++ ")").toList ++
        rest) := by
  have hvalue {rest : List Char} {more : List (TokenKind × String)} (hrest : Apart rest) (h : Spelled more rest) :=
    Spelled.lifted e.regular.proper e.lifted_inner hrest h
  unfold operand
  split
  · exact hvalue hrest h
  · have hclose : Spelled ((.mark .rparen, ")") :: more) (')' :: rest) := .one rfl rfl h
    have hopen : Spelled ((.mark .lparen, "(") :: (e.tokens.map liftedWord ++ (.mark .rparen, ")") :: more))
        ('(' :: ((liftExpr e.inner).toList ++ ')' :: rest)) := .one rfl rfl (hvalue (apart_cons rfl) hclose)
    have hparen : liftedWord (.sign .lparen) = (.mark .lparen, "(") ∧
        liftedWord (.sign .rparen) = (.mark .rparen, ")") := ⟨rfl, rfl⟩
    simpa [hparen, String.toList_append] using hopen

/-- The text of the value is that of its words. -/
lemma CFormula.writes_compound (t e : CFormula) (s : Sign)
    (hshort : ∀ f ∈ [t, e], ∀ ds, .number ds ∈ f.tokens → ds.length ≤ maxDigits) :
    AlgoLang.Writes (t.compound e s).toList Apart (List.Forall₂ IsLifted · (t.tokens ++ .sign s :: e.operand)) := by
  have hsign : Laid isPlainBlank [(CToken.sign s).lifted] ([] ++ (s.lifted.toList ++ [])) :=
    .piece rfl (by rintro c ⟨⟩) (.done rfl)
  refine writes_words (fun rest more hrest h => ?_) fun ds hds => ?_
  · have hoperand := Spelled.lifted (forall_mem_singleton.mpr (show (CToken.sign s).IsProper from trivial)) hsign
      (apart_cons (c := ' ') rfl) (.space rfl (e.spelled_operand hrest h))
    have hvalue := Spelled.lifted t.regular.proper t.lifted_inner (apart_cons (c := ' ') rfl) (.space rfl hoperand)
    simpa [compound, String.toList_append] using hvalue
  · have hcases : .number ds ∈ t.tokens ∨ .number ds ∈ e.tokens := by
      unfold operand at hds
      split at hds <;> simpa using hds
    rcases hcases with hds | hds
    · exact hshort t (by simp) ds hds
    · exact hshort e (by simp) ds hds

lemma reads_compound (t e : CFormula) (s : Sign) {v : Expr} (ht : IsCAccess t.tokens t.tree)
    (hcalled : isCalled t.tree = false) (hv : IsCExpr .disjunction (t.tokens ++ .sign s :: e.operand) v)
    (hshort : ∀ f ∈ [t, e], ∀ ds, .number ds ∈ f.tokens → ds.length ≤ maxDigits) :
    (scan (liftExpr t.inner ++ " <- " ++ t.compound e s)).faults = [] ∧ ∃ stmt last,
      Gives (Stmt.parse (scan (liftExpr t.inner ++ " <- " ++ t.compound e s)).all) stmt last
          [(scan (liftExpr t.inner ++ " <- " ++ t.compound e s)).eof] ∧
        bareStmt stmt = .assign none (regrouped t.tree) (regrouped v) := by
  have htarget : AlgoLang.Writes (liftExpr t.inner).toList Apart (TargetAs (regrouped t.tree)) :=
    (t.writes_tokens (hshort t (by simp))).reads rfl fun _ hts => by simpa [hcalled, TargetAs] using ht.lifted hts
  have hvalue : AlgoLang.Writes (t.compound e s).toList Apart (ReadsAs (regrouped v)) :=
    (t.writes_compound e s hshort).reads rfl fun _ => hv.lifted
  obtain ⟨hfaults, heof, hshort, s', hs, hbare⟩ := (writes_assign htarget hvalue).parses defaultFile
  obtain ⟨last, -, hgives⟩ := hs.gives hshort [_] (endsStmt_cons (by rw [heof]; decide)) nofun
  exact ⟨hfaults, s', last, hgives, hbare⟩

/-! ## Values -/

/-- Nothing is its own right operand, in parentheses or without. -/
lemma ne_operand_of_self {l r : Expr} : ¬ (r = .binary none o l r ∨ r = .paren none (.binary none o l r)) := by
  rintro (h | h)
  · have := congrArg sizeOf h
    simp at this
  · have := congrArg sizeOf h
    simp at this
    omega

lemma exists_compoundValue (t e : CFormula) {k' : CLevel} (hk : k.tighter = some k') {s : Sign}
    (hop : (s, o) ∈ k.operators) (ho : isOrdering o = false ∧ isEquality o = false) (ht : IsCExpr k t.tokens t.tree) :
    ∃ v, IsCExpr .disjunction (t.tokens ++ .sign s :: e.operand) v ∧
      ((∃ e', regrouped v = .binary none o (regrouped t.tree) e' ∧
          (e' = regrouped e.tree ∨ e' = .paren none (regrouped e.tree))) ↔
        (isSimpleOperand (liftExpr e.inner) → IsCExpr k' e.tokens e.tree)) := by
  have hroot (l r : Expr) : regrouped (.binary none o l r) = .binary none o (regrouped l) (regrouped r) := by
    rw [regrouped, if_neg (by simp [ho.2])]
  rw [CFormula.operand]
  split
  · next hsimple =>
    by_cases htight : IsCExpr k' e.tokens e.tree
    · exact ⟨_, (binary hk hop ht htight).loosest, iff_of_true ⟨_, hroot .., .inl rfl⟩ fun _ => htight⟩
    · obtain ⟨o', l, l', r, he, hv⟩ := (e.derives.prefixed hk hop (Nat.zero_le _) ht).resolve_left htight
      refine ⟨_, hv, iff_of_false ?_ fun h => htight (h hsimple)⟩
      rintro ⟨e', heq, he'⟩
      obtain ⟨rfl, -, rfl⟩ := regrouped_binary_eq ho heq
      rw [he, hroot] at he'
      exact ne_operand_of_self he'
  · next hsimple =>
    have hparen := (paren e.derives).ofPrimary k'
    exact ⟨_, (binary hk hop ht hparen).loosest, iff_of_true ⟨_, hroot .., .inr rfl⟩ fun h => absurd h hsimple⟩

/-- **Assignments with an operator.**  The line is read as an assignment to the target.  Its value is the
operation on the target and the whole expression behind the operator, with or without parentheses, if and only
if the expression is in parentheses or binds tighter than the operator. -/
theorem compound_assignment_reads (t e : CFormula) {text : List Char} {op : Char}
    (ht : IsCAccess t.tokens t.tree) (hcalled : isCalled t.tree = false)
    (htext : assignment? text = some ⟨t.inner, some op, e.inner⟩)
    (hshort : ∀ f ∈ [t, e], ∀ ds, .number ds ∈ f.tokens → ds.length ≤ maxDigits) :
    ∃ line stmt last v, actionLines text = some [line] ∧ (Token.scan line).faults = [] ∧
      Gives (Stmt.parse (Token.scan line).all) stmt last [(Token.scan line).eof] ∧
      bareStmt stmt = .assign none (regrouped t.tree) v ∧
      ((∃ e', v = .binary none (compoundOp op) (regrouped t.tree) e' ∧
          (e' = regrouped e.tree ∨ e' = .paren none (regrouped e.tree))) ↔
        (isSimpleOperand (liftExpr e.inner) = true → IsCExpr (operandLevel (compoundOp op)) e.tokens e.tree)) := by
  obtain ⟨hop, hlines⟩ := actionLines_compound e htext
  obtain ⟨s, k, hs, hk, hword⟩ := exists_compoundSign hop
  have hcompare : isOrdering (compoundOp op) = false ∧ isEquality (compoundOp op) = false := by
    unfold compoundOp
    split <;> decide
  obtain ⟨v, hv, hiff⟩ := exists_compoundValue t e hk hs hcompare ((IsCExpr.access ht).ofPrimary k)
  obtain ⟨hfaults, stmt, last, hgives, hstmt⟩ := reads_compound t e s ht hcalled hv hshort
  refine ⟨_, stmt, last, _, ?_, hfaults, hgives, hstmt, hiff⟩
  rw [hlines, assignmentLines, t.isLiftable_inner, e.isLiftable_inner, CFormula.compound, hword]
  simp [String.append_assoc]

def someTarget : CName :=
  ⟨"x", by decide, by decide⟩

def someRemainder : CFormula where
  tokens := [.word "a", .sign .percent, .word "b"]
  tree := .binary none .mod (.name none "a") (.name none "b")
  text := "a % b".toList
  derives := (binary rfl (by decide) (.ofName (by decide +kernel) .product)
    (.ofName (by decide +kernel) .sign)).loosest
  spells := laid_of_isLaid (by rfl)
  free := by decide

/-- A remainder may be subtracted as it is. -/
theorem compound_assignment_reads_difference :
    assignment? "x -= a % b".toList = some ⟨someTarget.formula.inner, some '-', someRemainder.inner⟩ ∧
    ∃ line stmt last e', actionLines "x -= a % b".toList = some [line] ∧
      Gives (Stmt.parse (Token.scan line).all) stmt last [(Token.scan line).eof] ∧
      bareStmt stmt = .assign none (.name none "x") (.binary none .sub (.name none "x") e') ∧
      (e' = regrouped someRemainder.tree ∨ e' = .paren none (regrouped someRemainder.tree)) := by
  have htext : assignment? "x -= a % b".toList =
      some ⟨someTarget.formula.inner, some '-', someRemainder.inner⟩ := by decide +kernel
  have htight : IsCExpr .product someRemainder.tokens someRemainder.tree :=
    .binary rfl (by decide) (.ofName (by decide +kernel) .product) (.ofName (by decide +kernel) .sign)
  obtain ⟨line, stmt, last, v, hlines, -, hgives, hstmt, hiff⟩ := compound_assignment_reads someTarget.formula
    someRemainder (.name someTarget.isName) rfl htext (by simp [CName.formula, someRemainder])
  obtain ⟨e', rfl, he'⟩ := hiff.mpr fun _ => htight
  exact ⟨htext, line, stmt, last, e', hlines, hgives, hstmt, he'⟩

/-- Behind a sign for multiplication a remainder comes apart. -/
theorem remainder_comes_apart : actionLines "x *= a % b".toList = some ["x <- x * a MOD b"] ∧
    ∃ stmt last, Gives (Stmt.parse (Token.scan "x <- x * a MOD b").all) stmt last
        [(Token.scan "x <- x * a MOD b").eof] ∧
      bareStmt stmt = .assign none (.name none "x")
        (.binary none .mod (.binary none .mul (.name none "x") (.name none "a")) (.name none "b")) ∧
      ∀ e', bareStmt stmt ≠ .assign none (.name none "x") (.binary none .mul (.name none "x") e') := by
  have hproduct : IsCExpr .product [.word "x", .sign .times, .word "a"]
      (.binary none .mul (.name none "x") (.name none "a")) :=
    .binary rfl (by decide) (.ofName (by decide +kernel) .product) (.ofName (by decide +kernel) .sign)
  have hvalue : IsCExpr .product [.word "x", .sign .times, .word "a", .sign .percent, .word "b"]
      (.binary none .mod (.binary none .mul (.name none "x") (.name none "a")) (.name none "b")) :=
    .binary rfl (by decide) hproduct (.ofName (by decide +kernel) .sign)
  have htokens : [.word "x", .sign .times, .word "a", .sign .percent, .word "b"] =
      someTarget.formula.tokens ++ .sign .times :: someRemainder.operand := by decide +kernel
  have hline : liftExpr someTarget.formula.inner ++ " <- " ++ someTarget.formula.compound someRemainder .times =
      "x <- x * a MOD b" := by decide +kernel
  obtain ⟨-, stmt, last, hgives, hstmt⟩ := reads_compound someTarget.formula someRemainder .times
    (.name someTarget.isName) rfl (htokens ▸ hvalue.loosest) (by simp [CName.formula, someRemainder])
  rw [hline] at hgives
  refine ⟨by decide +kernel, stmt, last, hgives, hstmt, fun e' h => ?_⟩
  cases hstmt.symm.trans h

end AlgoLang.Lift
