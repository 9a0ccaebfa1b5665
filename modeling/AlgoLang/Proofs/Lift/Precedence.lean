/-
# The tree of a lifted expression

The tokens of a C expression, lifted one by one, are an expression of the algorithmic language.  Its tree is
the one that C reads, but that comparisons beside each other group to the left: where C has `a == (b < c)`, the
algorithmic language has `(a = b) < c`.
-/
import AlgoLang.Proofs.Grammar.ExprComplete
import AlgoLang.Proofs.Lift.Scanning

namespace AlgoLang.Lift

open Grammar Reading List CLevel IsCExpr

variable {ts us : List CToken} {s : Sign} {k k' : CLevel} {ws rest xs ys : List Token} {last t u : Token}
variable {e : Expr} {op : BinaryOp}

/-! ## Regrouping -/

section

variable {a e : Expr} {op : BinaryOp}

lemma graft_of_not_ordering (h : isOrderingExpr e = false) : graft a op e = .binary none op a e := by
  unfold graft
  split
  · next s o l r =>
    have ho : isOrdering o = false := h
    rw [if_neg (by simp [ho])]
  · rfl

lemma isOrderingExpr_graft (h : isOrderingExpr e) : isOrderingExpr (graft a op e) := by
  unfold graft
  split
  · next s o l r =>
    have ho : isOrdering o := h
    rw [if_pos ho]
    exact ho
  · next hne =>
    cases e with
    | binary s o l r => exact absurd rfl (hne s o l r)
    | _ => cases h

lemma isOrdering_of_isEquality (h : isEquality op) : isOrdering op = false := by
  cases op <;> first | rfl | cases h

lemma isOrderingExpr_bare (e : Expr) : isOrderingExpr (bare e) = isOrderingExpr e := by
  cases e <;> rfl

end

mutual

/-- Regrouping changes nothing exactly if no ordering is the right operand of an equality. -/
lemma regrouped_eq_bare_iff : (e : Expr) → (regrouped e = bare e ↔ isAligned e)
  | .binary s op l r => by
    have hl := regrouped_eq_bare_iff l
    have hr := regrouped_eq_bare_iff r
    rw [regrouped, bare, isAligned]
    by_cases hop : isEquality op
    · rw [if_pos hop]
      by_cases hordering : isOrderingExpr (regrouped r)
      · -- An ordering comes to the root, where the equality was.
        have hroot : graft (regrouped l) op (regrouped r) ≠ .binary none op (bare l) (bare r) := by
          intro heq
          have hroot : isOrderingExpr (graft (regrouped l) op (regrouped r)) :=
            isOrderingExpr_graft hordering
          rw [heq] at hroot
          exact absurd hroot (by simp [isOrderingExpr, isOrdering_of_isEquality hop])
        have hnot : ¬(isOrderingExpr r = false ∧ isAligned r) := by
          rintro ⟨hplain, haligned⟩
          rw [hr.mpr haligned, isOrderingExpr_bare, hplain] at hordering
          cases hordering
        simp only [hroot, hop, Bool.true_and, Bool.and_eq_true, Bool.not_eq_true', false_iff]
        exact fun h => hnot ⟨h.1.1, h.2⟩
      · rw [graft_of_not_ordering (by simpa using hordering)]
        have hplain (haligned : isAligned r) : isOrderingExpr r = false := by
          rw [← isOrderingExpr_bare, ← hr.mpr haligned]
          simpa using hordering
        simp only [Expr.binary.injEq, true_and, hl, hr, hop, Bool.true_and, Bool.and_eq_true, Bool.not_eq_true']
        exact ⟨fun h => ⟨⟨hplain h.2, h.1⟩, h.2⟩, fun h => ⟨h.1.2, h.2⟩⟩
    · rw [if_neg hop]
      simp [hl, hr, hop]
  | .unary _ op e => by
    have h := regrouped_eq_bare_iff e
    simp [regrouped, bare, isAligned, h]
  | .paren _ e => by
    have h := regrouped_eq_bare_iff e
    simp [regrouped, bare, isAligned, h]
  | .field _ e f => by
    have h := regrouped_eq_bare_iff e
    simp [regrouped, bare, isAligned, h]
  | .index _ a is => by
    have ha := regrouped_eq_bare_iff a
    have his := regroupedEach_eq_bareEach_iff is
    simp [regrouped, bare, isAligned, ha, his]
  | .call _ n args => by
    have h := regroupedEach_eq_bareEach_iff args
    simp [regrouped, bare, isAligned, h]
  | .integer .. | .real .. | .boolean .. | .char .. | .string .. | .name .. | .unknown .. | .missing => by
    simp [regrouped, isAligned]

lemma regroupedEach_eq_bareEach_iff : (es : List Expr) → (regroupedEach es = bareEach es ↔ isAlignedEach es)
  | [] => by simp [regroupedEach, bareEach, isAlignedEach]
  | e :: es => by
    have he := regrouped_eq_bare_iff e
    have hes := regroupedEach_eq_bareEach_iff es
    simp [regroupedEach, bareEach, isAlignedEach, he, hes]

end

/-! ## The tokens of C as tokens of the algorithmic language -/

/-- The tier of a level: equalities and orderings share one. -/
def CLevel.tier : CLevel → Tier
  | disjunction => .disjunction
  | conjunction => .conjunction
  | equality => .relation
  | relation => .relation
  | sum => .sum
  | product => .product
  | sign => .sign
  | primary => .primary

lemma exists_of_forall₂_append (h : Forall₂ IsLifted ws (ts ++ us)) :
    ∃ xs ys, ws = xs ++ ys ∧ Forall₂ IsLifted xs ts ∧ Forall₂ IsLifted ys us := by
  induction ts generalizing ws with
  | nil => exact ⟨[], ws, rfl, .nil, h⟩
  | cons t ts ih =>
    cases h with
    | cons ht h =>
      obtain ⟨xs, ys, rfl, hxs, hys⟩ := ih h
      exact ⟨_ :: xs, ys, rfl, .cons ht hxs, hys⟩

lemma exists_of_forall₂_sign (h : Forall₂ IsLifted ws (ts ++ .sign s :: us)) :
    ∃ xs t ys, ws = xs ++ t :: ys ∧ t.kind = s.kind ∧ Forall₂ IsLifted xs ts ∧ Forall₂ IsLifted ys us := by
  obtain ⟨xs, ys, rfl, hxs, hys⟩ := exists_of_forall₂_append h
  cases hys with
  | cons ht hys => exact ⟨xs, _, _, rfl, ht.1, hxs, hys⟩

lemma exists_of_forall₂_closed (h : Forall₂ IsLifted ws (ts ++ [.sign s])) :
    ∃ xs t, ws = xs ++ [t] ∧ t.kind = s.kind ∧ Forall₂ IsLifted xs ts := by
  obtain ⟨xs, t, ys, rfl, ht, hxs, hys⟩ := exists_of_forall₂_sign h
  cases hys
  exact ⟨xs, t, rfl, ht, hxs⟩

lemma bareEach_append (es es' : List Expr) : bareEach (es ++ es') = bareEach es ++ bareEach es' := by
  induction es with
  | nil => rfl
  | cons e es ih => rw [cons_append, bareEach, bareEach, ih, cons_append]

lemma regroupedEach_append (es es' : List Expr) :
    regroupedEach (es ++ es') = regroupedEach es ++ regroupedEach es' := by
  induction es with
  | nil => rfl
  | cons e es ih => rw [cons_append, regroupedEach, regroupedEach, ih, cons_append]

lemma isExpr_tier (hk : k.tighter = some k') (h : IsExpr k'.tier ws e) : IsExpr k.tier ws e := by
  cases k <;> cases hk
  case equality => exact h
  case product => exact .tighten (show Tier.product.tighter = some .power from rfl) (.tighten rfl h)
  all_goals exact .tighten rfl h

lemma mem_tier_operators (h : (s, op) ∈ k.operators) : (s.kind, op) ∈ k.tier.operators := by
  have hall : ∀ p ∈ k.operators, (p.1.kind, p.2) ∈ k.tier.operators := by cases k <;> decide
  exact hall _ h

lemma isEquality_of_mem_operators (h : (s, op) ∈ k.operators) (hk : k ≠ .equality) : isEquality op = false := by
  have hall : ∀ p ∈ k.operators, isEquality p.2 = false := by cases k <;> first | exact absurd rfl hk | decide
  exact hall _ h

lemma isEquality_of_mem_equality (h : (s, op) ∈ equality.operators) : isEquality op := by
  have hall : ∀ p ∈ equality.operators, isEquality p.2 := by decide
  exact hall _ h

lemma isExpr_binary (hk : k.tighter = some k') (hne : k ≠ .equality) (hop : (s, op) ∈ k.operators)
    (ht : t.kind = s.kind) {a b} (ha : IsExpr k.tier xs a) (hb : IsExpr k'.tier ys b) :
    IsExpr k.tier (xs ++ t :: ys) (.binary (spanning (xs ++ t :: ys)) op a b) := by
  have hop' : (t.kind, op) ∈ k.tier.operators := ht ▸ mem_tier_operators hop
  cases k <;> cases hk
  case equality => exact absurd rfl hne
  case product => exact .binary rfl hop' ha (.tighten rfl hb)
  all_goals exact .binary rfl hop' ha hb

lemma isOrdering_of_mem_operators (h : (s, op) ∈ relation.operators) : isOrdering op := by
  have hall : ∀ p ∈ relation.operators, isOrdering p.2 := by decide
  exact hall _ h

lemma exists_indexed_eq (a i : Expr) : ∃ x is, indexed a i = .index none x is := by
  unfold indexed
  split
  · exact ⟨_, _, rfl⟩
  · exact ⟨_, _, rfl⟩

lemma IsCAccess.not_ordering (h : IsCAccess ts e) : isOrderingExpr (regrouped e) = false := by
  cases h with
  | name _ => rfl
  | call _ _ _ => rfl
  | @index _ _ a i _ _ =>
    obtain ⟨x, is, heq⟩ := exists_indexed_eq a i
    rw [heq, regrouped]
    rfl

/-- The operands of orderings are no orderings themselves, nor do they become any. -/
lemma IsCExpr.not_ordering {k ts e} : IsCExpr k ts e →
    k ∈ [sum, .product, .sign, .primary] → isOrderingExpr (regrouped e) = false
  | .tighten hk h, hl => h.not_ordering (by
      cases k <;> cases hk <;> first | exact absurd hl (by decide) | decide)
  | @binary k k' s op xs ys a b hk hop h h', hl => by
    have hne : k ≠ .equality := by
      rintro rfl
      exact absurd hl (by decide)
    have hall : ∀ k ∈ [sum, .product, .sign, .primary], ∀ p ∈ k.operators, isOrdering p.2 = false := by
      decide
    rw [regrouped, if_neg (by simp [isEquality_of_mem_operators hop hne])]
    exact hall k hl _ hop
  | .sign _ _, _ => rfl
  | .paren _, _ => rfl
  | .number _ _, _ => rfl
  | .yes, _ => rfl
  | .no, _ => rfl
  | .access h, _ => h.not_ordering

lemma IsCAccess.regrouped_indexed {a} (h : IsCAccess ts a) (i : Expr) :
    regrouped (indexed a i) = indexed (regrouped a) (regrouped i) := by
  cases h with
  | name _ => rfl
  | call _ _ _ => rfl
  | @index _ _ a' i' _ _ =>
    obtain ⟨x, is, heq⟩ := exists_indexed_eq a' i'
    rw [heq]
    simp [indexed, regrouped, regroupedEach_append, regroupedEach]

/-- Whether what is indexed, however often, is a call. -/
def isCalled : Expr → Bool
  | .call .. => true
  | .index _ a _ => isCalled a
  | _ => false

lemma isCalled_indexed (a i : Expr) : isCalled (indexed a i) = isCalled a := by
  cases a <;> rfl

lemma isAccess_indexed {called o c a i}
    (ha : IsAccess called xs a) (ho : o.kind = .mark .lbracket) (hi : IsExpr .disjunction ys i)
    (hc : c.kind = .mark .rbracket) :
    ∃ e, IsAccess called (xs ++ o :: (ys ++ [c])) e ∧ bare e = indexed (bare a) (bare i) := by
  cases a with
  | index s array is =>
    refine ⟨_, .further ha ho (.one hi) hc, ?_⟩
    simp [bare, indexed, bareEach_append, bareEach]
  | _ =>
    refine ⟨_, .index ha (by simp) ho (.one hi) hc, ?_⟩
    simp [bare, indexed, bareEach]

/-! ## Trees -/

mutual

/-- What is an expression of C is, lifted token by token, an expression of the algorithmic language;
its tree is the regrouped one. -/
lemma IsCExpr.lifted {k ts e} : IsCExpr k ts e →
    ∀ {ws}, Forall₂ IsLifted ws ts → ∃ e', IsExpr k.tier ws e' ∧ bare e' = regrouped e
  | .tighten hk h, _, hws => by
    obtain ⟨e', he', hbare⟩ := h.lifted hws
    exact ⟨e', isExpr_tier hk he', hbare⟩
  | @binary k k' s op ts us a b hk hop h h', _, hws => by
    obtain ⟨xs, t, ys, rfl, ht, hxs, hys⟩ := exists_of_forall₂_sign hws
    obtain ⟨a', ha', hbare⟩ := h.lifted hxs
    -- Equalities are the one level that is no tier of its own.
    by_cases hne : k = .equality
    · have hk' : k' = .relation := by
        rw [hne] at hk
        exact (Option.some.inj hk).symm
      have htier : k.tier = .relation := by
        rw [hne]
        rfl
      rw [hne] at hop
      rw [htier] at ha' ⊢
      rw [regrouped, if_pos (isEquality_of_mem_equality hop), ← hbare]
      exact h'.grafted hk' hys ha' hop ht
    · obtain ⟨b', hb', hbare'⟩ := h'.lifted hys
      refine ⟨_, isExpr_binary hk hne hop ht ha' hb', ?_⟩
      rw [bare, hbare, hbare', regrouped, if_neg (by simp [isEquality_of_mem_operators hop hne])]
  | @IsCExpr.sign s op _ _ hop h, _, hws => by
    cases hws with
    | @cons t _ ws _ ht hws =>
      obtain ⟨e', he', hbare⟩ := h.lifted hws
      have hall : ∀ p ∈ signsBefore, (p.1.kind, p.2) ∈ signs := by decide
      have hop' : (t.kind, op) ∈ signs := by
        rw [ht.1]
        exact hall _ hop
      refine ⟨_, .sign hop' he', ?_⟩
      rw [bare, hbare, regrouped]
  | .paren h, _, hws => by
    cases hws with
    | @cons o _ ws _ ho hws =>
      obtain ⟨xs, c, rfl, hc, hxs⟩ := exists_of_forall₂_closed hws
      obtain ⟨e', he', hbare⟩ := h.lifted hxs
      refine ⟨_, .paren ho.1 he' hc, ?_⟩
      rw [bare, hbare, regrouped]
  | .number _ _, _, hws => by
    cases hws with
    | cons ht hws =>
      cases hws
      refine ⟨_, .literal (.integer ht.1), ?_⟩
      rw [ht.2, String.toList_ofList]
      rfl
  | .yes, _, hws => by
    cases hws with
    | cons ht hws =>
      cases hws
      exact ⟨_, .literal (.yes ht.1), rfl⟩
  | .no, _, hws => by
    cases hws with
    | cons ht hws =>
      cases hws
      exact ⟨_, .literal (.no ht.1), rfl⟩
  | .access h, _, hws => by
    obtain ⟨e', he', hbare⟩ := h.lifted hws
    exact ⟨e', .access he', hbare⟩

/-- Behind an operand and an equality, orderings take both on their left. -/
lemma IsCExpr.grafted {k ts e} : IsCExpr k ts e → k = .relation → ∀ {ws}, Forall₂ IsLifted ws ts →
    ∀ {xs t a s op}, IsExpr .relation xs a → (s, op) ∈ equality.operators → t.kind = s.kind →
      ∃ e', IsExpr .relation (xs ++ t :: ws) e' ∧ bare e' = graft (bare a) op (regrouped e)
  | @tighten k k' _ _ hk h, hrelation, _, hws, _, _, _, _, _, ha, hop, ht => by
    have hk' : k' = .sum := by
      rw [hrelation] at hk
      exact (Option.some.inj hk).symm
    obtain ⟨e', he', hbare⟩ := h.lifted hws
    rw [hk'] at he'
    refine ⟨_, .binary rfl (ht ▸ mem_tier_operators hop) ha he', ?_⟩
    rw [bare, hbare, graft_of_not_ordering (h.not_ordering (by rw [hk']; decide))]
  | @binary k k' s op ts us b b' hk hop h h', hrelation, _, hws, _, _, _, _, _, ha, hop', ht => by
    obtain ⟨ys, u, zs, rfl, hu, hys, hzs⟩ := exists_of_forall₂_sign hws
    obtain ⟨e₁, he₁, hbare₁⟩ := h.grafted hrelation hys ha hop' ht
    obtain ⟨e₂, he₂, hbare₂⟩ := h'.lifted hzs
    have hne : k ≠ .equality := by
      rw [hrelation]
      decide
    have htier : k.tier = .relation := by
      rw [hrelation]
      rfl
    have htree := isExpr_binary hk hne hop hu (htier ▸ he₁) he₂
    rw [htier, append_assoc, cons_append] at htree
    refine ⟨_, htree, ?_⟩
    have hordering := isOrdering_of_mem_operators (hrelation ▸ hop)
    rw [bare, hbare₁, hbare₂, regrouped, if_neg (by simp [isEquality_of_mem_operators hop hne]), graft,
      if_pos hordering]

lemma IsCAccess.lifted {ts e} : IsCAccess ts e →
    ∀ {ws}, Forall₂ IsLifted ws ts → ∃ e', IsAccess (isCalled e) ws e' ∧ bare e' = regrouped e
  | .name hw, _, hws => by
    cases hws with
    | cons hn hws =>
      cases hws
      obtain ⟨hkind, hvalue⟩ := hn.of_isName hw
      refine ⟨_, .name hkind, ?_⟩
      rw [hvalue]
      rfl
  | .call hw _ h, _, hws => by
    cases hws with
    | cons hn hws =>
      cases hws with
      | cons ho hws =>
        obtain ⟨hkind, hvalue⟩ := hn.of_isName hw
        obtain ⟨xs, c, rfl, hc, hxs⟩ := exists_of_forall₂_closed hws
        obtain ⟨args, hargs, hbare⟩ := h.lifted hxs
        refine ⟨_, .call hkind ho.1 hargs hc, ?_⟩
        rw [bare, hbare, hvalue, regrouped]
  | .index h h', _, hws => by
    obtain ⟨xs, o, rest, rfl, ho, hxs, hrest⟩ := exists_of_forall₂_sign hws
    obtain ⟨ys, c, rfl, hc, hys⟩ := exists_of_forall₂_closed hrest
    obtain ⟨a', ha', hbare⟩ := h.lifted hxs
    obtain ⟨i', hi', hbare'⟩ := h'.lifted hys
    obtain ⟨e', he', heq⟩ := isAccess_indexed ha' ho hi' hc
    rw [isCalled_indexed]
    refine ⟨e', he', ?_⟩
    rw [heq, hbare, hbare', h.regrouped_indexed]

lemma IsCArguments.lifted {ts es} : IsCArguments ts es →
    ∀ {ws}, Forall₂ IsLifted ws ts → ∃ es', IsArguments ws es' ∧ bareEach es' = regroupedEach es
  | .none, _, hws => by
    cases hws
    exact ⟨[], .none, rfl⟩
  | .some h, _, hws => by
    obtain ⟨es', hes', hbare⟩ := h.lifted hws
    exact ⟨es', .some hes', hbare⟩

lemma IsCExprs.lifted {ts es} : IsCExprs ts es →
    ∀ {ws}, Forall₂ IsLifted ws ts → ∃ es', IsExprs ws es' ∧ bareEach es' = regroupedEach es
  | .one h, _, hws => by
    obtain ⟨e', he', hbare⟩ := h.lifted hws
    refine ⟨[e'], .one he', ?_⟩
    rw [bareEach, bareEach, hbare, regroupedEach, regroupedEach]
  | .more h h', _, hws => by
    obtain ⟨xs, comma, ys, rfl, hcomma, hxs, hys⟩ := exists_of_forall₂_sign hws
    obtain ⟨e', he', hbare⟩ := h.lifted hxs
    obtain ⟨es', hes', hbares⟩ := h'.lifted hys
    refine ⟨e' :: es', .more he' hcomma hes', ?_⟩
    rw [bareEach, hbare, hbares, regroupedEach]

end

/-! ## Reading a lifted expression -/

lemma short_of_lifted {tokens} (h : Forall₂ IsLifted tokens ts)
    (hshort : ∀ ds, .number ds ∈ ts → ds.length ≤ maxDigits) : Short tokens := by
  induction h with
  | nil => rintro t ⟨⟩
  | @cons t c tokens ts ht h ih =>
    have hrest := ih fun ds hds => hshort ds (mem_cons_of_mem c hds)
    intro u hu hkind
    rcases mem_cons.mp hu with rfl | hu
    · -- Only numbers are read as whole numbers.
      rw [ht.1] at hkind
      cases c with
      | word w =>
        rw [CToken.kind] at hkind
        split at hkind
        · cases hkind
        · split at hkind <;> cases hkind
      | number ds =>
        rw [ht.2, CToken.lifted, String.ofList_toList]
        exact hshort ds mem_cons_self
      | sign s => cases s <;> cases hkind
    · exact hrest u hu hkind

/-- The lifted text scans without a fault, the reader takes all of it, and its tree is the regrouped
one. -/
lemma IsCExpr.reads {cs} (h : IsCExpr .disjunction ts e) (htext : Spells ts cs)
    (hshort : ∀ ds, .number ds ∈ ts → ds.length ≤ maxDigits) : (Token.scan (liftExpr cs)).faults = [] ∧
      ∃ e' last, Gives (Expr.parse (Token.scan (liftExpr cs)).all) e' last [(Token.scan (liftExpr cs)).eof] ∧
        bare e' = regrouped e := by
  have hregular := h.regular
  obtain ⟨tokens, eof, hscan, heof, htokens⟩ :=
    scanFrom_lifted defaultFile hregular.proper (hregular.liftExpr htext) {}
  obtain ⟨e', he', hbare⟩ := h.lifted htokens
  have hends : Ends 1 [eof] := ends_cons (by rw [heof]; decide)
  obtain ⟨last, -, hgives⟩ := he'.gives (short_of_lifted htokens hshort) [eof] hends
  rw [Token.scan, hscan]
  exact ⟨rfl, e', last, hgives, hbare⟩

lemma CLevel.ctorIdx_tighter (h : k.tighter = some k') : k'.ctorIdx = k.ctorIdx + 1 := by
  cases k <;> cases h <;> rfl

lemma CLevel.exists_tighter (h : k.ctorIdx < k'.ctorIdx) : ∃ j, k.tighter = some j := by
  cases k
  case primary => cases k' <;> exact absurd h (by decide)
  all_goals exact ⟨_, rfl⟩

lemma IsCExpr.loosen {k k' ts e} (h : IsCExpr k' ts e) (hle : k.ctorIdx ≤ k'.ctorIdx) : IsCExpr k ts e := by
  rcases Nat.lt_or_eq_of_le hle with hlt | heq
  · obtain ⟨j, hj⟩ := exists_tighter hlt
    have hstep := ctorIdx_tighter hj
    exact .tighten hj (h.loosen (by omega))
  · obtain rfl : k = k' := by cases k <;> cases k' <;> first | rfl | cases heq
    exact h
termination_by k'.ctorIdx - k.ctorIdx

lemma IsCExpr.loosest (h : IsCExpr k ts e) : IsCExpr .disjunction ts e :=
  h.loosen (Nat.zero_le _)

lemma IsCExpr.ofPrimary (h : IsCExpr .primary ts e) (k : CLevel) : IsCExpr k ts e :=
  h.loosen (by cases k <;> decide)

lemma IsCExpr.ofName {w} (h : isName w ∧ safeName w = w) (k : CLevel) : IsCExpr k [.word w] (.name none w) := by
  have hname := ofPrimary (.access (.name h.1)) k
  rwa [h.2] at hname

/-- A lifted expression is read as C reads it, with comparisons beside each other regrouped; so it has
the tree that C gives it if and only if no ordering without parentheses is the right operand of `==` or
`!=`. -/
theorem parse_liftExpr_eq_regrouped {ts : List CToken} {e : Expr} {cs : List Char}
    (h : IsCExpr .disjunction ts e) (htext : Spells ts cs)
    (hshort : ∀ ds, .number ds ∈ ts → ds.length ≤ maxDigits) :
    (Token.scan (liftExpr cs)).faults = [] ∧
      ∃ e' last, Gives (Expr.parse (Token.scan (liftExpr cs)).all) e' last [(Token.scan (liftExpr cs)).eof] ∧
        bare e' = regrouped e ∧ (bare e' = bare e ↔ isAligned e = true) := by
  obtain ⟨hfaults, e', last, hgives, hbare⟩ := h.reads htext hshort
  refine ⟨hfaults, e', last, hgives, hbare, ?_⟩
  rw [hbare]
  exact regrouped_eq_bare_iff e

/-- An ordering in parentheses behind `==`, a call, an index and a remainder. -/
theorem parse_liftExpr_eq_regrouped_nested :
    Spells [.word "a", .sign .equal, .sign .lparen, .word "b", .sign .less, .word "c", .sign .rparen,
        .sign .and, .sign .bang, .word "f", .sign .lparen, .word "x", .sign .lbracket, .number "1",
        .sign .rbracket, .sign .percent, .number "2", .sign .rparen]
      "a == (b < c) && !f(x[1] % 2)".toList ∧
    ∃ e' last,
      Gives (Expr.parse (Token.scan (liftExpr "a == (b < c) && !f(x[1] % 2)".toList)).all) e' last
        [(Token.scan (liftExpr "a == (b < c) && !f(x[1] % 2)".toList)).eof] ∧
      bare e' = .binary none .and
        (.binary none .eq (.name none "a") (.paren none (.binary none .lt (.name none "b") (.name none "c"))))
        (.unary none .not (.call none "f"
          [.binary none .mod (.index none (.name none "x") [.integer none 1]) (.integer none 2)])) := by
  have hless : IsCExpr .relation [.word "b", .sign .less, .word "c"]
      (.binary none .lt (.name none "b") (.name none "c")) :=
    .binary rfl (by decide) (.ofName (by decide +kernel) .relation) (.ofName (by decide +kernel) .sum)
  have hequal : IsCExpr .equality
      [.word "a", .sign .equal, .sign .lparen, .word "b", .sign .less, .word "c", .sign .rparen]
      (.binary none .eq (.name none "a") (.paren none (.binary none .lt (.name none "b") (.name none "c")))) :=
    .binary rfl (by decide) (.ofName (by decide +kernel) .equality)
      ((IsCExpr.paren (.tighten rfl (.tighten rfl (.tighten rfl hless)))).ofPrimary .relation)
  have hindex : IsCAccess [.word "x", .sign .lbracket, .number "1", .sign .rbracket]
      (.index none (.name none "x") [.integer none 1]) :=
    .index (.name (by rfl)) ((IsCExpr.number (by decide) (by decide)).ofPrimary .disjunction)
  have hmod : IsCExpr .product
      [.word "x", .sign .lbracket, .number "1", .sign .rbracket, .sign .percent, .number "2"]
      (.binary none .mod (.index none (.name none "x") [.integer none 1]) (.integer none 2)) :=
    .binary rfl (by decide) ((IsCExpr.access hindex).ofPrimary .product)
      ((IsCExpr.number (by decide) (by decide)).ofPrimary .sign)
  have hcall : IsCAccess
      [.word "f", .sign .lparen, .word "x", .sign .lbracket, .number "1", .sign .rbracket, .sign .percent,
        .number "2", .sign .rparen]
      (.call none "f" [.binary none .mod (.index none (.name none "x") [.integer none 1]) (.integer none 2)]) :=
    .call (by rfl) (by decide) (.some (.one (.tighten rfl (.tighten rfl (.tighten rfl
      (.tighten rfl (.tighten rfl hmod)))))))
  have hnot := IsCExpr.sign (show (Sign.bang, UnaryOp.not) ∈ signsBefore by decide)
    ((IsCExpr.access hcall).ofPrimary .sign)
  have hboth := IsCExpr.binary rfl (show (Sign.and, BinaryOp.and) ∈ CLevel.conjunction.operators by decide)
    (.tighten rfl hequal)
    (.tighten rfl (.tighten rfl (.tighten rfl (.tighten rfl hnot))))
  refine ⟨laid_of_isLaid (by rfl), ?_⟩
  obtain ⟨-, e', last, hgives, -, htree⟩ := parse_liftExpr_eq_regrouped (.tighten rfl hboth)
    (show Spells _ "a == (b < c) && !f(x[1] % 2)".toList from laid_of_isLaid (by rfl)) (by
      intro ds hds
      have hone : ds = "1" ∨ ds = "2" := by simpa using hds
      rcases hone with rfl | rfl <;> decide)
  exact ⟨e', last, hgives, htree.mpr rfl⟩

/-- A reader that leaves more or less than one token leaves more or less than the end of the text. -/
lemma not_gives_eof {s : Token.Scanned} (h : (Expr.parse s.all).toOption.all (fun r => r.rest.length != 1)) :
    ¬∃ e' last, Gives (Expr.parse s.all) e' last [s.eof] := by
  rintro ⟨e', last, hlt, hread⟩
  rw [hread] at h
  cases h

/-- Where C has `a == (b < c)`, the algorithmic language has `(a = b) < c`.  And not every name, number
and indexed expression of C is one of the algorithmic language, nor do `<` and a minus sign stay apart. -/
theorem liftExpr_loses_tree :
    (∃ e' last,
      IsCExpr .disjunction [.word "a", .sign .equal, .word "b", .sign .less, .word "c"]
        (.binary none .eq (.name none "a") (.binary none .lt (.name none "b") (.name none "c"))) ∧
      Spells [.word "a", .sign .equal, .word "b", .sign .less, .word "c"] "a == b < c".toList ∧
      Gives (Expr.parse (Token.scan (liftExpr "a == b < c".toList)).all) e' last
        [(Token.scan (liftExpr "a == b < c".toList)).eof] ∧
      bare e' = .binary none .lt (.binary none .eq (.name none "a") (.name none "b")) (.name none "c") ∧
      bare e' ≠ .binary none .eq (.name none "a") (.binary none .lt (.name none "b") (.name none "c"))) ∧
    (Token.scan (liftExpr "_x".toList)).faults ≠ [] ∧
    (¬∃ e' last, Gives (Expr.parse (Token.scan (liftExpr "0x1F".toList)).all) e' last
      [(Token.scan (liftExpr "0x1F".toList)).eof]) ∧
    (¬∃ e' last, Gives (Expr.parse (Token.scan (liftExpr "a<-b".toList)).all) e' last
      [(Token.scan (liftExpr "a<-b".toList)).eof]) ∧
    ¬∃ e' last, Gives (Expr.parse (Token.scan (liftExpr "(a)[i]".toList)).all) e' last
      [(Token.scan (liftExpr "(a)[i]".toList)).eof] := by
  refine ⟨?_, ?_, ?_, ?_, ?_⟩
  · have hless : IsCExpr .relation [.word "b", .sign .less, .word "c"]
        (.binary none .lt (.name none "b") (.name none "c")) :=
      .binary rfl (by decide) (.ofName (by decide +kernel) .relation) (.ofName (by decide +kernel) .sum)
    have hequal : IsCExpr .equality [.word "a", .sign .equal, .word "b", .sign .less, .word "c"]
        (.binary none .eq (.name none "a") (.binary none .lt (.name none "b") (.name none "c"))) :=
      .binary rfl (by decide) (.ofName (by decide +kernel) .equality) hless
    have hwhole : IsCExpr .disjunction [.word "a", .sign .equal, .word "b", .sign .less, .word "c"]
        (.binary none .eq (.name none "a") (.binary none .lt (.name none "b") (.name none "c"))) :=
      .tighten rfl (.tighten rfl hequal)
    have htext : Spells [.word "a", .sign .equal, .word "b", .sign .less, .word "c"] "a == b < c".toList :=
      laid_of_isLaid (by rfl)
    obtain ⟨-, e', last, hgives, hbare⟩ := hwhole.reads htext (by simp)
    refine ⟨e', last, hwhole, htext, hgives, hbare, ?_⟩
    rw [hbare]
    rintro ⟨⟩
  · have hfaults : (Token.scan (liftExpr "_x".toList)).faults.isEmpty = false := by decide +kernel
    intro hnil
    rw [hnil] at hfaults
    cases hfaults
  · -- the number ends before the letter
    exact not_gives_eof (by decide +kernel)
  · -- the name ends before the arrow
    exact not_gives_eof (by decide +kernel)
  · -- the parenthesis ends before the bracket
    exact not_gives_eof (by decide +kernel)

end AlgoLang.Lift
