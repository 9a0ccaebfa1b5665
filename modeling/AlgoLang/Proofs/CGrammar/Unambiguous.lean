/-
# One tree for a list of terminals

A list without keywords, `++` and `--`, assignments and choices stands for one tree at most.  What stands
before an operator between two operands is balanced and ends in an operand, and no such operator binds looser
than the level of the list, which fixes where each rule cuts.
-/
import AlgoLang.Proofs.CGrammar

namespace AlgoLang.CGrammar

open Level List Terminal

variable {xs ys ts xs' ys' A B zs : List Terminal} {p p' : String} {k k' : Level} {t c o c' o' : Terminal}
  {T : Tree}

/-! ## Brackets -/

/-- How far a terminal opens brackets. -/
def delta : Terminal → Int
  | .sign p => if p ∈ ["(", "["] then 1 else if p ∈ [")", "]"] then -1 else 0
  | _ => 0

/-- The brackets that are open behind a list. -/
def depth : List Terminal → Int
  | [] => 0
  | t :: ts => delta t + depth ts

@[simp]
lemma depth_nil : depth [] = 0 :=
  rfl

@[simp]
lemma depth_cons (t : Terminal) (ts : List Terminal) : depth (t :: ts) = delta t + depth ts :=
  rfl

@[simp]
lemma depth_append (xs ys : List Terminal) : depth (xs ++ ys) = depth xs + depth ys := by
  induction xs with
  | nil => simp
  | cons t xs ih => simp [ih, add_assoc]

/-- Every bracket is closed, and none is closed before it is open. -/
structure Balanced (ts : List Terminal) : Prop where
  depth_eq : depth ts = 0
  depth_nonneg : ∀ xs t ys, ts = xs ++ t :: ys → 0 ≤ depth xs

lemma split_append (h : A ++ B = xs ++ t :: ys) :
    (∃ zs, A = xs ++ t :: zs) ∨ ∃ zs, xs = A ++ zs ∧ B = zs ++ t :: ys := by
  rcases append_eq_append_iff.mp h with ⟨zs, rfl, hzs⟩ | ⟨zs, rfl, hzs⟩
  · exact .inr ⟨zs, rfl, hzs⟩
  · cases zs with
    | nil => exact .inr ⟨[], by simp, by simpa using hzs.symm⟩
    | cons z zs =>
      obtain ⟨rfl, -⟩ := cons.inj hzs
      exact .inl ⟨zs, rfl⟩

lemma split_cons {a} (h : a :: B = xs ++ t :: ys) :
    xs = [] ∧ a = t ∧ B = ys ∨ ∃ zs, xs = a :: zs ∧ B = zs ++ t :: ys := by
  cases xs with
  | nil =>
    obtain ⟨rfl, rfl⟩ := cons.inj h
    exact .inl ⟨rfl, rfl, rfl⟩
  | cons x xs =>
    obtain ⟨rfl, htail⟩ := cons.inj h
    exact .inr ⟨xs, rfl, htail⟩

lemma balanced_nil : Balanced [] :=
  ⟨rfl, fun xs t ys h => by simp at h⟩

lemma Balanced.append (hx : Balanced xs) (hy : Balanced ys) : Balanced (xs ++ ys) := by
  refine ⟨by simp [hx.depth_eq, hy.depth_eq], fun as t bs h => ?_⟩
  rcases split_append h with ⟨cs, hcs⟩ | ⟨cs, rfl, hcs⟩
  · exact hx.depth_nonneg as t cs hcs
  · rw [depth_append, hx.depth_eq, zero_add]
    exact hy.depth_nonneg cs t bs hcs

lemma Balanced.cons (ht : delta t = 0) (h : Balanced ts) : Balanced (t :: ts) := by
  refine ⟨by simp [ht, h.depth_eq], fun as s bs heq => ?_⟩
  rcases split_cons heq with ⟨rfl, -⟩ | ⟨cs, rfl, hcs⟩
  · exact le_rfl
  · rw [depth_cons, ht, zero_add]
    exact h.depth_nonneg cs s bs hcs

lemma Balanced.group (ho : delta o = 1)
    (hc : delta c = -1) (hx : Balanced xs) (hy : Balanced ys) : Balanced (o :: (xs ++ c :: ys)) := by
  refine ⟨by simp [ho, hc, hx.depth_eq, hy.depth_eq], fun as s bs heq => ?_⟩
  rcases split_cons heq with ⟨rfl, -⟩ | ⟨as, rfl, hin⟩
  · exact le_rfl
  · rw [depth_cons, ho]
    rcases split_append hin with ⟨cs, hcs⟩ | ⟨as, rfl, hbehind⟩
    · have := hx.depth_nonneg as s cs hcs
      omega
    · rw [depth_append, hx.depth_eq]
      rcases split_cons hbehind with ⟨rfl, -⟩ | ⟨as, rfl, hys⟩
      · simp
      · have := hy.depth_nonneg as s bs hys
        simp only [depth_cons, hc]
        omega

lemma Balanced.right (h : Balanced (xs ++ ys)) (hx : depth xs = 0) : Balanced ys := by
  refine ⟨by simpa [hx] using h.depth_eq, fun as t bs heq => ?_⟩
  simpa [hx] using h.depth_nonneg (xs ++ as) t bs (by simp [heq])

lemma Balanced.not_opened (h : Balanced zs)
    (ho : delta o = 1) (hy : depth ys = 0) (heq : zs = xs ++ o :: ys) : False := by
  have hdepth := h.depth_eq
  rw [heq, depth_append, depth_cons, ho, hy] at hdepth
  have := h.depth_nonneg xs o ys heq
  omega

/-- A bracket that is closed behind is found at one place only. -/
lemma Balanced.eq_of_opened (hy : Balanced ys) (hy' : Balanced ys') (ho : delta o = 1) (ho' : delta o' = 1)
    (heq : xs ++ o :: ys = xs' ++ o' :: ys') : xs = xs' := by
  rcases split_append heq with ⟨zs, rfl⟩ | ⟨zs, hzs, htail⟩
  · have hys' : ys' = zs ++ o :: ys := by simpa using heq.symm
    exact (hy'.not_opened ho hy.depth_eq hys').elim
  · rcases split_cons htail with ⟨rfl, -⟩ | ⟨zs, -, hys⟩
    · rw [hzs, append_nil]
    · exact (hy.not_opened ho' hy'.depth_eq hys).elim

lemma Balanced.not_split_group {as bs} (hx : Balanced xs)
    (ho : delta o = 1) (has : as ≠ []) (hdepth : depth as = 0) (heq : o :: (xs ++ [c]) = as ++ t :: bs) : False := by
  rcases split_cons heq with ⟨rfl, -⟩ | ⟨as, rfl, hin⟩
  · exact has rfl
  · rw [depth_cons, ho] at hdepth
    rcases split_append hin with ⟨cs, hcs⟩ | ⟨as, rfl, hbehind⟩
    · have := hx.depth_nonneg as t cs hcs
      omega
    · rw [depth_append, hx.depth_eq] at hdepth
      rcases split_cons hbehind with ⟨rfl, -⟩ | ⟨as, rfl, hnil⟩
      · simp at hdepth
      · simp at hnil

/-! ## Plain expressions -/

/-- Neither a keyword nor a step, an assignment or a choice. -/
def Terminal.isCalm : Terminal → Bool
  | .keyword _ => false
  | .sign p => p ∉ "?" :: (steps ++ assignments)
  | _ => true

def Calm (ts : List Terminal) : Prop :=
  ∀ t ∈ ts, t.isCalm = true

lemma calm_append : Calm (xs ++ ys) ↔ Calm xs ∧ Calm ys :=
  forall_mem_append

lemma calm_cons : Calm (t :: ts) ↔ t.isCalm ∧ Calm ts :=
  forall_mem_cons

lemma IsTypeName.not_calm (h : IsTypeName ts) : ¬ Calm ts := by
  cases h <;> exact fun hcalm => by simpa [isCalm] using (calm_cons.mp hcalm).1

mutual

/-- What is derived by the rules for calm terminals. -/
inductive Plain : Level → List Terminal → Tree → Prop
  | tighten {k k' : Level} {ts : List Terminal} {T : Tree} : k.tighter = some k' → Plain k' ts T → Plain k ts T
  | binary {k k' : Level} {p : String} {xs ys : List Terminal} {A B : Tree} :
      k.tighter = some k' → p ∈ k.operators → Plain k xs A → Plain k' ys B →
      Plain k (xs ++ .sign p :: ys) (.binary p A B)
  | sign {p : String} {ts : List Terminal} {T : Tree} : p ∈ signs → Plain .cast ts T →
      Plain .unary (.sign p :: ts) (.unary p T)
  | index {xs ys : List Terminal} {A I : Tree} : Plain .suffixed xs A → Plain .comma ys I →
      Plain .suffixed (xs ++ .sign "[" :: (ys ++ [.sign "]"])) (.index A I)
  | call {xs ys : List Terminal} {F : Tree} {args : List Tree} : Plain .suffixed xs F → PlainArguments ys args →
      Plain .suffixed (xs ++ .sign "(" :: (ys ++ [.sign ")"])) (.call F args)
  | member {p f : String} {xs : List Terminal} {A : Tree} : p ∈ [".", "->"] → Plain .suffixed xs A →
      Plain .suffixed (xs ++ [.sign p, .name f]) (.member p A f)
  | paren {ts : List Terminal} {T : Tree} : Plain .comma ts T → Plain .primary (.sign "(" :: (ts ++ [.sign ")"])) T
  | name {w : String} : Plain .primary [.name w] (.name w)
  | constant {c : Constant} : Plain .primary [.constant c] (.constant c)

inductive PlainArguments : List Terminal → List Tree → Prop
  | none : PlainArguments [] []
  | one {ts : List Terminal} {T : Tree} : Plain .assignment ts T → PlainArguments ts [T]
  | more {xs ys : List Terminal} {T U : Tree} {Ts : List Tree} :
      Plain .assignment xs T → PlainArguments ys (U :: Ts) → PlainArguments (xs ++ .sign "," :: ys) (T :: U :: Ts)

end

lemma isCalm_ne (h : p ∈ "?" :: (steps ++ assignments)) : (sign p).isCalm ≠ true := by
  simpa [isCalm, or_iff_not_imp_left] using h

mutual

/-- Calm terminals are derived by these rules only. -/
lemma Derives.plain {k ts T} : Derives k ts T → Calm ts → Plain k ts T
  | .tighten hk h, hcalm => .tighten hk (h.plain hcalm)
  | .binary hk hp hA hB, hcalm => by
    obtain ⟨hcalmA, hcalmB⟩ := calm_append.mp hcalm
    exact .binary hk hp (hA.plain hcalmA) (hB.plain (calm_cons.mp hcalmB).2)
  | .assign hp _ _, hcalm => (isCalm_ne (by simp [hp]) (calm_cons.mp (calm_append.mp hcalm).2).1).elim
  | .conditional _ _ _, hcalm => (isCalm_ne (by simp) (calm_cons.mp (calm_append.mp hcalm).2).1).elim
  | .cast htype _, hcalm => (htype.not_calm (calm_append.mp (calm_cons.mp hcalm).2).1).elim
  | .sign hp h, hcalm => .sign hp (h.plain (calm_cons.mp hcalm).2)
  | .stepBefore hp _, hcalm => (isCalm_ne (by simp [hp]) (calm_cons.mp hcalm).1).elim
  | .size _, hcalm | .sizeOfType _, hcalm => by simpa [isCalm] using (calm_cons.mp hcalm).1
  | .index hA hI, hcalm => by
    obtain ⟨hcalmA, hcalmI⟩ := calm_append.mp hcalm
    exact .index (hA.plain hcalmA) (hI.plain (calm_append.mp (calm_cons.mp hcalmI).2).1)
  | .call hF hargs, hcalm => by
    obtain ⟨hcalmF, hcalmargs⟩ := calm_append.mp hcalm
    exact .call (hF.plain hcalmF) (hargs.plain (calm_append.mp (calm_cons.mp hcalmargs).2).1)
  | .member hp hA, hcalm => .member hp (hA.plain (calm_append.mp hcalm).1)
  | .stepBehind hp _, hcalm => (isCalm_ne (by simp [hp]) (calm_cons.mp (calm_append.mp hcalm).2).1).elim
  | .paren h, hcalm => .paren (h.plain (calm_append.mp (calm_cons.mp hcalm).2).1)
  | .name, _ => .name
  | .constant, _ => .constant

lemma DerivesArguments.plain {ts Ts} : DerivesArguments ts Ts → Calm ts → PlainArguments ts Ts
  | .none, _ => .none
  | .one h, hcalm => .one (h.plain hcalm)
  | .more h hs, hcalm => by
    obtain ⟨hcalmT, hcalmTs⟩ := calm_append.mp hcalm
    exact .more (h.plain hcalmT) (hs.plain (calm_cons.mp hcalmTs).2)

end

/-! ## What the rules derive is balanced -/

lemma delta_eq_zero_of_mem_operators (h : p ∈ k.operators) : delta (.sign p) = 0 := by
  have hall : ∀ p ∈ k.operators, delta (.sign p) = 0 := by cases k <;> decide
  exact hall p h

mutual

lemma Plain.balanced {k ts T} : Plain k ts T → Balanced ts
  | .tighten _ h => h.balanced
  | .binary _ hp hA hB => hA.balanced.append (.cons (delta_eq_zero_of_mem_operators hp) hB.balanced)
  | .sign hp h => by
    have hall : ∀ p ∈ signs, delta (.sign p) = 0 := by decide
    exact .cons (hall _ hp) h.balanced
  | .index hA hI => hA.balanced.append (.group rfl rfl hI.balanced balanced_nil)
  | .call hF hargs => hF.balanced.append (.group rfl rfl hargs.balanced balanced_nil)
  | .member hp hA => by
    have hall : ∀ p ∈ [".", "->"], delta (.sign p) = 0 := by decide
    exact hA.balanced.append (.cons (hall _ hp) (.cons rfl balanced_nil))
  | .paren h => .group rfl rfl h.balanced balanced_nil
  | .name => .cons rfl balanced_nil
  | .constant => .cons rfl balanced_nil

lemma PlainArguments.balanced {ts Ts} : PlainArguments ts Ts → Balanced ts
  | .none => balanced_nil
  | .one h => h.balanced
  | .more h hs => h.balanced.append (.cons rfl hs.balanced)

end

/-! ## Operands and the operators between them -/

/-- An operand may end with this terminal. -/
def Terminal.endsOperand : Terminal → Bool
  | .name _ | .constant _ => true
  | .sign p => p == ")" || p == "]"
  | .keyword _ => false

def Ends (ts : List Terminal) : Prop :=
  ∃ init t, ts = init ++ [t] ∧ t.endsOperand = true

lemma ends_append (h : Ends ys) : Ends (xs ++ ys) := by
  obtain ⟨init, t, rfl, ht⟩ := h
  exact ⟨xs ++ init, t, by simp, ht⟩

lemma Ends.cons (h : Ends ts) : Ends (t :: ts) :=
  (ends_append h : Ends ([t] ++ ts))

lemma ends_singleton (h : t.endsOperand) : Ends [t] :=
  ⟨[], t, rfl, h⟩

/-- What stands behind something that ends no operand ends as an operand does if the whole does. -/
lemma Ends.behind (h : Ends (xs ++ t :: ys)) (ht : t.endsOperand = false) : Ends ys := by
  obtain ⟨init, s, heq, hs⟩ := h
  rcases eq_nil_or_concat ys with rfl | ⟨ys, y, rfl⟩
  · obtain ⟨-, hlast⟩ := append_inj' heq rfl
    obtain rfl := (cons.inj hlast).1
    simp [ht] at hs
  · have heq : (xs ++ t :: ys) ++ [y] = init ++ [s] := by simpa using heq
    obtain ⟨-, hlast⟩ := append_inj' heq rfl
    obtain rfl := (cons.inj hlast).1
    exact ⟨ys, y, concat_eq_append .., hs⟩

lemma Plain.ends {k ts T} : Plain k ts T → Ends ts
  | .tighten _ h => h.ends
  | .binary _ _ _ hB => ends_append hB.ends.cons
  | .sign _ h => h.ends.cons
  | .index _ _ => ends_append (ends_append (ends_singleton rfl)).cons
  | .call _ _ => ends_append (ends_append (ends_singleton rfl)).cons
  | .member _ _ => ends_append (ends_singleton rfl).cons
  | .paren _ => (ends_append (ends_singleton rfl)).cons
  | .name => ends_singleton rfl
  | .constant => ends_singleton rfl

def Level.rank : Level → Nat
  | comma => 0
  | assignment => 1
  | conditional => 2
  | disjunction => 3
  | conjunction => 4
  | bitOr => 5
  | bitXor => 6
  | bitAnd => 7
  | equality => 8
  | relation => 9
  | shift => 10
  | sum => 11
  | product => 12
  | cast => 13
  | unary => 14
  | suffixed => 15
  | primary => 16

lemma Level.rank_tighter (h : k.tighter = some k') : k'.rank = k.rank + 1 := by
  cases k <;> cases h <;> rfl

/-- The signs that stand between two operands, with their levels. -/
def infixes : List (List String × Level) :=
  [.comma, .disjunction, .conjunction, .bitOr, .bitXor, .bitAnd, .equality, .relation, .shift, .sum,
    .product].map fun k : Level => (k.operators, k)

/-- The number of a sign's level; beyond all levels if it does not stand between two operands. -/
def infixRank (p : String) : Nat :=
  ((infixes.find? fun e => e.1.contains p).map fun e => e.2.rank).getD 17

lemma infixRank_of_mem_operators (h : p ∈ k.operators) : infixRank p = k.rank := by
  have hall : ∀ p ∈ k.operators, infixRank p = k.rank := by cases k <;> decide
  exact hall p h

/-- No sign stands between two operands that binds tighter than a product. -/
lemma infixRank_eq_of_le (h : 13 ≤ infixRank p) : infixRank p = 17 := by
  unfold infixRank at h ⊢
  cases hfind : infixes.find? fun e => e.1.contains p with
  | none => rfl
  | some e =>
    have hall : ∀ e ∈ infixes, e.2.rank ≤ 12 := by decide
    have := hall e (mem_of_find?_eq_some hfind)
    simp only [hfind, Option.map_some, Option.getD_some] at h
    omega

lemma endsOperand_of_mem_operators (h : p ∈ k.operators) : (sign p).endsOperand = false := by
  have hall : ∀ p ∈ k.operators, (sign p).endsOperand = false := by cases k <;> decide
  exact hall p h

/-- The place of a sign in a list of terminals: what stands before it is balanced and ends as an
operand does. -/
structure Between (ts xs : List Terminal) (p : String) (ys : List Terminal) : Prop where
  eq : ts = xs ++ .sign p :: ys
  balanced : Balanced xs
  ends : Ends xs

/-- What stands behind an operator, up to a sign between operands. -/
lemma Between.behind {q} (hx : Balanced xs) (hq : delta (.sign q) = 0) (hqend : (sign q).endsOperand = false)
    (hbalanced : Balanced (xs ++ .sign q :: zs)) (hends : Ends (xs ++ .sign q :: zs)) :
    Between (zs ++ .sign p :: ys) zs p ys :=
  ⟨rfl, @Balanced.right [.sign q] zs (hbalanced.right hx.depth_eq) (by simp [hq]), hends.behind hqend⟩

/-- A sign between operands lies before an operator, is the operator, or lies behind it. -/
lemma Between.join {q} (h : Between (A ++ .sign q :: B) xs p ys)
    (hA : Balanced A) (hq : delta (.sign q) = 0) (hqend : (sign q).endsOperand = false) :
    (∃ zs, Between A xs p zs) ∨ xs = A ∧ p = q ∧ ys = B ∨ ∃ zs, xs = A ++ .sign q :: zs ∧ Between B zs p ys := by
  rcases split_append h.eq with ⟨zs, hzs⟩ | ⟨zs, rfl, htail⟩
  · exact .inl ⟨zs, hzs, h.balanced, h.ends⟩
  · rcases split_cons htail with ⟨rfl, hsign, hys⟩ | ⟨zs, rfl, hzs⟩
    · exact .inr (.inl ⟨append_nil A, (sign.inj hsign).symm, hys.symm⟩)
    · exact .inr (.inr ⟨zs, rfl, hzs ▸ .behind hA hq hqend h.balanced h.ends⟩)

/-- A sign between operands lies before a pair of brackets, or is the opening one. -/
lemma Between.suffix {X o} (h : Between (A ++ .sign o :: (X ++ [c])) xs p ys) (hA : Balanced A) (hX : Balanced X)
    (ho : delta (.sign o) = 1) : (∃ zs, Between A xs p zs) ∨ p = o := by
  rcases split_append h.eq with ⟨zs, hzs⟩ | ⟨zs, rfl, htail⟩
  · exact .inl ⟨zs, hzs, h.balanced, h.ends⟩
  · cases zs with
    | nil => exact .inr (sign.inj (cons.inj htail).1).symm
    | cons z zs =>
      exact (hX.not_split_group ho (cons_ne_nil z zs) (h.balanced.right hA.depth_eq).depth_eq htail).elim

lemma not_between_singleton : ¬ Between [t] xs p ys := by
  intro h
  obtain ⟨init, s, rfl, -⟩ := h.ends
  have := congrArg length h.eq
  simp only [length_append, length_cons] at this
  omega

/-- A sign between operands binds as tight as the level of the whole list, or tighter. -/
lemma Plain.rank_le {k ts T} : Plain k ts T → ∀ {xs ys p}, Between ts xs p ys → k.rank ≤ infixRank p
  | .tighten hk h, _, _, _, hb => by
    have := h.rank_le hb
    have := rank_tighter hk
    omega
  | .binary hk hp hA hB, _, _, _, hb => by
    rcases hb.join hA.balanced (delta_eq_zero_of_mem_operators hp) (endsOperand_of_mem_operators hp)
      with ⟨_, hb⟩ | ⟨-, rfl, -⟩ | ⟨_, -, hb⟩
    · exact hA.rank_le hb
    · exact (infixRank_of_mem_operators hp).ge
    · have := hB.rank_le hb
      have := rank_tighter hk
      omega
  | .sign hp h, _, _, _, hb => by
    have hall : ∀ p ∈ signs, delta (.sign p) = 0 ∧ (Terminal.sign p).endsOperand = false := by decide
    rcases Between.join (A := []) hb balanced_nil (hall _ hp).1 (hall _ hp).2 with
      ⟨_, hb⟩ | ⟨rfl, -, -⟩ | ⟨_, -, hb⟩
    · simpa using hb.eq
    · obtain ⟨init, s, heq, -⟩ := hb.ends
      simp at heq
    · have := infixRank_eq_of_le (h.rank_le hb)
      rw [this]
      decide
  | .index hA hI, _, _, _, hb => by
    rcases hb.suffix hA.balanced hI.balanced rfl with ⟨_, hb⟩ | rfl
    · exact hA.rank_le hb
    · decide
  | .call hF hargs, _, _, _, hb => by
    rcases hb.suffix hF.balanced hargs.balanced rfl with ⟨_, hb⟩ | rfl
    · exact hF.rank_le hb
    · decide
  | .member hp hA, _, _, _, hb => by
    have hall : ∀ p ∈ [".", "->"], delta (.sign p) = 0 ∧ (Terminal.sign p).endsOperand = false ∧
      15 ≤ infixRank p := by decide
    rcases hb.join hA.balanced (hall _ hp).1 (hall _ hp).2.1 with ⟨_, hb⟩ | ⟨-, rfl, -⟩ | ⟨_, -, hb⟩
    · exact hA.rank_le hb
    · exact (hall _ hp).2.2
    · exact (not_between_singleton hb).elim
  | .paren h, xs, _, _, hb => by
    have hne : xs ≠ [] := by
      obtain ⟨init, s, rfl, -⟩ := hb.ends
      simp
    exact (h.balanced.not_split_group rfl hne hb.balanced.depth_eq hb.eq).elim
  | .name, _, _, _, hb => (not_between_singleton hb).elim
  | .constant, _, _, _, hb => (not_between_singleton hb).elim

/-! ## Uniqueness -/

lemma Plain.between (h : Plain k xs T) : Between (xs ++ .sign p :: ys) xs p ys :=
  ⟨rfl, h.balanced, h.ends⟩

lemma Plain.ne_nil (h : Plain k ts T) : ts ≠ [] := by
  obtain ⟨init, s, rfl, -⟩ := h.ends
  simp

lemma Between.unique_of_left
    (h : Between ts xs p ys) (h' : Between ts xs' p' ys') (hnot : ∀ zs, ¬ Between xs xs' p' zs)
    (hnot' : ∀ zs, ¬ Between xs' xs p zs) : xs = xs' ∧ p = p' ∧ ys = ys' := by
  rcases split_append (h.eq.symm.trans h'.eq) with ⟨zs, hzs⟩ | ⟨zs, hzs, htail⟩
  · exact (hnot zs ⟨hzs, h'.balanced, h'.ends⟩).elim
  · rcases split_cons htail with ⟨rfl, hsign, hys⟩ | ⟨zs, rfl, -⟩
    · exact ⟨by simpa using hzs.symm, sign.inj hsign, hys⟩
    · exact (hnot' zs ⟨hzs, h.balanced, h.ends⟩).elim

lemma Between.unique_of_right (h : Between ts xs p ys) (h' : Between ts xs' p' ys') (hp : p ∈ k.operators)
    (hp' : p' ∈ k.operators) (hnot : ∀ zs, ¬ Between ys zs p' ys') (hnot' : ∀ zs, ¬ Between ys' zs p ys) :
    xs = xs' ∧ p = p' ∧ ys = ys' := by
  have heq := h.eq.symm.trans h'.eq
  rcases split_append heq with ⟨zs, rfl⟩ | ⟨zs, rfl, htail⟩
  · obtain rfl : zs ++ .sign p :: ys = ys' := by simpa using heq
    exact (hnot' zs (.behind h'.balanced (delta_eq_zero_of_mem_operators hp')
      (endsOperand_of_mem_operators hp') h.balanced h.ends)).elim
  · rcases split_cons htail with ⟨rfl, hsign, hys⟩ | ⟨zs, rfl, rfl⟩
    · exact ⟨(append_nil xs).symm, sign.inj hsign, hys⟩
    · exact (hnot zs (.behind h.balanced (delta_eq_zero_of_mem_operators hp)
        (endsOperand_of_mem_operators hp) h'.balanced h'.ends)).elim

lemma suffix_unique (hy : Balanced ys) (hy' : Balanced ys') (ho : delta o = 1) (ho' : delta o' = 1)
    (heq : xs ++ o :: (ys ++ [c]) = xs' ++ o' :: (ys' ++ [c'])) : xs = xs' ∧ o = o' ∧ ys = ys' ∧ c = c' := by
  have heq : (xs ++ o :: ys) ++ [c] = (xs' ++ o' :: ys') ++ [c'] := by simpa using heq
  obtain ⟨hopen, hlast⟩ := append_inj' heq rfl
  obtain rfl := hy.eq_of_opened hy' ho ho' hopen
  obtain ⟨rfl, rfl⟩ := cons.inj (append_cancel_left hopen)
  exact ⟨rfl, rfl, rfl, (cons.inj hlast).1⟩

lemma suffix_ne_member {o c f} : xs ++ .sign o :: (ys ++ [.sign c]) ≠ xs' ++ [.sign p, .name f] := by
  intro heq
  have heq : (xs ++ .sign o :: ys) ++ [.sign c] = (xs' ++ [.sign p]) ++ [.name f] := by simpa using heq
  cases (append_inj' heq rfl).2

/-- Nothing is put behind another expression in a primary one. -/
lemma Plain.not_primary {A} (h : Plain .primary (xs ++ t :: ys) T) (hA : Plain k xs A) : False := by
  obtain ⟨init, s, hxs, -⟩ := hA.ends
  generalize heq : xs ++ t :: ys = ts at h
  have hlength := congrArg length heq
  rw [hxs] at hlength
  cases h with
  | tighten hk => cases hk
  | binary _ hp => cases hp
  | paren h => exact h.balanced.not_split_group rfl (by simp [hxs]) hA.balanced.depth_eq heq.symm
  | name => simp at hlength; omega
  | constant => simp at hlength; omega

lemma Plain.front {k ts T} : Plain k ts T → 15 ≤ k.rank → ∃ t us, ts = t :: us ∧ ∀ p ∈ signs, t ≠ .sign p
  | .tighten hk h, hrank => h.front (by have := rank_tighter hk; omega)
  | .binary (k := k) hk hp hA hB, hrank => by cases k <;> simp_all [rank, operators]
  | .sign .., hrank => absurd hrank (by decide)
  | .index hA _, hrank | .call hA _, hrank | .member _ hA, hrank => by
    obtain ⟨t, us, rfl, ht⟩ := hA.front hrank
    exact ⟨t, _, rfl, ht⟩
  | .paren _, _ => ⟨_, _, rfl, by decide⟩
  | .name, _ => ⟨_, _, rfl, by simp⟩
  | .constant, _ => ⟨_, _, rfl, by simp⟩

/-- The list has a place where a rule of the level cuts it. -/
inductive Cut : Level → List Terminal → Prop
  | between {k j : Level} {xs ys : List Terminal} {A : Tree} {p : String} :
      Plain j xs A → infixRank p = k.rank → Cut k (xs ++ .sign p :: ys)
  | sign {ts : List Terminal} {p : String} : p ∈ signs → Cut .unary (.sign p :: ts)
  | suffix {j : Level} {xs ys : List Terminal} {A : Tree} {t : Terminal} : Plain j xs A → Cut .suffixed (xs ++ t :: ys)

/-- What a rule of the level cuts is derived at no tighter level. -/
lemma Plain.not_cut (h : Plain k' ts T) (hk : k.tighter = some k') (hcut : Cut k ts) : False := by
  have hrank := rank_tighter hk
  cases hcut with
  | between hA hp =>
    have := h.rank_le hA.between
    omega
  | sign hp =>
    obtain ⟨t, us, heq, ht⟩ := h.front (by rw [hrank]; decide)
    exact ht _ hp (cons.inj heq).1.symm
  | suffix hA =>
    cases hk
    exact h.not_primary hA

mutual

/-- A list stands for one tree at most, by plain rules. -/
lemma Plain.unique {k ts T T'} : Plain k ts T → Plain k ts T' → T = T'
  | .tighten hk h, h' => by
    cases h' with
    | tighten hk' h' =>
      cases hk.symm.trans hk'
      exact h.unique h'
    | binary _ hp hA _ => exact (h.not_cut hk (.between hA (infixRank_of_mem_operators hp))).elim
    | sign hp => exact (h.not_cut hk (.sign hp)).elim
    | index hA => exact (h.not_cut hk (.suffix hA)).elim
    | call hF => exact (h.not_cut hk (.suffix hF)).elim
    | member _ hA => exact (h.not_cut hk (.suffix hA)).elim
    | paren => cases hk
    | name => cases hk
    | constant => cases hk
  | @Plain.binary k k' p xs ys A B hk hp hA hB, h' => by
    have hrank := rank_tighter hk
    generalize heq : xs ++ .sign p :: ys = ts at h'
    have hb : Between ts xs p ys := heq ▸ hA.between
    cases h' with
    | tighten hk' h' => exact (h'.not_cut hk' (heq ▸ .between hA (infixRank_of_mem_operators hp))).elim
    | binary hk' hp' hA' hB' =>
      cases hk.symm.trans hk'
      obtain ⟨rfl, rfl, rfl⟩ := hb.unique_of_right hA'.between hp hp' (fun zs hzs => by
          have := hB.rank_le hzs
          rw [infixRank_of_mem_operators hp'] at this
          omega)
        (fun zs hzs => by
          have := hB'.rank_le hzs
          rw [infixRank_of_mem_operators hp] at this
          omega)
      rw [hA.unique hA', hB.unique hB']
    | _ => cases hp
  | @Plain.sign p ts T hp h, h' => by
    generalize heq : .sign p :: ts = us at h'
    cases h' with
    | tighten hk' h' => exact (h'.not_cut hk' (heq ▸ .sign hp)).elim
    | binary _ hp' => cases hp'
    | sign hp' h' =>
      obtain ⟨hsign, rfl⟩ := cons.inj heq
      obtain rfl := sign.inj hsign
      rw [h.unique h']
  | @Plain.index xs ys A I hA hI, h' => by
    generalize heq : xs ++ .sign "[" :: (ys ++ [.sign "]"]) = ts at h'
    cases h' with
    | tighten hk' h' => exact (h'.not_cut hk' (heq ▸ .suffix hA)).elim
    | binary _ hp' => cases hp'
    | index hA' hI' =>
      obtain ⟨rfl, -, rfl, -⟩ := suffix_unique hI.balanced hI'.balanced rfl rfl heq
      rw [hA.unique hA', hI.unique hI']
    | call hF' hargs' =>
      obtain ⟨-, hopen, -⟩ := suffix_unique hI.balanced hargs'.balanced rfl rfl heq
      simp at hopen
    | member => exact (suffix_ne_member heq).elim
  | @Plain.call xs ys F args hF hargs, h' => by
    generalize heq : xs ++ .sign "(" :: (ys ++ [.sign ")"]) = ts at h'
    cases h' with
    | tighten hk' h' => exact (h'.not_cut hk' (heq ▸ .suffix hF)).elim
    | binary _ hp' => cases hp'
    | index hA' hI' =>
      obtain ⟨-, hopen, -⟩ := suffix_unique hargs.balanced hI'.balanced rfl rfl heq
      simp at hopen
    | call hF' hargs' =>
      obtain ⟨rfl, -, rfl, -⟩ := suffix_unique hargs.balanced hargs'.balanced rfl rfl heq
      rw [hF.unique hF', hargs.unique hargs']
    | member => exact (suffix_ne_member heq).elim
  | @Plain.member p f xs A hp hA, h' => by
    generalize heq : xs ++ [.sign p, .name f] = ts at h'
    cases h' with
    | tighten hk' h' => exact (h'.not_cut hk' (heq ▸ .suffix hA)).elim
    | binary _ hp' => cases hp'
    | index => exact (suffix_ne_member heq.symm).elim
    | call => exact (suffix_ne_member heq.symm).elim
    | member hp' hA' =>
      obtain ⟨rfl, hlast⟩ := append_inj' heq rfl
      cases hlast
      rw [hA.unique hA']
  | @Plain.paren ts T h, h' => by
    generalize heq : .sign "(" :: (ts ++ [.sign ")"]) = us at h'
    cases h' with
    | tighten hk' => cases hk'
    | binary _ hp' => cases hp'
    | paren h' =>
      obtain ⟨-, htail⟩ := cons.inj heq
      obtain rfl := append_cancel_right htail
      exact h.unique h'
    | name => cases heq
    | constant => cases heq
  | @Plain.name w, h' => by
    generalize heq : [name w] = us at h'
    cases h' with
    | tighten hk' => cases hk'
    | binary _ hp' => cases hp'
    | paren => cases heq
    | name => cases heq; rfl
    | constant => cases heq
  | @Plain.constant c, h' => by
    generalize heq : [constant c] = us at h'
    cases h' with
    | tighten hk' => cases hk'
    | binary _ hp' => cases hp'
    | paren => cases heq
    | name => cases heq
    | constant => cases heq; rfl

lemma PlainArguments.unique {ts Ts Ts'} : PlainArguments ts Ts → PlainArguments ts Ts' → Ts = Ts'
  | .none, h' => by
    generalize heq : [] = us at h'
    cases h' with
    | none => rfl
    | one h' => exact (h'.ne_nil heq.symm).elim
    | more => simp at heq
  | .one h, h' => by
    cases h' with
    | none => exact (h.ne_nil rfl).elim
    | one h' => rw [h.unique h']
    | more h' hs' => exact absurd (h.rank_le h'.between) (by decide)
  | @PlainArguments.more xs ys T U Ts h hs, h' => by
    generalize heq : xs ++ .sign "," :: ys = us at h'
    have hb : Between us xs "," ys := heq ▸ h.between
    cases h' with
    | none => simp at heq
    | one h' => exact absurd (h'.rank_le hb) (by decide)
    | more h' hs' =>
      obtain ⟨rfl, -, rfl⟩ := hb.unique_of_left h'.between (fun _ hzs => absurd (h.rank_le hzs) (by decide))
        (fun _ hzs => absurd (h'.rank_le hzs) (by decide))
      rw [h.unique h', hs.unique hs']

end

end AlgoLang.CGrammar
