/-
# Expressions and types are read by the agenda

Every reader of expressions and of types does what the machine does with the item of the same name: by one
mutual induction for expressions and one for types, on the measures by which the readers end.
-/
import AlgoLang.Proofs.Agenda

namespace AlgoLang

open Item Reading Taken Expr

variable {t : Token} {k : TokenKind} {l : Expr.Level}

variable {β : Type} {left : β → List Token} {later : List Item}

lemma Item.operand_of_tighter {l' : Expr.Level} (h : l.tighter = some l') : operand l = .level l' := by
  simp [operand, h]

lemma Item.operand_of_none (h : l.tighter = none) : operand l = .power := by
  simp [operand, h]

/-! ## Literals -/

lemma Expr.literal?_eq_ok_some {e : Expr} (h : literal? t = .ok (some e)) : t.kind.isLiteral := by
  unfold literal? at h
  split at h
  · next hk => rw [hk]; rfl
  · next hk => rw [hk]; rfl
  · next hk => rw [hk]; rfl
  · next hk => rw [hk]; rfl
  · next hk => rw [hk]; rfl
  · next hk => rw [hk]; rfl
  · cases h

lemma Expr.literal?_eq_ok_none (h : literal? t = .ok none) : t.kind.isLiteral = false := by
  unfold literal? at h
  split at h
  · split at h <;> cases h
  · cases h
  · cases h
  · cases h
  · cases h
  · cases h
  · unfold TokenKind.isLiteral
    split <;> first | contradiction | rfl

lemma Expr.literal?_eq_error {f : ParseFault} (h : literal? t = .error f) :
    t.kind = .integer ∧ ∃ fault, f = .numeral fault := by
  unfold literal? at h
  split at h
  · next hk =>
    split at h
    · cases h
    · cases h
      exact ⟨hk, _, rfl⟩
  all_goals cases h

lemma TokenKind.ne_of_isLiteral (h : k.isLiteral) : k ≠ .mark .lparen ∧ k ≠ .identifier ∧ k ≠ .mark .minus := by
  refine ⟨?_, ?_, ?_⟩ <;> rintro rfl <;> cases h

lemma literal_follows {i : Item} {rest : List Token} {wanted : Wanted}
    {f : Option Expr → Except ParseFault β} (hyes : t.kind.isLiteral → i.move t.kind = .take [])
    (hno : t.kind.isLiteral = false → i.move t.kind = .refuse wanted)
    (hsome : ∀ e, literal? t = .ok (some e) → Follows left later rest (f (some e)))
    (hnone : f none = Reading.fail wanted (t :: rest)) :
    Follows left (i :: later) (t :: rest) (literal? t >>= f) := by
  cases he : literal? t with
  | error fault =>
    have hm := hyes (by rw [(literal?_eq_error he).1]; rfl)
    exact ⟨_, .refl, .unreadable hm he⟩
  | ok e? =>
    cases e? with
    | none =>
      change Follows left (i :: later) (t :: rest) (f none)
      rw [hnone]
      exact .refuse (hno (literal?_eq_ok_none he))
    | some e =>
      have hm := hyes (literal?_eq_ok_some he)
      exact (hsome e he).of_runs (.single (.take hm he))

namespace Expr

lemma op?_eof (l : Level) : l.op? .eof = none := by
  cases l <;> rfl

lemma ne_integer_of_op? {l : Level} {op : BinaryOp} (h : l.op? k = some op) : k ≠ .integer := by
  rintro rfl
  cases l <;> cases h

lemma ne_integer_of_sign? {op : UnaryOp} (h : sign? k = some op) : k ≠ .integer := by
  rintro rfl
  cases h

/-! ## Expressions -/

mutual

lemma parseAt_follows (l : Level) (toks : List Token) : Follows rest [.level l] toks (parseAt l toks) := by
  refine .keep rfl ?_
  rw [parseAt]
  split
  · next l' hl =>
    have := Level.rank_tighter hl
    rw [operand_of_tighter hl]
    refine (parseAt_follows l' toks).andThen ?_
    intro e last us hu
    exact .wrapped (parseMore_follows l e last us)
  · next hl =>
    rw [operand_of_none hl]
    refine (parsePower_follows toks).andThen ?_
    intro e last us hu
    exact .wrapped (parseMore_follows l e last us)
termination_by (toks.length, 3 + l.rank)
decreasing_by all_goals (cases l <;> grind [Level.rank])

lemma parseMore_follows (l : Level) (e : Expr) (last : Token) :
    (toks : List Token) → Follows Held.rest [.more l] toks (parseMore l e last toks)
  | [] => by
    rw [parseMore]
    exact .pass (if_neg (by simp [op?_eof])) (.done rfl)
  | t :: rest => by
    rw [parseMore]
    split
    · next hop => exact .pass (if_neg (by simp [hop])) (.done rfl)
    · next op hop =>
      refine .take (if_pos (by simp [hop])) (ne_integer_of_op? hop) ?_
      split
      · next l' hl =>
        rw [operand_of_tighter hl]
        refine (parseAt_follows l' rest).andThen ?_
        intro right last us hu
        exact .wrapped (parseMore_follows l _ last us)
      · next hl =>
        rw [operand_of_none hl]
        refine (parsePower_follows rest).andThen ?_
        intro right last us hu
        exact .wrapped (parseMore_follows l _ last us)
termination_by toks => (toks.length, 0)

lemma parsePower_follows (toks : List Token) : Follows rest [.power] toks (parsePower toks) := by
  refine .keep rfl ?_
  rw [parsePower]
  refine (parseSigned_follows toks).andThen ?_
  intro left last us hu
  dsimp only
  split
  · next htake => exact .missed htake (.done rfl) rfl rfl
  · next vs hv htake =>
    refine .found htake ?_ rfl rfl
    exact .wrapped (parsePower_follows vs)
termination_by (toks.length, 2)

lemma parseSigned_follows : (toks : List Token) → Follows rest [.signed] toks (parseSigned toks)
  | [] => by
    rw [parseSigned]
    exact .keep rfl (.refuse rfl)
  | t :: rest => by
    rw [parseSigned]
    split
    · next op hop =>
      refine .take (if_pos (by simp [hop])) (ne_integer_of_sign? hop) ?_
      exact .wrapped (parseSigned_follows rest)
    · next hop => exact .keep (if_neg (by simp [hop])) (parsePrimary_follows (t :: rest))
termination_by toks => (toks.length, 1)

lemma parsePrimary_follows : (toks : List Token) → Follows rest [.primary] toks (parsePrimary toks)
  | [] => by
    rw [parsePrimary]
    exact .refuse rfl
  | t :: rest => by
    rw [parsePrimary]
    split
    · next hk =>
      refine .taken hk ?_ rfl rfl
      refine (parseAt_follows .disjunction rest).andThen ?_
      intro e _ us hu
      exact .wrapped mark_reads
    · next hk =>
      refine .taken hk ?_ rfl rfl
      split
      · next open_ _ us hu htake =>
        refine .found htake ?_ rfl rfl
        refine (parseArguments_follows us).andThen ?_
        intro args last vs hv
        exact .wrapped (parseSuffixes_follows _ t last vs)
      · next htake =>
        refine .keep (if_neg (ahead_ne_of_take? htake (by simp))) ?_
        exact .wrapped (parseSuffixes_follows _ t t rest)
    · next hparen hname =>
      refine literal_follows ?_ ?_ ?_ rfl
      · intro hk
        simp [move, TokenKind.ne_of_isLiteral hk, hk]
      · intro hk
        simp only [move, if_neg hparen, if_neg hname, hk]
        rfl
      · intro e _
        exact .done rfl
termination_by toks => (toks.length, 0)

lemma parseSuffixes_follows (e : Expr) (start last : Token) :
    (toks : List Token) → Follows Held.rest [.suffixes] toks (parseSuffixes e start last toks)
  | [] => by
    rw [parseSuffixes]
    exact .pass rfl (.done rfl)
  | t :: rest => by
    rw [parseSuffixes]
    split
    · next hk =>
      refine .taken hk ?_ rfl rfl
      refine (parseList_follows rest).andThen ?_
      intro indices _ us hu
      refine mark_reads.andThen ?_
      intro _ last vs hv
      exact .wrapped (parseSuffixes_follows _ start last vs)
    · next hk =>
      refine .taken hk ?_ rfl rfl
      refine expectName_reads.andThen ?_
      intro f last us hu
      exact .wrapped (parseSuffixes_follows _ start last us)
    · next hbracket hdot =>
      refine .pass ?_ (.done rfl)
      rw [ahead_cons, move, if_neg hbracket, if_neg hdot]
termination_by toks => (toks.length, 0)

lemma parseList_follows (toks : List Token) : Follows rest [.exprs] toks (parseList toks) := by
  refine .keep rfl ?_
  rw [parseList]
  refine (parseAt_follows .disjunction toks).andThen ?_
  intro e last us hu
  dsimp only
  split
  · next htake => exact .missed htake (.done rfl) rfl rfl
  · next vs hv htake =>
    refine .found htake ?_ rfl rfl
    exact .wrapped (parseList_follows vs)
termination_by (toks.length, 4 + Level.disjunction.rank)

lemma parseArguments_follows (toks : List Token) : Follows rest [.arguments] toks (parseArguments toks) := by
  rw [parseArguments]
  split
  · next htake => exact .found htake (.done rfl) rfl rfl
  · next htake =>
    refine .keep (if_neg (ahead_ne_of_take? htake (by simp))) ?_
    refine (parseList_follows toks).andThen ?_
    intro es _ us hu
    exact .wrapped mark_reads
termination_by (toks.length, 5 + Level.disjunction.rank)

end

lemma parse_follows (toks : List Token) : Follows rest [.expr] toks (parse toks) :=
  parseAt_follows .disjunction toks

/-! ## Targets and constants -/

lemma parseTarget_follows (toks : List Token) :
    Follows rest [.token .identifier .identifier, .suffixes] toks (parseTarget toks) := by
  refine (expect_reads (by rfl) (by simp)).andThen ?_
  intro t last us hu
  exact .wrapped (parseSuffixes_follows _ t last us)

lemma parseTargets_follows (toks : List Token) : Follows rest [.targets] toks (parseTargets toks) := by
  refine .keep rfl ?_
  rw [parseTargets]
  refine (parseTarget_follows toks).andThen ?_
  intro e last us hu
  dsimp only
  split
  · next htake => exact .missed htake (.done rfl) rfl rfl
  · next vs hv htake =>
    refine .found htake ?_ rfl rfl
    exact .wrapped (parseTargets_follows vs)
termination_by toks.length

/-- Behind a minus sign there are numbers only. -/
lemma literal?_number {e? : Option Expr} (h : literal? t = .ok e?) :
    (t.kind = .integer → ∃ v, e? = some (.integer t.span v)) ∧
      (t.kind = .real → ∃ v, e? = some (.real t.span v)) := by
  unfold literal? at h
  split at h
  · next hk =>
    split at h
    · cases h
      exact ⟨fun _ => ⟨_, rfl⟩, fun hreal => nomatch hk.symm.trans hreal⟩
    · cases h
  · next hk =>
    cases h
    exact ⟨fun hint => (nomatch hk.symm.trans hint), fun _ => ⟨_, rfl⟩⟩
  all_goals all_goals simp_all

lemma parseConstant_follows : (toks : List Token) → Follows rest [.constant] toks (parseConstant toks)
  | [] => .refuse rfl
  | t :: rest => by
    rw [parseConstant.eq_def]
    dsimp only
    split
    · next hminus =>
      have hk : t.kind = .mark .minus := by simpa using hminus
      refine .taken hk ?_ rfl rfl
      cases rest with
      | nil => exact .refuse rfl
      | cons n rest =>
        dsimp only
        cases he : literal? n with
        | error fault =>
          have hint := (literal?_eq_error he).1
          exact ⟨_, .refl, .unreadable (if_pos (.inl hint)) he⟩
        | ok e? =>
          dsimp only [bind, Except.bind]
          split
          · next hint => exact .of_runs (.single (.take (if_pos (.inl hint)) he)) (.done rfl)
          · next hreal => exact .of_runs (.single (.take (if_pos (.inr hreal)) he)) (.done rfl)
          · next hint hreal =>
            refine .refuse (if_neg ?_)
            rintro (hk | hk)
            · obtain ⟨v, hv⟩ := (literal?_number he).1 hk
              exact hint _ _ hk hv
            · obtain ⟨v, hv⟩ := (literal?_number he).2 hk
              exact hreal _ _ hk hv
    · next hminus =>
      have hk : t.kind ≠ .mark .minus := by simpa using hminus
      refine literal_follows ?_ ?_ ?_ rfl
      · intro hlit
        simp [move, hk, hlit]
      · intro hlit
        simp only [move, if_neg hk, hlit]
        rfl
      · intro e _
        exact .done rfl

end Expr

/-! ## Types -/

namespace TypeExpr

lemma parseDimensions_follows (toks : List Token) : Follows rest [.dimensions] toks (parseDimensions toks) := by
  refine .keep rfl ?_
  rw [parseDimensions]
  refine (parse_follows toks).andThen ?_
  intro d _ us hu
  refine mark_reads.andThen ?_
  intro _ last vs hv
  dsimp only
  split
  · next htake => exact .missed htake (.done rfl) rfl rfl
  · next ws hw htake =>
    refine .found htake ?_ rfl rfl
    exact .wrapped (parseDimensions_follows ws)
termination_by toks.length

mutual

lemma parse_follows : (toks : List Token) → Follows rest [.type] toks (parse toks)
  | [] => by
    rw [parse]
    exact .refuse rfl
  | t :: rest => by
    rw [parse]
    split
    · next hk =>
      refine .taken hk ?_ rfl rfl
      refine mark_reads.andThen ?_
      intro _ _ toks₁ h₁
      refine (parseDimensions_follows toks₁).andThen ?_
      intro ds _ toks₂ h₂
      refine keyword_reads.andThen ?_
      intro _ _ toks₃ h₃
      exact .wrapped (parse_follows toks₃)
    · next hk =>
      refine .taken hk ?_ rfl rfl
      refine keyword_reads.andThen ?_
      intro _ start toks₁ h₁
      refine (parseFields_follows start toks₁).andNext ?_
      intro fields _ toks₂ h₂
      exact .wrapped keyword_reads
    · next hk =>
      refine .taken hk ?_ rfl rfl
      refine expectName_reads.andThen ?_
      intro v last toks₁ h₁
      refine (moreNames_follows .enumValue last toks₁).andNext ?_
      intro vs _ toks₂ h₂
      exact .wrapped mark_reads
    · next hk =>
      refine .taken hk ?_ rfl rfl
      exact .done rfl
    · next harray hstructure hparen hname =>
      have hm : Item.type.move t.kind = if (primitive? t.kind).isSome then .take [] else .refuse .type := by
        rw [move, typeMove.eq_5] <;> assumption
      split
      · next p hp =>
        rw [hp] at hm
        refine .take hm ?_ (.done rfl)
        intro hint
        rw [hint] at hp
        cases hp
      · next hp =>
        rw [hp] at hm
        exact .refuse hm
termination_by toks => (toks.length, 0)

lemma parseFields_follows (last : Token) (toks : List Token) :
    Follows Held.rest [.fields] toks (parseFields last toks) := by
  rw [parseFields]
  split
  · next htake => exact .missed htake (.done rfl) rfl rfl
  · next first _ us hu htake =>
    obtain ⟨rfl, hk, rfl⟩ := eq_of_take?_eq_some htake
    refine .taken hk ?_ rfl rfl
    refine (moreNames_follows .variableName _ us).andNext ?_
    intro more _ vs hv
    refine mark_reads.andThen ?_
    intro _ _ ws hw
    refine (parse_follows ws).andThen ?_
    intro type last₄ xs hx
    refine skip_follows last₄ ?_ rfl rfl
    dsimp only
    obtain ⟨_, _, ys, hy⟩ := skip (.mark .semicolon) last₄ xs
    exact .wrapped (parseFields_follows _ ys)
termination_by (toks.length, 1)

end

end TypeExpr

end AlgoLang
