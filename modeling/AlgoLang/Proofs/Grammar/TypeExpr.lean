/-
# Types that are derived are read

A type ends with itself.  Declarations are read as long as a name comes next, so behind a list of them neither
a name nor a semicolon may follow.
-/
import AlgoLang.Proofs.Grammar.ExprComplete
import AlgoLang.TypeExpr.Parse

namespace AlgoLang.Grammar

open TypeExpr Reading List

variable {kind : TokenKind} {ts : List Token}

/-! ## Names and optional tokens -/

lemma IsOptional.skip_eq {us rest} (h : IsOptional kind us)
    (hrest : ∀ t, rest.head? = some t → t.kind ≠ kind) (last : Token) :
    ∃ hle, skip kind last (us ++ rest) = ⟨(), us.getLast?.getD last, rest, hle⟩ := by
  cases h with
  | absent =>
    refine ⟨Nat.le_refl _, ?_⟩
    simp only [skip, nil_append, take?_eq_none hrest]
    rfl
  | present ht =>
    refine ⟨by simp, ?_⟩
    simp only [skip, cons_append, nil_append, take?_cons _ ht]
    rfl

lemma IsNames.yields {ts names} (wanted : Wanted) (rest : List Token)
    (hrest : ∀ t, rest.head? = some t → t.kind ≠ .mark .comma) : IsNames ts names →
      ∃ n us more, ts = n :: us ∧ n.kind = .identifier ∧ names = n.value :: more ∧
        ∀ last, ∃ last', Yields (moreNames wanted last (us ++ rest)) more last' rest
  | .one hn => by
    refine ⟨_, [], [], rfl, hn, rfl, fun last => ⟨last, Nat.le_refl _, ?_⟩⟩
    rw [moreNames]
    simp only [nil_append, take?_eq_none hrest]
    rfl
  | @IsNames.more n c _ _ hn hc h => by
    obtain ⟨m, us, more, rfl, hm, rfl, ih⟩ := h.yields wanted rest hrest
    refine ⟨n, c :: m :: us, m.value :: more, rfl, hn, rfl, fun last => ?_⟩
    obtain ⟨last', h⟩ := ih m
    refine ⟨last', ?_⟩
    rw [cons_append, moreNames]
    simp only [cons_append, take?_cons _ hc]
    exact (expectName_gives hm).bind_yields fun _ => h.bind fun _ => ⟨_, rfl⟩

/-! ## Types and declarations -/

lemma primitive?_eq_some_iff {p} : primitive? kind = some p ↔ (kind, p) ∈ primitives := by
  constructor
  · intro h
    unfold primitive? at h
    split at h <;> cases h <;> decide
  · have hall : ∀ q ∈ primitives, primitive? q.1 = some q.2 := by decide
    exact hall (kind, p)

lemma IsDimensions.gives {ts es} (rest : List Token)
    (hrest : ∀ t, rest.head? = some t → t.kind ≠ .mark .lbracket) : IsDimensions ts es → Short ts →
      ∃ o us last, ts = o :: us ∧ o.kind = .mark .lbracket ∧ Gives (parseDimensions (us ++ rest)) es last rest
  | @IsDimensions.one o c xs _ ho h hc, hs => by
    refine ⟨o, xs ++ [c], c, rfl, ho, ?_⟩
    rw [append_assoc, singleton_append, parseDimensions]
    refine gives_bind (h.gives hs.tail.left _ (ends_of hc)) fun _ _ => (expect_gives hc).bind fun _ => ?_
    simp only [take?_eq_none hrest]
    exact ⟨_, rfl⟩
  | @IsDimensions.more o c xs _ _ _ ho h hc hes, hs => by
    obtain ⟨o', ys, last, rfl, ho', hes⟩ := hes.gives rest hrest hs.tail.right.tail
    refine ⟨o, xs ++ c :: o' :: ys, last, rfl, ho, ?_⟩
    rw [append_assoc, cons_append, cons_append, parseDimensions]
    refine gives_bind (h.gives hs.tail.left _ (ends_of hc)) fun _ _ => (expect_gives hc).bind fun _ => ?_
    simp only [take?_cons _ ho']
    exact hes.bind fun _ => ⟨_, rfl⟩

lemma IsNames.head {names} (h : IsNames ts names) : ∃ n us, ts = n :: us ∧ n.kind = .identifier := by
  cases h with
  | one hn | more hn _ _ => exact ⟨_, _, rfl, hn⟩

lemma IsVarDecls.head {decls} (h : IsVarDecls ts decls) : ts = [] ∨ ∃ n us, ts = n :: us ∧ n.kind = .identifier := by
  cases h with
  | nil => exact .inl rfl
  | cons hns _ _ _ _ =>
    obtain ⟨n, us, rfl, hn⟩ := hns.head
    exact .inr ⟨n, _, rfl, hn⟩

/-- What may stand behind declarations: no further name and no semicolon. -/
def EndsDecls (rest : List Token) : Prop :=
  ∀ t, rest.head? = some t → t.kind ≠ .identifier ∧ t.kind ≠ .mark .semicolon

mutual

lemma IsType.gives {ts type} : IsType ts type → Short ts → (rest : List Token) →
      ∃ last, ts.getLast? = some last ∧ Gives (parse (ts ++ rest)) type last rest
  | @IsType.primitive t p hp, _, rest => by
    have hp' := primitive?_eq_some_iff.mpr hp
    refine ⟨t, rfl, Nat.lt_succ_self _, ?_⟩
    show parse (t :: rest) = _
    rw [parse]
    split
    · next hk => simp [hk, primitive?] at hp'
    · next hk => simp [hk, primitive?] at hp'
    · next hk => simp [hk, primitive?] at hp'
    · next hk => simp [hk, primitive?] at hp'
    · simp only [hp']
      rfl
  | @IsType.named t ht, _, rest => by
    refine ⟨t, rfl, Nat.lt_succ_self _, ?_⟩
    show parse (t :: rest) = _
    rw [parse]
    simp only [ht]
    rfl
  | @IsType.enumeration o c _ _ ho hns hc, _, rest => by
    obtain ⟨n, us, more, rfl, hn, rfl, hmore⟩ := hns.yields .enumValue (c :: rest) (by simp [hc])
    obtain ⟨last, hmore⟩ := hmore n
    have hlast : (o :: (n :: us ++ [c])).getLast? = some c := by simp [getLast?_cons]
    refine ⟨c, hlast, ?_⟩
    rw [spanning_of_ends rfl hlast, cons_append, append_assoc, cons_append, parse]
    simp only [ho]
    refine (expectName_gives hn).bind fun _ => hmore.bind_gives fun _ => ?_
    exact (expect_gives hc).bind fun _ => ⟨_, rfl⟩
  | @IsType.array a o _ xs _ _ ha hds ho h, hs, rest => by
    obtain ⟨last, hlastx, h⟩ := h.gives hs.tail.right.tail rest
    obtain ⟨b, us, last₁, rfl, hb, hds⟩ := hds.gives (o :: (xs ++ rest)) (by simp [ho]) hs.tail.left
    have hlast : (a :: (b :: us ++ o :: xs)).getLast? = some last := by simp [getLast?_cons, hlastx]
    refine ⟨last, hlast, ?_⟩
    rw [spanning_of_ends rfl hlast, cons_append, append_assoc, cons_append, parse]
    simp only [ha]
    refine (expect_gives hb).bind fun _ => hds.bind fun _ => ?_
    exact (expect_gives ho).bind fun _ => h.bind fun _ => ⟨_, rfl⟩
  | @IsType.record s b e xs _ hkind hb h he, hs, rest => by
    have hlast : (s :: b :: (xs ++ [e])).getLast? = some e := by simp [getLast?_cons]
    have h := h.yields hs.tail.tail.left (e :: rest) (by simp [EndsDecls, he]) b
    refine ⟨e, hlast, ?_⟩
    rw [spanning_of_ends rfl hlast, cons_append, cons_append, append_assoc, singleton_append, parse]
    simp only [hkind]
    refine (expect_gives hb).bind fun _ => h.bind_gives fun _ => ?_
    exact (expect_gives he).bind fun _ => ⟨_, rfl⟩

lemma IsVarDecls.yields {ts decls} : IsVarDecls ts decls → Short ts →
    (rest : List Token) → EndsDecls rest → (last : Token) →
      Yields (parseFields last (ts ++ rest)) decls (ts.getLast?.getD last) rest
  | .nil, _, rest, hrest, last => by
    refine ⟨Nat.le_refl _, ?_⟩
    show parseFields last rest = _
    rw [parseFields, take?_eq_none fun t ht => (hrest t ht).1]
    rfl
  | @IsVarDecls.cons c _ xs us vs _ _ _ hns hc h hus hvs, hs, rest, hrest, last => by
    obtain ⟨n, ms, more, rfl, hn, rfl, hmore⟩ :=
      hns.yields .variableName (c :: (xs ++ (us ++ (vs ++ rest)))) (by simp [hc])
    obtain ⟨last₁, hmore⟩ := hmore n
    obtain ⟨last₂, hlast₂, h⟩ := h.gives hs.right.tail.left (us ++ (vs ++ rest))
    have hbehind : ∀ t, (vs ++ rest).head? = some t → t.kind ≠ .mark .semicolon := by
      intro t ht
      rcases hvs.head with rfl | ⟨u, vs, rfl, hu⟩
      · exact (hrest t ht).2
      · obtain rfl : u = t := by simpa using ht
        simp [hu]
    obtain ⟨_, hskip⟩ := hus.skip_eq hbehind last₂
    have hlast : (n :: ms ++ c :: (xs ++ us)).getLast? = some (us.getLast?.getD last₂) := by
      simp [getLast?_cons, getLast?_append, hlast₂]
    have hvs := hvs.yields hs.right.tail.right.right rest hrest (us.getLast?.getD last₂)
    have hend : (n :: ms ++ c :: (xs ++ (us ++ vs))).getLast?.getD last =
        vs.getLast?.getD (us.getLast?.getD last₂) := by
      simp [getLast?_cons, getLast?_append, hlast₂]
    rw [spanning_of_ends rfl hlast, hend]
    refine .of_eq (show _ = n :: (ms ++ c :: (xs ++ (us ++ (vs ++ rest)))) by simp) ?_
    rw [parseFields]
    simp only [take?_cons _ hn]
    refine hmore.bind fun _ => (expect_gives hc).bind_yields fun _ => h.bind_yields fun _ => ?_
    rw [hskip]
    exact hvs.bind fun _ => ⟨_, rfl⟩

end

end AlgoLang.Grammar
