/-
# Statements and programs are read by the agenda

Every reader of statements, declarations and routines does what the machine does with the item of the
same name, and so `Program.parse` does what it does with `programAgenda` (`parse_follows`).
-/
import AlgoLang.Proofs.Agenda.Expr

namespace AlgoLang

open Item Expr Reading Taken

variable {toks : List Token}

/-! ## Statements -/

namespace Stmt

lemma parseCondition_follows (wanted : Wanted) (toks : List Token) :
    Follows rest (condition wanted) toks (parseCondition wanted toks) := by
  refine mark_reads.andThen ?_
  intro _ _ us hu
  refine (Expr.parse_follows us).andThen ?_
  intro c _ vs hv
  exact .wrapped mark_reads

lemma parseForHeading_follows (toks : List Token) :
    Follows rest [.token .loopVariable .identifier, .token .assignAfterVariable (.mark .assign),
      .expr, .token .to_ (.keyword .to_), .expr, .stepPart, .token .do_ (.keyword .do_)] toks
      (parseForHeading toks) := by
  refine expectName_reads.andThen ?_
  intro counter _ us hu
  refine mark_reads.andThen ?_
  intro _ _ vs hv
  refine (Expr.parse_follows vs).andThen ?_
  intro first _ ws hw
  refine keyword_reads.andThen ?_
  intro _ _ xs hx
  refine (Expr.parse_follows xs).andThen ?_
  intro bound _ ys hy
  dsimp only
  split
  · next htake =>
    refine .missed htake ?_ rfl rfl
    exact .wrapped keyword_reads
  · next zs hz htake =>
    refine .found htake ?_ rfl rfl
    refine (Expr.parse_follows zs).andThen ?_
    intro step _ as ha
    exact .wrapped keyword_reads

lemma parseReturn_follows (start : Token) (toks : List Token) :
    Follows rest [.token .parenAfterReturn (.mark .lparen), .expr,
      .token .parenAfterResult (.mark .rparen)] toks (parseReturn start toks) := by
  refine mark_reads.andThen ?_
  intro _ _ us hu
  refine (Expr.parse_follows us).andThen ?_
  intro e _ vs hv
  exact .wrapped mark_reads

lemma parseScan_follows (start : Token) (toks : List Token) :
    Follows rest [.token .parenAfterScan (.mark .lparen), .targets,
      .token .parenAfterTargets (.mark .rparen)] toks (parseScan start toks) := by
  refine mark_reads.andThen ?_
  intro _ _ us hu
  refine (parseTargets_follows us).andThen ?_
  intro ts _ vs hv
  exact .wrapped mark_reads

lemma parsePrint_follows (start : Token) (toks : List Token) :
    Follows rest [.token .parenAfterPrint (.mark .lparen), .exprs,
      .token .parenAfterValues (.mark .rparen)] toks (parsePrint start toks) := by
  refine mark_reads.andThen ?_
  intro _ _ us hu
  refine (parseList_follows us).andThen ?_
  intro es _ vs hv
  exact .wrapped mark_reads

lemma exists_of_bind_eq_ok {α β : Type} {x : Except ParseFault α} {f : α → Except ParseFault β}
    {b : β} (h : x >>= f = .ok b) : ∃ a, x = .ok a ∧ f a = .ok b := by
  cases x with
  | error _ => cases h
  | ok a => exact ⟨a, rfl, h⟩

lemma parseSuffixes_ne_name (start : Token) {e : Expr} :
      (last : Token) → (toks : List Token) → (r : Held Expr toks) → parseSuffixes e start last toks = .ok r → (∀ span n,
      e ≠ .name span n) ∨ ahead toks = .mark .lbracket ∨ ahead toks = .mark .dot → ∀ span n, r.value ≠ .name span n
  | last, [], r, h, he => by
    rw [parseSuffixes] at h
    cases h
    rcases he with he | he | he
    · exact he
    · cases he
    · cases he
  | last, t :: rest, r, h, he => by
    rw [parseSuffixes] at h
    split at h
    · obtain ⟨⟨indices, _, us, hu⟩, -, h⟩ := exists_of_bind_eq_ok h
      obtain ⟨⟨_, last₂, vs, hv⟩, -, h⟩ := exists_of_bind_eq_ok h
      obtain ⟨⟨e', last₃, ws, hw⟩, hnext, h⟩ := exists_of_bind_eq_ok h
      cases h
      refine parseSuffixes_ne_name start last₂ vs _ hnext (.inl ?_)
      intro span n
      unfold withIndices
      split <;> simp
    · obtain ⟨⟨f, last₁, us, hu⟩, -, h⟩ := exists_of_bind_eq_ok h
      obtain ⟨⟨e', last₂, vs, hv⟩, hnext, h⟩ := exists_of_bind_eq_ok h
      cases h
      refine parseSuffixes_ne_name start last₁ us _ hnext (.inl ?_)
      simp
    · next hbracket hdot =>
      cases h
      rcases he with he | he | he
      · exact he
      · exact absurd he hbracket
      · exact absurd he hdot
termination_by _ toks => toks.length

lemma parseSuffixes_stay {e : Expr} {start last : Token} (hbracket : ahead toks ≠ .mark .lbracket)
    (hdot : ahead toks ≠ .mark .dot) : parseSuffixes e start last toks = .ok (.stay e last toks) := by
  cases toks with
  | nil => rw [parseSuffixes]
  | cons t rest =>
    rw [parseSuffixes]
    split
    · next hk => exact absurd hk hbracket
    · next hk => exact absurd hk hdot
    · rfl

/-- Behind the name that a statement starts with.  If it has an index or a field, only an assignment can
follow. -/
lemma parseNamed_follows {t : Token} (ht : t.kind = .identifier) (rest : List Token) :
    Follows Taken.rest [.afterTarget] rest (parseNamed t (t :: rest)) := by
  have htarget : parseTarget (t :: rest) = (do
      let r ← parseSuffixes (.name t.span t.value) t t rest
      return (Held.mk r.value r.last r.rest r.notLonger).since (by simp)) := by
    rw [parseTarget, expect_cons _ _ ht]
    rfl
  rw [parseNamed, htarget]
  simp only [bind_assoc, pure_bind]
  by_cases haccess : ahead rest = .mark .lbracket ∨ ahead rest = .mark .dot
  · refine .keep (if_pos haccess) ?_
    refine (parseSuffixes_follows (.name t.span t.value) t t rest).bind ?_
    rintro ⟨target, last, us, hu⟩ heq
    have htarget := parseSuffixes_ne_name t t rest _ heq (.inr haccess)
    dsimp only [Held.since]
    split
    · next vs hv htake =>
      refine .found htake ?_ rfl rfl
      exact .wrapped (Expr.parse_follows vs)
    · next htake =>
      split
      · exact absurd rfl (htarget _ _)
      · exact .refuse (if_neg (ahead_ne_of_take? htake (by simp)))
  · rw [not_or] at haccess
    rw [parseSuffixes_stay haccess.1 haccess.2]
    dsimp only [bind, Except.bind, Held.stay, Held.since]
    split
    · next vs hv htake =>
      refine .found htake ?_ rfl rfl
      exact .wrapped (Expr.parse_follows vs)
    · next hassign =>
      split
      · next vs hv htake =>
        refine .found htake ?_ rfl rfl
        exact .wrapped (parseArguments_follows vs)
      · next htake =>
        refine .pass ?_ (.done rfl)
        rw [move, if_neg (not_or.mpr haccess), if_neg (ahead_ne_of_take? hassign (by simp)),
          if_neg (ahead_ne_of_take? htake (by simp))]

mutual

lemma parse_follows : (toks : List Token) → Follows rest [.stmt] toks (parse toks)
  | [] => by
    rw [parse]
    exact .refuse rfl
  | t :: rest => by
    rw [parse]
    split
    · next hk =>
      refine .taken hk ?_ rfl rfl
      refine (parseCondition_follows .parenAfterIf rest).andThen ?_
      intro c _ us hu
      refine keyword_reads.andThen ?_
      intro _ _ vs hv
      refine (parseBranch_follows vs).andThen ?_
      intro yes last ws hw
      dsimp only
      split
      · next htake => exact .missed htake (.done rfl) rfl rfl
      · next xs hx htake =>
        refine .found htake ?_ rfl rfl
        exact .wrapped (parseBranch_follows xs)
    · next hk =>
      refine .taken hk ?_ rfl rfl
      refine (parseCondition_follows .parenAfterWhile rest).andThen ?_
      intro c _ us hu
      refine keyword_reads.andThen ?_
      intro _ _ vs hv
      exact .wrapped (parseBranch_follows vs)
    · next hk =>
      refine .taken hk ?_ rfl rfl
      refine (parseBranch_follows rest).andThen ?_
      intro body _ us hu
      refine keyword_reads.andThen ?_
      intro _ _ vs hv
      exact .wrapped (parseCondition_follows .parenAfterWhile vs)
    · next hk =>
      refine .taken hk ?_ rfl rfl
      refine (parseForHeading_follows rest).andThen ?_
      intro heading _ us hu
      exact .wrapped (parseBranch_follows us)
    · next hk =>
      refine .taken hk ?_ rfl rfl
      refine (Expr.parse_follows rest).andThen ?_
      intro e _ us hu
      refine keyword_reads.andThen ?_
      intro _ start vs hv
      refine (parseCases_follows start vs).andNext ?_
      intro cases _ ws hw
      dsimp only
      split
      · next htake =>
        refine .missed htake ?_ rfl rfl
        exact .wrapped keyword_reads
      · next xs hx htake =>
        refine .found htake ?_ rfl rfl
        refine mark_reads.andThen ?_
        intro _ _ ys hy
        refine (parseBranch_follows ys).andThen ?_
        intro body _ zs hz
        exact .wrapped keyword_reads
    · next hk =>
      refine .taken hk ?_ rfl rfl
      refine (parseEach_follows t rest).andNext ?_
      intro body _ us hu
      exact .wrapped keyword_reads
    · next hk =>
      refine .taken hk ?_ rfl rfl
      exact .wrapped (parseReturn_follows t rest)
    · next hk =>
      refine .taken hk ?_ rfl rfl
      exact .wrapped (parseScan_follows t rest)
    · next hk =>
      refine .taken hk ?_ rfl rfl
      exact .wrapped (parsePrint_follows t rest)
    · next hk => exact .taken hk (parseNamed_follows hk rest) rfl rfl
    · refine .refuse ?_
      rw [ahead_cons, move, stmtMove.eq_11] <;> assumption
termination_by toks => (toks.length, 0)

lemma parseBranch_follows (toks : List Token) : Follows rest [.branch] toks (parseBranch toks) := by
  rw [parseBranch]
  split
  · next t _ us hu htake =>
    refine .found htake ?_ rfl rfl
    refine (parseEach_follows t us).andNext ?_
    intro body _ vs hv
    exact .wrapped keyword_reads
  · next htake =>
    refine .keep (if_neg (ahead_ne_of_take? htake (by simp))) ?_
    exact .wrapped (parse_follows toks)
termination_by (toks.length, 1)

lemma parseEach_follows (last : Token) : (toks : List Token) → Follows Held.rest [.stmts] toks (parseEach last toks)
  | [] => by
    rw [parseEach]
    exact .pass rfl (.done rfl)
  | t :: rest => by
    rw [parseEach]
    split
    · next hend => exact .pass (if_pos hend) (.done rfl)
    · next hend =>
      split
      · next hsemi =>
        have hk : t.kind = .mark .semicolon := by simpa using hsemi
        refine .take ((if_neg hend).trans (if_pos hk)) (by simp [hk]) ?_
        exact .wrapped (parseEach_follows t rest)
      · next hsemi =>
        have hk : t.kind ≠ .mark .semicolon := by simpa using hsemi
        refine .keep ((if_neg hend).trans (if_neg hk)) ?_
        refine (parse_follows (t :: rest)).andThen ?_
        intro s last us hu
        exact .wrapped (parseEach_follows last us)
termination_by toks => (toks.length, 1)

lemma parseCases_follows (last : Token) (toks : List Token) :
    Follows Held.rest [.cases] toks (parseCases last toks) := by
  rw [parseCases]
  split
  · next htake => exact .missed htake (.done rfl) rfl rfl
  · next start _ us hu htake =>
    refine .found htake ?_ rfl rfl
    refine (parseList_follows us).andThen ?_
    intro values _ vs hv
    refine mark_reads.andThen ?_
    intro _ _ ws hw
    refine (parseBranch_follows ws).andThen ?_
    intro body last xs hx
    exact .wrapped (parseCases_follows last xs)
termination_by (toks.length, 1)

end

end Stmt

/-! ## Declarations and routines -/

namespace Declarations

lemma parseConstants_follows (last : Token) (toks : List Token) :
    Follows Held.rest [.constants] toks (parseConstants last toks) := by
  rw [parseConstants]
  split
  · next htake => exact .missed htake (.done rfl) rfl rfl
  · next first _ us hu htake =>
    refine .found htake ?_ rfl rfl
    refine mark_reads.andThen ?_
    intro _ _ vs hv
    refine (parseConstant_follows vs).andThen ?_
    intro value last₃ ws hw
    refine skip_follows last₃ ?_ rfl rfl
    dsimp only
    obtain ⟨_, _, xs, hx⟩ := skip (.mark .semicolon) last₃ ws
    exact .wrapped (parseConstants_follows _ xs)
termination_by toks.length

lemma parseTypes_follows (last : Token) (toks : List Token) :
    Follows Held.rest [.types] toks (parseTypes last toks) := by
  rw [parseTypes]
  split
  · next htake => exact .missed htake (.done rfl) rfl rfl
  · next first _ us hu htake =>
    refine .found htake ?_ rfl rfl
    refine mark_reads.andThen ?_
    intro _ _ vs hv
    refine (TypeExpr.parse_follows vs).andThen ?_
    intro definition last₃ ws hw
    refine skip_follows last₃ ?_ rfl rfl
    dsimp only
    obtain ⟨_, _, xs, hx⟩ := skip (.mark .semicolon) last₃ ws
    exact .wrapped (parseTypes_follows _ xs)
termination_by toks.length

lemma parse_follows (soFar : Declarations) (last : Token) :
    (toks : List Token) → Follows Held.rest [.sections] toks (parse soFar last toks)
  | [] => by
    rw [parse]
    exact .pass rfl (.done rfl)
  | t :: rest => by
    rw [parse]
    split
    · next hk =>
      refine .taken hk ?_ rfl rfl
      refine (parseConstants_follows t rest).andNext ?_
      intro decls last us hu
      exact .wrapped (parse_follows _ last us)
    · next hk =>
      refine .taken hk ?_ rfl rfl
      refine (parseTypes_follows t rest).andNext ?_
      intro decls last us hu
      exact .wrapped (parse_follows _ last us)
    · next hk =>
      refine .taken hk ?_ rfl rfl
      refine (TypeExpr.parseFields_follows t rest).andNext ?_
      intro decls last us hu
      exact .wrapped (parse_follows _ last us)
    · refine .pass ?_ (.done rfl)
      rw [ahead_cons, move, sectionsMove.eq_4] <;> assumption
termination_by toks => toks.length

end Declarations

namespace Routine

lemma parseParam_follows : (toks : List Token) → Follows rest [.param] toks (parseParam toks)
  | [] => by
    rw [parseParam]
    exact .keep rfl (.pass rfl (.refuse rfl))
  | t :: rest => by
    rw [parseParam]
    refine .keep rfl (skip_follows t ?_ rfl rfl)
    refine expectName_reads.andThen ?_
    intro name _ vs hv
    refine mark_reads.andThen ?_
    intro _ _ ws hw
    exact .wrapped (TypeExpr.parse_follows ws)

lemma parseParamList_follows (toks : List Token) : Follows rest [.paramList] toks (parseParamList toks) := by
  refine .keep rfl ?_
  rw [parseParamList]
  refine (parseParam_follows toks).andThen ?_
  intro p last us hu
  dsimp only
  split
  · next htake => exact .missed htake (.done rfl) rfl rfl
  · next vs hv htake =>
    refine .found htake ?_ rfl rfl
    exact .wrapped (parseParamList_follows vs)
termination_by toks.length

lemma parseParams_follows (toks : List Token) : Follows rest [.params] toks (parseParams toks) := by
  unfold parseParams
  split
  · next htake => exact .found htake (.done rfl) rfl rfl
  · next htake =>
    refine .keep (if_neg (ahead_ne_of_take? htake (by simp))) ?_
    refine (parseParamList_follows toks).andThen ?_
    intro ps _ us hu
    exact .wrapped mark_reads

lemma parseBody_follows (last : Token) (toks : List Token) : Follows rest Item.body toks (parseBody last toks) := by
  refine (Declarations.parse_follows {} last toks).andNext ?_
  intro decls _ us hu
  refine keyword_reads.andThen ?_
  intro start _ vs hv
  refine (Stmt.parseEach_follows start vs).andNext ?_
  intro body _ ws hw
  refine keyword_reads.andThen ?_
  intro _ last₄ xs hx
  refine skip_follows last₄ ?_ rfl rfl
  exact .done rfl

lemma parseFunction_follows (start : Token) (toks : List Token) :
    Follows rest ([.token .functionName .identifier, .token .parenAfterFunction (.mark .lparen),
      .params, .token .colonBeforeResult (.mark .colon), .type] ++ Item.body) toks
      (parseFunction start toks) := by
  refine expectName_reads.andThen ?_
  intro name _ us hu
  refine mark_reads.andThen ?_
  intro _ _ vs hv
  refine (parseParams_follows vs).andThen ?_
  intro params _ ws hw
  refine mark_reads.andThen ?_
  intro _ _ xs hx
  refine (TypeExpr.parse_follows xs).andThen ?_
  intro result last ys hy
  exact .wrapped (parseBody_follows last ys)

lemma parseProcedure_follows (start : Token) (toks : List Token) :
    Follows rest ([.token .procedureName .identifier, .token .parenAfterProcedure (.mark .lparen),
      .params] ++ Item.body) toks (parseProcedure start toks) := by
  refine expectName_reads.andThen ?_
  intro name _ us hu
  refine mark_reads.andThen ?_
  intro _ _ vs hv
  refine (parseParams_follows vs).andThen ?_
  intro params last ws hw
  exact .wrapped (parseBody_follows last ws)

lemma parseEach_follows (last : Token) :
    (toks : List Token) → Follows Held.rest [.routines] toks (parseEach last toks)
  | [] => by
    rw [parseEach]
    exact .pass rfl (.done rfl)
  | t :: rest => by
    rw [parseEach]
    split
    · next hk =>
      refine .taken hk ?_ rfl rfl
      refine (parseFunction_follows t rest).andThen ?_
      intro f last us hu
      exact .wrapped (parseEach_follows last us)
    · next hk =>
      refine .taken hk ?_ rfl rfl
      refine (parseProcedure_follows t rest).andThen ?_
      intro p last us hu
      exact .wrapped (parseEach_follows last us)
    · refine .pass ?_ (.done rfl)
      rw [ahead_cons, move, routinesMove.eq_3] <;> assumption
termination_by toks => toks.length

end Routine

/-! ## Programs -/

namespace Program

lemma parse_follows (toks : List Token) : Follows rest programAgenda toks (parse toks) := by
  refine keyword_reads.andThen ?_
  intro _ start us hu
  refine expectName_reads.andThen ?_
  intro name last vs hv
  refine (Declarations.parse_follows {} last vs).andNext ?_
  intro globals last ws hw
  refine (Routine.parseEach_follows last ws).andNext ?_
  intro routines _ xs hx
  refine keyword_reads.andThen ?_
  intro opening _ ys hy
  refine (Stmt.parseEach_follows opening ys).andNext ?_
  intro body _ zs hz
  refine keyword_reads.andThen ?_
  intro _ _ as ha
  exact .wrapped mark_reads

lemma parse_of_runs {rest : List Token} (h : Runs (programAgenda, toks) ([], rest)) :
    ∃ taken, parse toks = .ok taken ∧ taken.rest = rest := by
  have hfollows := parse_follows toks
  cases hparse : parse toks with
  | ok taken =>
    rw [hparse] at hfollows
    have heq := Runs.end_unique hfollows h (fun _ => not_step_nil) (fun _ => not_step_nil)
    exact ⟨taken, rfl, congrArg Prod.snd heq⟩
  | error f =>
    rw [hparse] at hfollows
    obtain ⟨c, hc, hstop⟩ := hfollows
    have heq := Runs.end_unique hc h (fun _ => hstop.not_step) (fun _ => not_step_nil)
    subst heq
    cases hstop

lemma parse_of_stops {c : Stage} {f : ParseFault}
    (h : Runs (programAgenda, toks) c) (hstop : Stops c f) : parse toks = .error f := by
  have hfollows := parse_follows toks
  cases hparse : parse toks with
  | ok taken =>
    rw [hparse] at hfollows
    have heq := Runs.end_unique hfollows h (fun _ => not_step_nil) (fun _ => hstop.not_step)
    subst heq
    cases hstop
  | error f' =>
    rw [hparse] at hfollows
    obtain ⟨c', hc', hstop'⟩ := hfollows
    have heq := Runs.end_unique hc' h (fun _ => hstop'.not_step) (fun _ => hstop.not_step)
    subst heq
    rw [hstop'.unique hstop]

end Program

end AlgoLang
