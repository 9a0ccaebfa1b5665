/-
# Whatever is read is derived by the grammar

Every item of an agenda stands for a rule of the grammar, or for the end of one (`Item.Derived`), and each
move is a step of a derivation.  So a run that ends with an empty agenda makes a derivation, from its last
move to its first.  An `ELSE` is taken as soon as there is one, so the derivations are of the mode `resolved`.
-/
import AlgoLang.Proofs.Agenda.Program
import AlgoLang.Proofs.Grammar.StmtComplete
import AlgoLang.Proofs.Grammar.TypeExpr

namespace AlgoLang

open Grammar IsStmt

variable {c : Prop} {now : List Item} {i : Item} {m : Move}

/-- The tokens are derived as the item says, if `rest` is left behind them. -/
def Item.Derived (i : Item) (us rest : List Token) : Prop :=
  match i with
  | token _ kind => ∃ t, us = [t] ∧ t.kind = kind
  | optional kind => IsOptional kind us
  | moreNames _ => ∃ names, ∀ n, n.kind = .identifier → IsNames (n :: us) (n.value :: names)
  | level l => ∃ e, IsExpr (tierOf l) us e
  | more l => ∀ xs a, IsExpr (tierOf l) xs a → ∃ e, IsExpr (tierOf l) (xs ++ us) e
  | power => ∃ e, IsExpr .power us e
  | exponent => ∀ xs a, IsExpr .sign xs a → ∃ e, IsExpr .power (xs ++ us) e
  | signed => ∃ e, IsExpr .sign us e
  | primary => ∃ e, IsExpr .primary us e
  | afterName => ∀ n, n.kind = .identifier → ∃ called e, IsAccess called (n :: us) e
  | suffixes => ∀ called xs e, IsAccess called xs e → ∃ e', IsAccess called (xs ++ us) e'
  | exprs => ∃ es, IsExprs us es
  | moreExprs => ∀ xs e, IsExpr .disjunction xs e → ∃ es, IsExprs (xs ++ us) es
  | arguments => ∃ xs c args, us = xs ++ [c] ∧ IsArguments xs args ∧ c.kind = .mark .rparen
  | targets => ∃ es, IsTargets us es
  | moreTargets => ∀ xs e, IsAccess false xs e → ∃ es, IsTargets (xs ++ us) es
  | constant => ∃ e, IsConstant us e
  | number => ∀ m, m.kind = .mark .minus → ∃ e, IsConstant (m :: us) e
  | dimensions => ∀ o, o.kind = .mark .lbracket → ∃ es, IsDimensions (o :: us) es
  | moreDimensions => us = [] ∨ ∃ es, IsDimensions us es
  | type => ∃ type, IsType us type
  | fields => ∃ decls, IsVarDecls us decls
  | stmt => ∃ dangling s, IsStmt .resolved dangling us s ∧ (dangling = true → NoElse rest)
  | afterTarget => ∀ n, n.kind = .identifier → ∃ s, IsStmt .resolved false (n :: us) s
  | branch => ∃ dangling body, IsBlock .resolved dangling us body ∧ (dangling = true → NoElse rest)
  | elsePart =>
    us = [] ∧ NoElse rest ∨ ∃ l zs dangling body, us = l :: zs ∧ l.kind = .keyword .else_ ∧
      IsBlock .resolved dangling zs body ∧ (dangling = true → NoElse rest)
  | stmts => ∃ body, IsStmts .resolved us body
  | cases => ∃ cases, IsCases .resolved us cases
  | defaultPart =>
    us = [] ∨ ∃ d c zs dangling body, us = d :: c :: zs ∧ d.kind = .keyword .default_ ∧
      c.kind = .mark .colon ∧ IsBlock .resolved dangling zs body
  | stepPart => us = [] ∨ ∃ s zs e, us = s :: zs ∧ s.kind = .keyword .step ∧ IsExpr .disjunction zs e
  | constants => ∃ decls, IsConsts us decls
  | types => ∃ decls, IsTypeDecls us decls
  | sections => ∃ decls, IsDecls us decls
  | param => ∃ p, IsParam us p
  | paramList => ∃ ps, IsParamList us ps
  | moreParams => ∀ xs p, IsParam xs p → ∃ ps, IsParamList (xs ++ us) ps
  | params => ∃ xs c ps, us = xs ++ [c] ∧ IsParams xs ps ∧ c.kind = .mark .rparen
  | routines => ∃ functions procedures, IsRoutines .resolved us functions procedures

/-- The items of an agenda are derived from the tokens one after the other. -/
def DerivedEach : List Item → List Token → List Token → Prop
  | [], us, _ => us = []
  | i :: agenda, us, rest => ∃ xs ys, us = xs ++ ys ∧ i.Derived xs (ys ++ rest) ∧ DerivedEach agenda ys rest

lemma derivedEach_append {next agenda : List Item} {us rest : List Token} : DerivedEach (next ++ agenda) us rest ↔
      ∃ xs ys, us = xs ++ ys ∧ DerivedEach next xs (ys ++ rest) ∧ DerivedEach agenda ys rest := by
  induction next generalizing us with
  | nil =>
    constructor
    · exact fun h => ⟨[], us, rfl, rfl, h⟩
    · rintro ⟨_, ys, rfl, rfl, h⟩
      exact h
  | cons i next ih =>
    simp only [List.cons_append, DerivedEach, ih]
    constructor
    · rintro ⟨xs, _, rfl, hi, ys, zs, rfl, hnext, hagenda⟩
      exact ⟨xs ++ ys, zs, by simp, ⟨xs, ys, rfl, by simpa using hi, hnext⟩, hagenda⟩
    · rintro ⟨_, zs, rfl, ⟨xs, ys, rfl, hi, hnext⟩, hagenda⟩
      exact ⟨xs, ys ++ zs, by simp, by simpa using hi, ys, zs, rfl, hnext, hagenda⟩

lemma noElse_of_ahead {rest : List Token} (h : ahead rest ≠ .keyword .else_) : NoElse rest := by
  rintro t ht
  cases rest with
  | nil => cases ht
  | cons u rest =>
    cases ht
    exact h

lemma TokenKind.exists_isLiteral {t : Token} (h : t.kind.isLiteral) : ∃ e, IsLiteral t e := by
  unfold TokenKind.isLiteral at h
  split at h
  · next hk => exact ⟨_, .integer hk⟩
  · next hk => exact ⟨_, .real hk⟩
  · next hk => exact ⟨_, .string hk⟩
  · next hk => exact ⟨_, .char hk⟩
  · next hk => exact ⟨_, .yes hk⟩
  · next hk => exact ⟨_, .no hk⟩
  · cases h

namespace Item

variable {t : Token} {next : List Item} {us rest : List Token}

lemma derived_operand {l : Expr.Level} :
    (operand l).Derived us rest ↔ ∃ e, IsExpr (l.tighter.elim .power tierOf) us e := by
  cases l <;> exact .rfl

/-- Indices join those of an access, and begin one behind anything else. -/
lemma exists_indexed {called : Bool} {o c : Token} {xs ys : List Token} {e : Expr} {es : List Expr}
    (h : IsAccess called xs e) (ho : o.kind = .mark .lbracket) (hes : IsExprs ys es)
    (hc : c.kind = .mark .rbracket) : ∃ e', IsAccess called (xs ++ o :: (ys ++ [c])) e' := by
  by_cases hindex : ∃ s a js, e = .index s a js
  · obtain ⟨s, a, js, rfl⟩ := hindex
    exact ⟨_, .further h ho hes hc⟩
  · exact ⟨_, .index h (fun s a js heq => hindex ⟨s, a, js, heq⟩) ho hes hc⟩

/-! ## Moves that take a token -/

lemma derived_stmtMove (hm : stmtMove t.kind = .take next) (h : DerivedEach next us rest) :
    stmt.Derived (t :: us) rest := by
  unfold stmtMove at hm
  split at hm <;> cases hm
  · next hk =>
    obtain ⟨_, _, rfl, ⟨o, rfl, ho⟩, xs, _, rfl, ⟨e, he⟩, _, _, rfl, ⟨c, rfl, hc⟩, _, _, rfl, ⟨t, rfl, ht⟩,
      ys, _, rfl, ⟨inner, yes, hyes, hinner⟩, zs, _, rfl, helse, rfl⟩ := h
    rcases helse with ⟨rfl, hnone⟩ | ⟨l, zs, dangling, no, rfl, hl, hno, hrest⟩
    · exact ⟨true, _, by simpa using ifThen hk ho he hc ht hyes, fun _ => hnone⟩
    · have hclosed : inner = false := by
        cases inner with
        | false => rfl
        | true => exact absurd hl (hinner rfl l rfl)
      exact ⟨dangling, _, by simpa using ifElse hk ho he hc ht hyes (fun _ => hclosed) hl hno, hrest⟩
  · next hk =>
    obtain ⟨_, _, rfl, ⟨o, rfl, ho⟩, xs, _, rfl, ⟨e, he⟩, _, _, rfl, ⟨c, rfl, hc⟩, _, _, rfl, ⟨d, rfl, hd⟩,
      ys, _, rfl, ⟨dangling, body, hbody, hrest⟩, rfl⟩ := h
    exact ⟨dangling, _, by simpa using whileDo hk ho he hc hd hbody, hrest⟩
  · next hk =>
    obtain ⟨xs, _, rfl, ⟨inner, body, hbody, -⟩, _, _, rfl, ⟨w, rfl, hw⟩, _, _, rfl, ⟨o, rfl, ho⟩,
      ys, _, rfl, ⟨e, he⟩, _, _, rfl, ⟨c, rfl, hc⟩, rfl⟩ := h
    exact ⟨false, _, doWhile hk hbody hw ho he hc, by simp⟩
  · next hk =>
    obtain ⟨_, _, rfl, ⟨n, rfl, hn⟩, _, _, rfl, ⟨a, rfl, ha⟩, xs, _, rfl, ⟨first, hfirst⟩, _, _, rfl, ⟨t, rfl, ht⟩,
      ys, _, rfl, ⟨last, hlast⟩, _, _, rfl, hstep, _, _, rfl, ⟨d, rfl, hd⟩, zs, _, rfl,
      ⟨dangling, body, hbody, hrest⟩, rfl⟩ := h
    rcases hstep with rfl | ⟨s, ws, step, rfl, hs, hstep⟩
    · exact ⟨dangling, _, by simpa using forDo hk (.plain hn ha hfirst ht hlast hd) hbody, hrest⟩
    · exact ⟨dangling, _, by simpa using forDo hk (.stepped hn ha hfirst ht hlast hs hstep hd) hbody, hrest⟩
  · next hk =>
    obtain ⟨xs, _, rfl, ⟨e, he⟩, _, _, rfl, ⟨b, rfl, hb⟩, ys, _, rfl, ⟨cases, hcases⟩, _, _, rfl, hdefault,
      _, _, rfl, ⟨n, rfl, hn⟩, rfl⟩ := h
    rcases hdefault with rfl | ⟨d, c, zs, inner, body, rfl, hd, hc, hbody⟩
    · exact ⟨false, _, switch hk he hb hcases hn, by simp⟩
    · exact ⟨false, _, by simpa using switchDefault hk he hb hcases hd hc hbody hn, by simp⟩
  · next hk =>
    obtain ⟨xs, _, rfl, ⟨body, hbody⟩, _, _, rfl, ⟨n, rfl, hn⟩, rfl⟩ := h
    exact ⟨false, _, block hk hbody hn, by simp⟩
  · next hk =>
    obtain ⟨_, _, rfl, ⟨o, rfl, ho⟩, xs, _, rfl, ⟨e, he⟩, _, _, rfl, ⟨c, rfl, hc⟩, rfl⟩ := h
    exact ⟨false, _, return_ hk ho he hc, by simp⟩
  · next hk =>
    obtain ⟨_, _, rfl, ⟨o, rfl, ho⟩, xs, _, rfl, ⟨es, hes⟩, _, _, rfl, ⟨c, rfl, hc⟩, rfl⟩ := h
    exact ⟨false, _, scan hk ho hes hc, by simp⟩
  · next hk =>
    obtain ⟨_, _, rfl, ⟨o, rfl, ho⟩, xs, _, rfl, ⟨es, hes⟩, _, _, rfl, ⟨c, rfl, hc⟩, rfl⟩ := h
    exact ⟨false, _, print hk ho hes hc, by simp⟩
  · next hk =>
    obtain ⟨xs, _, rfl, hxs, rfl⟩ := h
    obtain ⟨s, hs⟩ := hxs t hk
    exact ⟨false, s, by simpa using hs, by simp⟩

lemma derived_typeMove (hm : typeMove t.kind = .take next) (h : DerivedEach next us rest) :
    type.Derived (t :: us) rest := by
  unfold typeMove at hm
  split at hm
  · next hk =>
    cases hm
    obtain ⟨_, _, rfl, ⟨o, rfl, ho⟩, ds, _, rfl, hds, _, _, rfl, ⟨f, rfl, hf⟩, ts, _, rfl, ⟨element, helement⟩, rfl⟩ := h
    obtain ⟨es, hes⟩ := hds o ho
    exact ⟨_, by simpa using .array hk hes hf helement⟩
  · next hk =>
    cases hm
    obtain ⟨_, _, rfl, ⟨b, rfl, hb⟩, ts, _, rfl, ⟨fields, hfields⟩, _, _, rfl, ⟨e, rfl, he⟩, rfl⟩ := h
    exact ⟨_, .record hk hb hfields he⟩
  · next hk =>
    cases hm
    obtain ⟨_, _, rfl, ⟨n, rfl, hn⟩, ts, _, rfl, ⟨names, hnames⟩, _, _, rfl, ⟨c, rfl, hc⟩, rfl⟩ := h
    exact ⟨_, .enumeration hk (hnames n hn) hc⟩
  · next hk =>
    cases hm
    obtain rfl := h
    exact ⟨_, .named hk⟩
  · split at hm
    · next hk =>
      cases hm
      obtain rfl := h
      obtain ⟨p, hp⟩ := Option.isSome_iff_exists.mp hk
      exact ⟨_, .primitive (primitive?_eq_some_iff.mp hp)⟩
    · cases hm

lemma derived_sectionsMove (hm : sectionsMove t.kind = .take next) (h : DerivedEach next us rest) :
    sections.Derived (t :: us) rest := by
  unfold sectionsMove at hm
  split at hm <;> cases hm
  · next hk =>
    obtain ⟨xs, _, rfl, ⟨decls, hdecls⟩, ys, _, rfl, ⟨d, hd⟩, rfl⟩ := h
    exact ⟨_, by simpa using .consts hk hdecls hd⟩
  · next hk =>
    obtain ⟨xs, _, rfl, ⟨decls, hdecls⟩, ys, _, rfl, ⟨d, hd⟩, rfl⟩ := h
    exact ⟨_, by simpa using .types hk hdecls hd⟩
  · next hk =>
    obtain ⟨xs, _, rfl, ⟨decls, hdecls⟩, ys, _, rfl, ⟨d, hd⟩, rfl⟩ := h
    exact ⟨_, by simpa using .vars hk hdecls hd⟩

lemma derived_routinesMove (hm : routinesMove t.kind = .take next) (h : DerivedEach next us rest) :
    routines.Derived (t :: us) rest := by
  unfold routinesMove at hm
  split at hm <;> cases hm
  · next hk =>
    obtain ⟨_, _, rfl, ⟨n, rfl, hn⟩, _, _, rfl, ⟨o, rfl, ho⟩, _, _, rfl, ⟨ps, c, params, rfl, hps, hc⟩,
      _, _, rfl, ⟨d, rfl, hd⟩, ts, _, rfl, ⟨result, hresult⟩, xs, _, rfl, ⟨decls, hdecls⟩, _, _, rfl, ⟨b, rfl, hb⟩,
      zs, _, rfl, ⟨body, hbody⟩, _, _, rfl, ⟨e, rfl, he⟩, vs, _, rfl, hvs, ys, _, rfl,
      ⟨functions, procedures, hroutines⟩, rfl⟩ := h
    exact ⟨_, _, by simpa using IsRoutines.function hk hn ho hps hc hd hresult (.mk hdecls hb hbody he hvs) hroutines⟩
  · next hk =>
    obtain ⟨_, _, rfl, ⟨n, rfl, hn⟩, _, _, rfl, ⟨o, rfl, ho⟩, _, _, rfl, ⟨ps, c, params, rfl, hps, hc⟩,
      xs, _, rfl, ⟨decls, hdecls⟩, _, _, rfl, ⟨b, rfl, hb⟩, zs, _, rfl, ⟨body, hbody⟩, _, _, rfl, ⟨e, rfl, he⟩,
      vs, _, rfl, hvs, ys, _, rfl, ⟨functions, procedures, hroutines⟩, rfl⟩ := h
    exact ⟨_, _, by simpa using IsRoutines.procedure hk hn ho hps hc (.mk hdecls hb hbody he hvs) hroutines⟩

lemma take_of_ite [Decidable c]
    (hm : (if c then .take now else m) = .take next) : c ∧ now = next ∨ m = .take next := by
  split at hm
  · next hc => exact .inl ⟨hc, Move.take.inj hm⟩
  · exact .inr hm

lemma of_ite_take [Decidable c]
    (hm : (if c then .take now else m) = .take next) (hne : m ≠ .take next) : c ∧ now = next :=
  (take_of_ite hm).resolve_right hne

/-- If an item takes a token and what it gives way to is derived behind it, then so is the item. -/
lemma derived_take (hm : i.move t.kind = .take next) (h : DerivedEach next us rest) : i.Derived (t :: us) rest := by
  -- most items take tokens of one kind, so that `next` is known
  cases i
  all_goals try first
    | obtain ⟨hk, rfl⟩ := of_ite_take (m := .keep _) hm (by simp)
    | obtain ⟨hk, rfl⟩ := of_ite_take (m := .refuse _) hm (by simp)
  case token | optional =>
    obtain rfl := h
    first | exact ⟨t, rfl, hk⟩ | exact .present hk
  case moreNames =>
    obtain ⟨_, _, rfl, ⟨m, rfl, hm⟩, xs, _, rfl, ⟨names, hnames⟩, rfl⟩ := h
    exact ⟨_, fun n hn => by simpa using .more hn hk (hnames m hm)⟩
  case level | power | exprs | targets | dimensions | param | paramList => cases hm
  case more l =>
    obtain ⟨op, hop⟩ := Option.isSome_iff_exists.mp hk
    obtain ⟨ys, _, rfl, hys, zs, _, rfl, hzs, rfl⟩ := h
    obtain ⟨b, hb⟩ := derived_operand.mp hys
    intro xs a ha
    obtain ⟨e, he⟩ := hzs _ _ (.binary tighter_tierOf (op?_eq_some_iff.mp hop) ha hb)
    exact ⟨e, by simpa using he⟩
  case exponent =>
    obtain ⟨ys, _, rfl, ⟨b, hb⟩, rfl⟩ := h
    exact fun xs a ha => ⟨_, by simpa using .power hk ha hb⟩
  case signed =>
    obtain ⟨op, hop⟩ := Option.isSome_iff_exists.mp hk
    obtain ⟨ys, _, rfl, ⟨e, he⟩, rfl⟩ := h
    exact ⟨_, by simpa using .sign (sign?_eq_some_iff.mp hop) he⟩
  case primary =>
    obtain ⟨hk, rfl⟩ | hm := take_of_ite hm
    · obtain ⟨ys, _, rfl, ⟨e, he⟩, _, _, rfl, ⟨c, rfl, hc⟩, rfl⟩ := h
      exact ⟨_, .paren hk he hc⟩
    obtain ⟨hk, rfl⟩ | hm := take_of_ite hm
    · obtain ⟨ys, _, rfl, hys, rfl⟩ := h
      obtain ⟨called, e, he⟩ := hys t hk
      exact ⟨e, by simpa using .access he⟩
    obtain ⟨hk, rfl⟩ := of_ite_take hm (by simp)
    obtain rfl := h
    obtain ⟨e, he⟩ := TokenKind.exists_isLiteral hk
    exact ⟨e, .literal he⟩
  case afterName =>
    obtain ⟨_, _, rfl, ⟨xs, c, args, rfl, hargs, hc⟩, ys, _, rfl, hys, rfl⟩ := h
    intro n hn
    obtain ⟨e, he⟩ := hys _ _ _ (.call hn hk hargs hc)
    exact ⟨true, e, by simpa using he⟩
  case suffixes =>
    obtain ⟨hk, rfl⟩ | hm := take_of_ite hm
    · obtain ⟨ys, _, rfl, ⟨es, hes⟩, _, _, rfl, ⟨c, rfl, hc⟩, zs, _, rfl, hzs, rfl⟩ := h
      intro called xs e he
      obtain ⟨e₁, he₁⟩ := exists_indexed he hk hes hc
      obtain ⟨e₂, he₂⟩ := hzs _ _ _ he₁
      exact ⟨e₂, by simpa using he₂⟩
    obtain ⟨hk, rfl⟩ := of_ite_take hm (by simp)
    obtain ⟨_, _, rfl, ⟨f, rfl, hf⟩, zs, _, rfl, hzs, rfl⟩ := h
    intro called xs e he
    obtain ⟨e₂, he₂⟩ := hzs _ _ _ (.field he hk hf)
    exact ⟨e₂, by simpa using he₂⟩
  case moreExprs =>
    obtain ⟨ys, _, rfl, ⟨es, hes⟩, rfl⟩ := h
    exact fun xs e he => ⟨_, by simpa using .more he hk hes⟩
  case moreTargets =>
    obtain ⟨ys, _, rfl, ⟨es, hes⟩, rfl⟩ := h
    exact fun xs e he => ⟨_, by simpa using .more he hk hes⟩
  case moreParams =>
    obtain ⟨ys, _, rfl, ⟨ps, hps⟩, rfl⟩ := h
    exact fun xs p hp => ⟨_, by simpa using .more hp hk hps⟩
  case arguments | params =>
    obtain rfl := h
    exact ⟨[], t, [], rfl, .none, hk⟩
  case constant =>
    obtain ⟨hk, rfl⟩ | hm := take_of_ite hm
    · obtain ⟨ys, _, rfl, hys, rfl⟩ := h
      simpa [Derived] using hys t hk
    obtain ⟨hk, rfl⟩ := of_ite_take hm (by simp)
    obtain rfl := h
    obtain ⟨e, he⟩ := TokenKind.exists_isLiteral hk
    exact ⟨e, .literal he⟩
  case number =>
    obtain rfl := h
    intro m hm
    rcases hk with hk | hk
    · exact ⟨_, .negInteger hm (.integer hk)⟩
    · exact ⟨_, .negReal hm (.real hk)⟩
  case moreDimensions =>
    obtain ⟨ys, _, rfl, hys, rfl⟩ := h
    exact .inr (by simpa using hys t hk)
  case type => exact derived_typeMove hm h
  case fields =>
    obtain ⟨xs, _, rfl, ⟨names, hnames⟩, _, _, rfl, ⟨c, rfl, hc⟩, ts, _, rfl, ⟨type, htype⟩, vs, _, rfl, hvs,
      ws, _, rfl, ⟨decls, hdecls⟩, rfl⟩ := h
    exact ⟨_, by simpa using .cons (hnames t hk) hc htype hvs hdecls⟩
  case stmt => exact derived_stmtMove hm h
  case afterTarget =>
    have hnot : ¬(t.kind = .mark .lbracket ∨ t.kind = .mark .dot) := by
      intro hk
      simp [move, hk] at hm
    simp only [move, if_neg hnot] at hm
    obtain ⟨hk, rfl⟩ | hm := take_of_ite hm
    · obtain ⟨ys, _, rfl, ⟨e, he⟩, rfl⟩ := h
      exact fun n hn => ⟨_, by simpa using assign (.name hn) hk he⟩
    obtain ⟨hk, rfl⟩ := of_ite_take hm (by simp)
    obtain ⟨_, _, rfl, ⟨xs, c, args, rfl, hargs, hc⟩, rfl⟩ := h
    exact fun n hn => ⟨_, by simpa using callWith hn hk hargs hc⟩
  case branch =>
    obtain ⟨xs, _, rfl, ⟨body, hbody⟩, _, _, rfl, ⟨n, rfl, hn⟩, rfl⟩ := h
    exact ⟨false, _, .list hk hbody hn, by simp⟩
  case elsePart =>
    obtain ⟨xs, _, rfl, ⟨dangling, body, hbody, hrest⟩, rfl⟩ := h
    exact .inr ⟨t, xs, dangling, body, by simp, hk, hbody, hrest⟩
  case stmts =>
    simp only [move] at hm
    split at hm
    · cases hm
    obtain ⟨hk, rfl⟩ := of_ite_take hm (by simp)
    obtain ⟨xs, _, rfl, ⟨body, hbody⟩, rfl⟩ := h
    exact ⟨_, by simpa using .semicolon hk hbody⟩
  case cases =>
    obtain ⟨xs, _, rfl, ⟨es, hes⟩, _, _, rfl, ⟨c, rfl, hc⟩, ys, _, rfl, ⟨dangling, body, hbody, -⟩,
      zs, _, rfl, ⟨cases, hcases⟩, rfl⟩ := h
    exact ⟨_, by simpa using .cons hk hes hc hbody hcases⟩
  case defaultPart =>
    obtain ⟨_, _, rfl, ⟨c, rfl, hc⟩, ys, _, rfl, ⟨dangling, body, hbody, -⟩, rfl⟩ := h
    exact .inr ⟨t, c, ys, dangling, body, by simp, hk, hc, hbody⟩
  case stepPart =>
    obtain ⟨ys, _, rfl, ⟨e, he⟩, rfl⟩ := h
    exact .inr ⟨t, ys, e, by simp, hk, he⟩
  case constants =>
    obtain ⟨_, _, rfl, ⟨q, rfl, hq⟩, xs, _, rfl, ⟨e, he⟩, vs, _, rfl, hvs, ws, _, rfl, ⟨decls, hdecls⟩, rfl⟩ := h
    exact ⟨_, by simpa using .cons hk hq he hvs hdecls⟩
  case types =>
    obtain ⟨_, _, rfl, ⟨q, rfl, hq⟩, xs, _, rfl, ⟨e, he⟩, vs, _, rfl, hvs, ws, _, rfl, ⟨decls, hdecls⟩, rfl⟩ := h
    exact ⟨_, by simpa using .cons hk hq he hvs hdecls⟩
  case sections => exact derived_sectionsMove hm h
  case routines => exact derived_routinesMove hm h

/-! ## Moves that leave the token -/

lemma of_take_ite [Decidable c] {behind : List Item}
    (hm : (if c then .take now else .keep behind) = Move.keep next) : ¬c ∧ behind = next := by
  split at hm
  · cases hm
  · next hc => exact ⟨hc, Move.keep.inj hm⟩

/-- If what an item gives way to is derived, then so is the item. -/
lemma derived_keep (hm : i.move (ahead (us ++ rest)) = .keep next)
    (h : DerivedEach next us rest) : i.Derived us rest := by
  cases i
  all_goals try obtain ⟨hk, rfl⟩ := of_take_ite hm
  case token | number =>
    simp only [move] at hm
    split at hm <;> cases hm
  case primary | constant =>
    simp only [move] at hm
    repeat' split at hm
    all_goals cases hm
  case stmt =>
    simp only [move, stmtMove] at hm
    split at hm <;> cases hm
  case type =>
    simp only [move, typeMove] at hm
    repeat' split at hm
    all_goals cases hm
  case optional =>
    obtain rfl := h
    exact .absent
  case moreNames =>
    obtain rfl := h
    exact ⟨[], fun n hn => .one hn⟩
  case level l =>
    cases hm
    obtain ⟨xs, _, rfl, hxs, ys, _, rfl, hys, rfl⟩ := h
    obtain ⟨a, ha⟩ := derived_operand.mp hxs
    simpa [Derived] using hys xs a (.tighten tighter_tierOf ha)
  case power | exprs | paramList =>
    cases hm
    obtain ⟨xs, _, rfl, ⟨a, ha⟩, ys, _, rfl, hys, rfl⟩ := h
    simpa [Derived] using hys xs a ha
  case more | exponent | moreExprs | moreTargets | moreParams =>
    obtain rfl := h
    simp only [Derived, List.append_nil]
    first
    | exact fun _ a ha => ⟨a, ha⟩
    | exact fun _ a ha => ⟨a, .tighten rfl ha⟩
    | exact fun _ a ha => ⟨[a], .one ha⟩
  case suffixes =>
    simp only [move] at hm
    split at hm
    · cases hm
    obtain ⟨-, rfl⟩ := of_take_ite hm
    obtain rfl := h
    simp only [Derived, List.append_nil]
    exact fun _ _ e he => ⟨e, he⟩
  case signed =>
    obtain ⟨xs, _, rfl, ⟨e, he⟩, rfl⟩ := h
    exact ⟨e, by simpa using IsExpr.tighten rfl he⟩
  case afterName =>
    obtain ⟨xs, _, rfl, hxs, rfl⟩ := h
    intro n hn
    obtain ⟨e, he⟩ := hxs _ _ _ (.name hn)
    exact ⟨false, e, by simpa using he⟩
  case arguments | params =>
    obtain ⟨xs, _, rfl, ⟨es, hes⟩, _, _, rfl, ⟨c, rfl, hc⟩, rfl⟩ := h
    exact ⟨xs, c, es, by simp, .some hes, hc⟩
  case targets =>
    cases hm
    obtain ⟨_, _, rfl, ⟨n, rfl, hn⟩, xs, _, rfl, hxs, ys, _, rfl, hys, rfl⟩ := h
    obtain ⟨e, he⟩ := hxs _ _ _ (.name hn)
    simpa [Derived] using hys _ e he
  case dimensions =>
    cases hm
    obtain ⟨xs, _, rfl, ⟨e, he⟩, _, _, rfl, ⟨c, rfl, hc⟩, ys, _, rfl, hys, rfl⟩ := h
    intro o ho
    rcases hys with rfl | ⟨es, hes⟩
    · exact ⟨_, .one ho he hc⟩
    · exact ⟨_, by simpa using IsDimensions.more ho he hc hes⟩
  case moreDimensions | defaultPart | stepPart =>
    exact .inl h
  case afterTarget =>
    simp only [move] at hm
    split at hm
    · cases hm
      obtain ⟨xs, _, rfl, hxs, _, _, rfl, ⟨a, rfl, ha⟩, ys, _, rfl, ⟨e, he⟩, rfl⟩ := h
      intro n hn
      obtain ⟨target, htarget⟩ := hxs _ _ _ (.name hn)
      exact ⟨_, by simpa using assign htarget ha he⟩
    · split at hm
      · cases hm
      · obtain ⟨-, rfl⟩ := of_take_ite hm
        obtain rfl := h
        exact fun n hn => ⟨_, .call hn⟩
  case branch =>
    obtain ⟨xs, _, rfl, ⟨dangling, s, hs, hrest⟩, rfl⟩ := h
    have hsingle : ∀ span body, s ≠ .block span body := by
      rintro span body rfl
      cases hs with
      | block hb => exact hk hb
    exact ⟨dangling, [s], by simpa using IsBlock.single hs fun _ => hsingle, hrest⟩
  case elsePart =>
    obtain rfl := h
    exact .inl ⟨rfl, noElse_of_ahead hk⟩
  case stmts =>
    simp only [move] at hm
    split at hm
    · cases hm
      obtain rfl := h
      exact ⟨[], .nil⟩
    · obtain ⟨-, rfl⟩ := of_take_ite hm
      obtain ⟨xs, _, rfl, ⟨dangling, s, hs, -⟩, ys, _, rfl, ⟨body, hbody⟩, rfl⟩ := h
      exact ⟨_, by simpa using IsStmts.cons hs hbody⟩
  case fields | cases | constants | types =>
    obtain rfl := h
    exact ⟨_, .nil⟩
  case sections =>
    simp only [move, sectionsMove] at hm
    split at hm <;> cases hm
    obtain rfl := h
    exact ⟨_, .nil⟩
  case routines =>
    simp only [move, routinesMove] at hm
    split at hm <;> cases hm
    obtain rfl := h
    exact ⟨_, _, .nil⟩
  case param =>
    cases hm
    obtain ⟨_, _, rfl, hvar, _, _, rfl, ⟨n, rfl, hn⟩, _, _, rfl, ⟨c, rfl, hc⟩, xs, _, rfl, ⟨type, htype⟩, rfl⟩ := h
    cases hvar with
    | absent => exact ⟨_, by simpa using .byValue hn hc htype⟩
    | present hv => exact ⟨_, by simpa using .byReference hv hn hc htype⟩

end Item

lemma Runs.derivedEach {c : Stage} {rest : List Token} (h : Runs c ([], rest)) :
    ∃ us, c.2 = us ++ rest ∧ DerivedEach c.1 us rest := by
  induction h using Relation.ReflTransGen.head_induction_on with
  | refl => exact ⟨[], rfl, rfl⟩
  | head hstep _ ih =>
    obtain ⟨us, heq, hus⟩ := ih
    cases hstep with
    | take hm he =>
      obtain ⟨xs, ys, rfl, hnext, hagenda⟩ := derivedEach_append.mp hus
      exact ⟨_ :: xs ++ ys, by simpa using heq, _ :: xs, ys, rfl, Item.derived_take hm hnext, hagenda⟩
    | keep hm =>
      obtain ⟨xs, ys, rfl, hnext, hagenda⟩ := derivedEach_append.mp hus
      dsimp only at heq
      rw [heq, List.append_assoc] at hm
      exact ⟨xs ++ ys, heq, xs, ys, rfl, Item.derived_keep hm hnext, hagenda⟩

lemma Runs.exists_isProgram {toks rest : List Token} (h : Runs (programAgenda, toks) ([], rest)) :
    ∃ ts p, toks = ts ++ rest ∧ IsProgram .resolved ts p := by
  obtain ⟨us, heq, _, _, rfl, ⟨a, rfl, ha⟩, _, _, rfl, ⟨n, rfl, hn⟩, xs, _, rfl, ⟨decls, hdecls⟩, ys, _, rfl,
    ⟨functions, procedures, hroutines⟩, _, _, rfl, ⟨b, rfl, hb⟩, zs, _, rfl, ⟨body, hbody⟩, _, _, rfl, ⟨e, rfl, he⟩,
    _, _, rfl, ⟨d, rfl, hd⟩, rfl⟩ := h.derivedEach
  exact ⟨_, _, heq, .mk ha hn hdecls hroutines hb hbody he hd⟩

end AlgoLang
