/-
# Statements that are derived are read

No token that the grammar allows behind a statement carries its last expression on.  The one that carries
statements on is `ELSE`, and it may follow only those that are not `dangling`.
-/
import AlgoLang.Proofs.Grammar.ExprComplete
import AlgoLang.Stmt.Parse

namespace AlgoLang.Grammar

open Stmt Reading List

variable {m : Mode} {ts : List Token} {n t : Token} {body : List Stmt} {dangling : Bool} {s : Stmt}
variable {rest toks : List Token}

/-! ## First tokens and tokens behind -/

/-- The next token is no `ELSE`. -/
def NoElse (rest : List Token) : Prop :=
  ∀ t, rest.head? = some t → t.kind ≠ .keyword .else_

def startsStmt : TokenKind → Bool
  | .keyword .if_ | .keyword .while_ | .keyword .do_ | .keyword .for_ | .keyword .switch => true
  | .keyword .begin_ | .keyword .return_ | .keyword .scan | .keyword .print | .identifier => true
  | _ => false

/-- The next token cannot carry a statement on, an `ELSE` apart. -/
def EndsStmt (rest : List Token) : Prop :=
  ∀ t, rest.head? = some t → binds t.kind = 0 ∧ t.kind ≠ .mark .assign

lemma EndsStmt.ends (h : EndsStmt rest) : Ends 1 rest :=
  fun t ht => by rw [(h t ht).1]; decide

lemma endsStmt_cons (h : binds t.kind = 0 ∧ t.kind ≠ .mark .assign) : EndsStmt (t :: rest) := by
  intro u hu
  obtain rfl : t = u := by simpa using hu
  exact h

lemma endsStmt_of {kind} (h : t.kind = kind) (hk : binds kind = 0 ∧ kind ≠ .mark .assign := by decide) :
    EndsStmt (t :: rest) :=
  endsStmt_cons (h ▸ hk)

lemma noElse_cons (h : t.kind ≠ .keyword .else_) : NoElse (t :: rest) := by
  intro u hu
  obtain rfl : t = u := by simpa using hu
  exact h

lemma noElse_of {kind} (h : t.kind = kind) (hk : kind ≠ .keyword .else_ := by decide) : NoElse (t :: rest) :=
  noElse_cons (h ▸ hk)

lemma of_startsStmt {kind} (h : startsStmt kind) :
    (binds kind = 0 ∧ kind ≠ .mark .assign) ∧ kind ≠ .keyword .else_ ∧ kind ≠ .mark .semicolon ∧
      endsList kind = false := by
  unfold startsStmt at h
  split at h
  case h_11 => cases h
  all_goals decide

lemma IsStmt.starts (h : IsStmt m dangling ts s) : ∃ t us, ts = t :: us ∧ startsStmt t.kind := by
  cases h with
  | assign h _ _ =>
    obtain ⟨n, us, rfl, hn, -⟩ := h.head
    exact ⟨n, _, rfl, by simp [hn, startsStmt]⟩
  | ifThen hk _ _ _ _ _ | ifElse hk _ _ _ _ _ _ _ _ | whileDo hk _ _ _ _ _ | doWhile hk _ _ _ _ _
  | forDo hk _ _ | switch hk _ _ _ _ | switchDefault hk _ _ _ _ _ _ _ | return_ hk _ _ _
  | scan hk _ _ _ | print hk _ _ _ | block hk _ _ | call hk | callWith hk _ _ _ =>
    exact ⟨_, _, rfl, by simp [hk, startsStmt]⟩

lemma IsStmt.block_of_head {b us}
    (h : IsStmt m dangling (b :: us) s) (hb : b.kind = .keyword .begin_) : ∃ span body, s = .block span body := by
  generalize hts : b :: us = ts at h
  cases h with
  | assign h _ _ =>
    obtain ⟨n, vs, rfl, hn, -⟩ := h.head
    obtain rfl : b = n := by simpa using congrArg List.head? hts
    simp [hb] at hn
  | block _ _ _ => exact ⟨_, _, rfl⟩
  | ifThen hk _ _ _ _ _ | ifElse hk _ _ _ _ _ _ _ _ | whileDo hk _ _ _ _ _ | doWhile hk _ _ _ _ _
  | forDo hk _ _ | switch hk _ _ _ _ | switchDefault hk _ _ _ _ _ _ _ | return_ hk _ _ _
  | scan hk _ _ _ | print hk _ _ _ | call hk | callWith hk _ _ _ =>
    cases hts
    simp [hb] at hk

lemma IsStmts.head (h : IsStmts m ts body) :
    ts = [] ∨ ∃ t us, ts = t :: us ∧ (t.kind = .mark .semicolon ∨ startsStmt t.kind) := by
  cases h with
  | nil => exact .inl rfl
  | semicolon ht _ => exact .inr ⟨_, _, rfl, .inl ht⟩
  | cons h _ =>
    obtain ⟨t, us, rfl, ht⟩ := h.starts
    exact .inr ⟨t, _, rfl, .inr ht⟩

lemma IsStmts.ends (rest : List Token) (h : IsStmts m ts body) (hn : n.kind = .keyword .end_) :
    EndsStmt (ts ++ n :: rest) ∧ NoElse (ts ++ n :: rest) := by
  rcases h.head with rfl | ⟨t, us, rfl, ht | ht⟩
  · exact ⟨endsStmt_of hn, noElse_of hn⟩
  · exact ⟨endsStmt_of ht, noElse_of ht⟩
  · exact ⟨endsStmt_cons (of_startsStmt ht).1, noElse_cons (of_startsStmt ht).2.1⟩

lemma IsCases.head {cases} (h : IsCases m ts cases) : ts = [] ∨ ∃ t us, ts = t :: us ∧ t.kind = .keyword .case_ := by
  cases h with
  | nil => exact .inl rfl
  | cons hk _ _ _ _ => exact .inr ⟨_, _, rfl, hk⟩

/-! ## The parts -/

lemma spanning_cons {last} (h : ts.getLast? = some last) : spanning (t :: ts) = some (t.through last) :=
  spanning_of_ends rfl (by simp [getLast?_cons, h])

section

variable {α β : Type}

/-- A phrase in round brackets; what it becomes may depend on the closing one. -/
def bracketed (before behind : Wanted) (r : (toks : List Token) → Reading α toks)
    (f : α → Token → β) (toks : List Token) : Reading β toks := do
  let ⟨_, _, toks₁, h₁⟩ ← expect before (.mark .lparen) toks
  let ⟨v, _, toks₂, h₂⟩ ← r toks₁
  let ⟨_, last, toks₃, h₃⟩ ← expect behind (.mark .rparen) toks₂
  return (Taken.mk (f v last) last toks₃ h₃).since h₂ |>.since h₁

lemma bracketed_gives {before behind : Wanted} {r : (toks : List Token) → Reading α toks} {P : Token → Prop}
    {o c : Token} {v : α} (f : α → Token → β) (ho : o.kind = .mark .lparen)
    (h : ∃ last, P last ∧ Gives (r toks) v last (c :: rest)) (hc : c.kind = .mark .rparen) :
    Gives (bracketed before behind r f (o :: toks)) (f v c) c rest :=
  (expect_gives ho).bind fun _ => gives_bind h fun _ _ => (expect_gives hc).bind fun _ => ⟨_, rfl⟩

end

lemma IsForHeading.gives {counter first last step} (h : IsForHeading ts counter first last step) (hs : Short ts)
    (rest : List Token) :
    ∃ t, t.kind = .keyword .do_ ∧ Gives (parseForHeading (ts ++ rest)) (counter, first, last, step) t rest := by
  cases h with
  | @plain n a t d xs ys _ _ hn ha hx ht hy hd =>
    refine ⟨d, hd, .of_eq (show _ = n :: a :: (xs ++ t :: (ys ++ d :: rest)) by simp) ?_⟩
    refine (expectName_gives hn).bind fun _ => (expect_gives ha).bind fun _ => ?_
    refine gives_bind (hx.gives hs.tail.tail.left _ (ends_of ht)) fun _ _ => (expect_gives ht).bind fun _ => ?_
    refine gives_bind (hy.gives hs.tail.tail.right.tail.left _ (ends_of hd)) fun _ _ => ?_
    have hstep : d.kind ≠ .keyword .step := by simp [hd]
    simp only [take?_cons_ne rest hstep]
    exact (expect_gives hd).bind fun _ => ⟨_, rfl⟩
  | @stepped n a t s d xs ys zs _ _ _ hn ha hx ht hy hstep hz hd =>
    refine ⟨d, hd, .of_eq (show _ = n :: a :: (xs ++ t :: (ys ++ s :: (zs ++ d :: rest))) by simp) ?_⟩
    refine (expectName_gives hn).bind fun _ => (expect_gives ha).bind fun _ => ?_
    refine gives_bind (hx.gives hs.tail.tail.left _ (ends_of ht)) fun _ _ => (expect_gives ht).bind fun _ => ?_
    refine gives_bind (hy.gives hs.tail.tail.right.tail.left _ (ends_of hstep)) fun _ _ => ?_
    simp only [take?_cons _ hstep]
    refine gives_bind (hz.gives hs.tail.tail.right.tail.right.tail.left _ (ends_of hd)) fun _ _ => ?_
    exact (expect_gives hd).bind fun _ => ⟨_, rfl⟩

section

variable {o c : Token} {toks rest : List Token} {e : Expr} {es : List Expr} {P : Token → Prop}
  (ho : o.kind = .mark .lparen) (hc : c.kind = .mark .rparen)

include ho hc

lemma parseCondition_gives {wanted} (h : ∃ last, P last ∧ Gives (Expr.parse toks) e last (c :: rest)) :
    Gives (parseCondition wanted (o :: toks)) e c rest :=
  bracketed_gives (fun e _ => e) ho h hc

lemma parseReturn_gives (start : Token) (h : ∃ last, P last ∧ Gives (Expr.parse toks) e last (c :: rest)) :
    Gives (parseReturn start (o :: toks)) (.return (start.through c) e) c rest :=
  bracketed_gives (fun e last => Stmt.return (start.through last) e) ho h hc

lemma parseScan_gives (start : Token) (h : ∃ last, Gives (Expr.parseTargets toks) es last (c :: rest)) :
    Gives (parseScan start (o :: toks)) (.scan (start.through c) es) c rest :=
  bracketed_gives (fun es last => Stmt.scan (start.through last) es) ho (h.imp fun _ => .intro trivial) hc

lemma parsePrint_gives (start : Token) (h : ∃ last, Gives (Expr.parseList toks) es last (c :: rest)) :
    Gives (parsePrint start (o :: toks)) (.print (start.through c) es) c rest :=
  bracketed_gives (fun es last => Stmt.print (start.through last) es) ho (h.imp fun _ => .intro trivial) hc

end

lemma parseNamed_assign {start a last₁ last toks₁ e v} (h : Gives (Expr.parseTarget toks) e last₁ (a :: toks₁))
    (ha : a.kind = .mark .assign) (hv : Gives (Expr.parse toks₁) v last rest) :
    Gives (parseNamed start toks) (.assign (start.through last) e v) last rest := by
  refine h.bind fun _ => ?_
  simp only [take?_cons _ ha]
  exact hv.bind fun _ => ⟨_, rfl⟩

lemma parseTarget_name (rest : List Token) (hn : n.kind = .identifier)
    (hrest : ∀ t, rest.head? = some t → t.kind ≠ .mark .lbracket ∧ t.kind ≠ .mark .dot) :
    Gives (Expr.parseTarget (n :: rest)) (.name n.span n.value) n rest :=
  (expect_gives hn).bind fun _ => (parseSuffixes_stops (.name n.span n.value) n n hrest).bind_gives fun _ => ⟨_, rfl⟩

lemma parseNamed_call (hn : n.kind = .identifier) (hrest : EndsStmt rest) :
    Gives (parseNamed n (n :: rest)) (.call (n.through n) n.value []) n rest := by
  have hparen : take? (.mark .lparen) rest = none := take?_eq_none (hrest.ends.ne (by decide))
  refine (parseTarget_name rest hn fun t ht =>
    ⟨hrest.ends.ne (by decide) t ht, hrest.ends.ne (by decide) t ht⟩).bind fun _ => ?_
  simp only [take?_eq_none fun t ht => (hrest t ht).2, hparen]
  exact ⟨_, rfl⟩

lemma parseNamed_callWith {o c args} (hn : n.kind = .identifier)
    (ho : o.kind = .mark .lparen) (h : Gives (Expr.parseArguments toks) args c rest) :
    Gives (parseNamed n (n :: o :: toks)) (.call (n.through c) n.value args) c rest := by
  have hassign : o.kind ≠ .mark .assign := by simp [ho]
  refine (parseTarget_name (o :: toks) hn (by simp [ho])).bind fun _ => ?_
  simp only [take?_cons_ne toks hassign, take?_cons _ ho]
  exact h.bind fun _ => ⟨_, rfl⟩

/-- What is read behind the first token of a statement decides where the statement ends. -/
lemma gives_cons (last : Token) {us} (f : Option Span → Stmt) (hlast : us.getLast? = some last)
    (h : Gives (parse (t :: toks)) (f (t.through last)) last rest)
    (heq : us ++ rest = toks := by simp only [cons_append, append_assoc, nil_append]; rfl) :
    ∃ last, (t :: us).getLast? = some last ∧ Gives (parse (t :: us ++ rest)) (f (spanning (t :: us))) last rest := by
  subst heq
  refine ⟨last, by simp [getLast?_cons, hlast], ?_⟩
  rw [spanning_cons hlast]
  exact h

/-! ## Completeness -/

mutual

lemma IsStmt.gives {dangling ts s} : IsStmt .resolved dangling ts s → Short ts → (rest : List Token) → EndsStmt rest →
      (dangling → NoElse rest) → ∃ last, ts.getLast? = some last ∧ Gives (parse (ts ++ rest)) s last rest
  | .ifThen hi ho he hc ht hyes, hs, rest, hrest, helse => by
    obtain ⟨last, hlast, hyes⟩ := hyes.gives hs.tail.tail.right.tail.tail rest hrest fun _ => helse rfl
    refine gives_cons last (.ifThen · _ _ none) (by simp [getLast?_cons, hlast]) ?_
    rw [parse]
    simp only [hi]
    refine (parseCondition_gives ho hc (he.gives hs.tail.tail.left _ (ends_of hc))).bind fun _ => ?_
    refine (expect_gives ht).bind fun _ => hyes.bind fun _ => ?_
    simp only [take?_eq_none (helse rfl)]
    exact ⟨_, rfl⟩
  | .ifElse hi ho he hc ht hyes hclosed hl hno, hs, rest, hrest, helse => by
    obtain ⟨last, hlast, hno⟩ := hno.gives hs.tail.tail.right.tail.tail.right.tail rest hrest helse
    have hyes := hyes.gives hs.tail.tail.right.tail.tail.left
    refine gives_cons last (.ifThen · _ _ (some _)) (by simp [getLast?_cons, hlast]) ?_
    rw [parse]
    simp only [hi]
    refine (parseCondition_gives ho hc (he.gives hs.tail.tail.left _ (ends_of hc))).bind fun _ => ?_
    refine (expect_gives ht).bind fun _ => gives_bind (hyes _ (endsStmt_of hl) (by simp [hclosed rfl])) fun _ _ => ?_
    simp only [take?_cons _ hl]
    exact hno.bind fun _ => ⟨_, rfl⟩
  | .whileDo hw ho he hc hd hbody, hs, rest, hrest, helse => by
    obtain ⟨last, hlast, hbody⟩ := hbody.gives hs.tail.tail.right.tail.tail rest hrest helse
    refine gives_cons last (.while · _ _) (by simp [getLast?_cons, hlast]) ?_
    rw [parse]
    simp only [hw]
    refine (parseCondition_gives ho hc (he.gives hs.tail.tail.left _ (ends_of hc))).bind fun _ => ?_
    exact (expect_gives hd).bind fun _ => hbody.bind fun _ => ⟨_, rfl⟩
  | .doWhile (c := c) hd hbody hw ho he hc, hs, rest, _, _ => by
    have hbody := hbody.gives hs.tail.left
    refine gives_cons c (.doWhile · _ _) (by simp [getLast?_cons]) ?_
    rw [parse]
    simp only [hd]
    refine gives_bind (hbody _ (endsStmt_of hw) fun _ => noElse_of hw) fun _ _ => ?_
    refine (expect_gives hw).bind fun _ => ?_
    exact (parseCondition_gives ho hc (he.gives hs.tail.right.tail.tail.left _ (ends_of hc))).bind fun _ => ⟨_, rfl⟩
  | .forDo hf hheading hbody, hs, rest, hrest, helse => by
    obtain ⟨last, hlast, hbody⟩ := hbody.gives hs.tail.right rest hrest helse
    refine gives_cons last (.for · _ _ _ _ _) (by simp [hlast]) ?_
    rw [parse]
    simp only [hf]
    exact gives_bind (hheading.gives hs.tail.left _) fun _ _ => hbody.bind fun _ => ⟨_, rfl⟩
  | @IsStmt.switch _ s b n _ _ _ _ hk he hb hcases hn, hs, rest, _, _ => by
    obtain ⟨_, hcases⟩ := hcases.yields hs.tail.right.tail.left (n :: rest) (endsStmt_of hn) (noElse_of hn)
      (by simp [hn]) b
    have hdefault : n.kind ≠ .keyword .default_ := by simp [hn]
    refine gives_cons n (.switch · _ _ none) (by simp [getLast?_cons]) ?_
    rw [parse]
    simp only [hk]
    refine gives_bind (he.gives hs.tail.left _ (ends_of hb)) fun _ _ => (expect_gives hb).bind fun _ => ?_
    refine hcases.bind_gives fun _ => ?_
    simp only [take?_cons_ne rest hdefault]
    exact (expect_gives hn).bind fun _ => ⟨_, rfl⟩
  | @IsStmt.switchDefault _ _ s b d c n _ _ zs _ _ _ hk he hb hcases hd hc hbody hn, hs, rest, _, _ => by
    have hbody := hbody.gives hs.tail.right.tail.right.tail.tail.left (n :: rest) (endsStmt_of hn) fun _ => noElse_of hn
    obtain ⟨_, hcases⟩ := hcases.yields hs.tail.right.tail.left (d :: c :: (zs ++ n :: rest)) (endsStmt_of hd)
      (noElse_of hd) (by simp [hd]) b
    refine gives_cons n (.switch · _ _ (some _)) (by simp [getLast?_cons]) ?_
    rw [parse]
    simp only [hk]
    refine gives_bind (he.gives hs.tail.left _ (ends_of hb)) fun _ _ => (expect_gives hb).bind fun _ => ?_
    refine hcases.bind_gives fun _ => ?_
    simp only [take?_cons _ hd]
    refine (expect_gives hc).bind fun _ => gives_bind hbody fun _ _ => ?_
    exact (expect_gives hn).bind fun _ => ⟨_, rfl⟩
  | .return_ (c := c) hr ho he hc, hs, rest, _, _ => by
    refine gives_cons c (.return · _) (by simp [getLast?_cons]) ?_
    rw [parse]
    simp only [hr]
    exact (parseReturn_gives ho hc _ (he.gives hs.tail.tail.left _ (ends_of hc))).bind fun _ => ⟨_, rfl⟩
  | .scan (c := c) hk ho htargets hc, hs, rest, _, _ => by
    have htargets := htargets.gives (c :: rest) (ends_of hc) (by simp [hc]) hs.tail.tail.left
    refine gives_cons c (.scan · _) (by simp [getLast?_cons]) ?_
    rw [parse]
    simp only [hk]
    exact (parseScan_gives ho hc _ htargets).bind fun _ => ⟨_, rfl⟩
  | .print (c := c) hk ho hvalues hc, hs, rest, _, _ => by
    have hvalues := hvalues.gives hs.tail.tail.left (c :: rest) (ends_of hc) (by simp [hc])
    refine gives_cons c (.print · _) (by simp [getLast?_cons]) ?_
    rw [parse]
    simp only [hk]
    exact (parsePrint_gives ho hc _ hvalues).bind fun _ => ⟨_, rfl⟩
  | .block (b := b) (n := n) hb hbody hn, hs, rest, _, _ => by
    obtain ⟨_, hbody⟩ := hbody.yields hs.tail.left hn rest b
    refine gives_cons n (.block · _) (by simp) ?_
    rw [parse]
    simp only [hb]
    exact hbody.bind_gives fun _ => (expect_gives hn).bind fun _ => ⟨_, rfl⟩
  | @IsStmt.assign _ a xs ys target value htarget ha hvalue, hs, rest, hrest, _ => by
    obtain ⟨last, hlast, hvalue⟩ := hvalue.gives hs.right.tail rest hrest.ends
    obtain ⟨-, x, -, hx⟩ := exists_ends htarget.ne_nil
    have hgives := htarget.gives (a :: (ys ++ rest)) hs.left hx (ends_of ha)
    obtain ⟨n, us, rfl, hn, -⟩ := htarget.head
    rw [cons_append]
    refine gives_cons last (.assign · target value) (by simp [getLast?_cons, hlast]) ?_
    rw [parse]
    simp only [hn]
    exact parseNamed_assign hgives ha hvalue
  | .call (n := n) hn, hs, rest, hrest, _ => by
    refine ⟨n, rfl, ?_⟩
    show Gives (parse (n :: rest)) _ n rest
    rw [parse]
    simp only [hn]
    exact parseNamed_call hn hrest
  | .callWith (n := n) (c := c) hn ho hargs hc, hs, rest, hrest, _ => by
    refine gives_cons c (.call · n.value _) (by simp [getLast?_cons]) ?_
    rw [parse]
    simp only [hn]
    exact parseNamed_callWith hn ho (hargs.gives hs.tail.tail.left hc rest)

lemma IsBlock.gives {dangling ts body} :
    IsBlock .resolved dangling ts body → Short ts → (rest : List Token) → EndsStmt rest → (dangling → NoElse rest) →
        ∃ last, ts.getLast? = some last ∧ Gives (parseBranch (ts ++ rest)) body last rest
  | @IsBlock.list _ b n xs _ hb hbody hn, hs, rest, _, _ => by
    obtain ⟨_, hbody⟩ := hbody.yields hs.tail.left hn rest b
    refine ⟨n, by simp [getLast?_cons], .of_eq (show _ = b :: (xs ++ n :: rest) by simp) ?_⟩
    rw [parseBranch]
    simp only [take?_cons _ hb]
    exact hbody.bind_gives fun _ => (expect_gives hn).bind fun _ => ⟨_, rfl⟩
  | @IsBlock.single _ _ xs _ h hsingle, hs, rest, hrest, helse => by
    obtain ⟨last, hlast, hgives⟩ := h.gives hs rest hrest helse
    have hbegin : ∀ t, (xs ++ rest).head? = some t → t.kind ≠ .keyword .begin_ := by
      obtain ⟨t, us, rfl, -⟩ := h.starts
      intro u hu hk
      obtain rfl : t = u := by simpa using hu
      obtain ⟨span, body, rfl⟩ := h.block_of_head hk
      exact hsingle rfl span body rfl
    refine ⟨last, hlast, ?_⟩
    rw [parseBranch]
    simp only [take?_eq_none hbegin]
    exact hgives.bind fun _ => ⟨_, rfl⟩

lemma IsStmts.yields {n ts body} :
    IsStmts .resolved ts body → Short ts → n.kind = .keyword .end_ → (rest : List Token) →
      (last : Token) → ∃ last', Yields (parseEach last (ts ++ n :: rest)) body last' (n :: rest)
  | .nil, _, hn, rest, last => by
    refine ⟨last, Nat.le_refl _, ?_⟩
    show parseEach last (n :: rest) = _
    rw [parseEach]
    simp only [hn, endsList, if_true]
    rfl
  | @IsStmts.semicolon _ t xs _ ht h, hs, hn, rest, last => by
    obtain ⟨last', h⟩ := h.yields hs.tail hn rest t
    refine ⟨last', ?_⟩
    show Yields (parseEach last (t :: (xs ++ n :: rest))) _ _ _
    rw [parseEach]
    simp only [ht, endsList, Bool.false_eq_true, if_false, beq_self_eq_true, if_true]
    exact h.bind fun _ => ⟨_, rfl⟩
  | @IsStmts.cons _ _ xs ys s body hstmt h, hs, hn, rest, last => by
    obtain ⟨hends, helse⟩ := h.ends rest hn
    obtain ⟨last₁, -, hgives⟩ := hstmt.gives hs.left (ys ++ n :: rest) hends fun _ => helse
    obtain ⟨last', h⟩ := h.yields hs.right hn rest last₁
    refine ⟨last', .of_eq (append_assoc ..) ?_⟩
    obtain ⟨t, us, rfl, ht⟩ := hstmt.starts
    obtain ⟨-, -, hsemi, hlist⟩ := of_startsStmt ht
    show Yields (parseEach last (t :: (us ++ (ys ++ n :: rest)))) _ _ _
    rw [parseEach]
    simp only [hlist, Bool.false_eq_true, if_false, beq_iff_eq, hsemi]
    exact hgives.bind_yields fun _ => h.bind fun _ => ⟨_, rfl⟩

lemma IsCases.yields {ts cases} :
    IsCases .resolved ts cases → Short ts → (rest : List Token) → EndsStmt rest → NoElse rest →
      (∀ t, rest.head? = some t → t.kind ≠ .keyword .case_) → (last : Token) →
        ∃ last', Yields (parseCases last (ts ++ rest)) cases last' rest
  | .nil, _, rest, _, _, hcase, last => by
    refine ⟨last, Nat.le_refl _, ?_⟩
    show parseCases last rest = _
    rw [parseCases, take?_eq_none hcase]
    rfl
  | @IsCases.cons _ _ k c xs ys zs values body cases hk hvalues hc hbody hcases, hs, rest, hrest,
      helse, hcase, last => by
      have hbehind : EndsStmt (zs ++ rest) ∧ NoElse (zs ++ rest) := by
        rcases hcases.head with rfl | ⟨t, us, rfl, ht⟩
        · exact ⟨hrest, helse⟩
        · exact ⟨endsStmt_of ht, noElse_of ht⟩
      obtain ⟨last₂, hlasty, hbody⟩ :=
        hbody.gives hs.tail.right.tail.left (zs ++ rest) hbehind.1 fun _ => hbehind.2
      obtain ⟨last', hcases⟩ := hcases.yields hs.tail.right.tail.right rest hrest helse hcase last₂
      obtain ⟨_, hvalues⟩ := hvalues.gives hs.tail.left (c :: (ys ++ (zs ++ rest))) (ends_of hc) (by simp [hc])
      have hlast : (xs ++ c :: ys).getLast? = some last₂ := by simp [getLast?_cons, hlasty]
      refine ⟨last', ?_⟩
      rw [spanning_cons hlast]
      refine .of_eq (show _ = k :: (xs ++ c :: (ys ++ (zs ++ rest))) by simp) ?_
      rw [parseCases]
      simp only [take?_cons _ hk]
      refine hvalues.bind_yields fun _ => (expect_gives hc).bind_yields fun _ => ?_
      exact hbody.bind_yields fun _ => hcases.bind fun _ => ⟨_, rfl⟩

end

end AlgoLang.Grammar
