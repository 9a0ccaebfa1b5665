/-
# The reader accepts exactly the grammar

Programs that are derived are read, whatever stands behind their final point, and a run of the machine that
the reader is makes a derivation.

The grammar says nothing of how a reader goes about its work.  Where it leaves open with which of two `IF`s an `ELSE`
goes, its resolved form has the choice written into the rules, so that the two halves speak of one and the same
program: the reader refuses no text that can be derived, and makes up none that cannot.
-/
import AlgoLang.Proofs.Agenda.Derivation
import AlgoLang.Proofs.Grammar.Ambiguity

namespace AlgoLang.Grammar

open Routine Declarations Reading List Yields Gives
open Program (ofScanned)

variable {ts : List Token} {p : Program} {m : Mode} {scanned : Token.Scanned}
variable {rest : List Token}

/-! ## Declarations -/

def behind (soFar d : Declarations) : Declarations :=
  ⟨soFar.constants ++ d.constants, soFar.types ++ d.types, soFar.vars ++ d.vars⟩

@[simp] lemma behind_empty (soFar : Declarations) : behind soFar {} = soFar := by
  simp [behind]

lemma EndsDecls.ne_semicolon {vs} (hrest : EndsDecls rest)
    (hvs : vs = [] ∨ ∃ n us, vs = n :: us ∧ n.kind = .identifier) (t : Token) (ht : (vs ++ rest).head? = some t) :
    t.kind ≠ .mark .semicolon := by
  rcases hvs with rfl | ⟨n, us, rfl, hn⟩
  · exact (hrest t ht).2
  · obtain rfl : n = t := by simpa using ht
    simp [hn]

lemma IsConsts.yields {decls} (h : IsConsts ts decls) (hs : Short ts) (rest : List Token)
    (hrest : EndsDecls rest) (last : Token) : ∃ last', Yields (parseConstants last (ts ++ rest)) decls last' rest := by
  induction h generalizing last with
  | nil =>
    refine ⟨last, Nat.le_refl _, ?_⟩
    show parseConstants last rest = _
    rw [parseConstants, take?_eq_none fun t ht => (hrest t ht).1]
    rfl
  | @cons n q xs us vs _ _ hn hq he hus hvs ih =>
    obtain ⟨last₁, hlast₁, he⟩ := he.gives hs.tail.tail.left (us ++ (vs ++ rest))
    have hhead : vs = [] ∨ ∃ n us, vs = n :: us ∧ n.kind = .identifier := by cases hvs <;> simp [*]
    obtain ⟨_, hskip⟩ := hus.skip_eq (hrest.ne_semicolon hhead) last₁
    obtain ⟨last', hvs⟩ := ih hs.tail.tail.right.right (us.getLast?.getD last₁)
    have hlast : (q :: (xs ++ us)).getLast? = some (us.getLast?.getD last₁) := by
      simp [getLast?_cons, getLast?_append, hlast₁]
    rw [spanning_cons hlast]
    refine ⟨last', of_eq (show _ = n :: q :: (xs ++ (us ++ (vs ++ rest))) by simp) ?_⟩
    rw [parseConstants]
    simp only [take?_cons _ hn]
    refine (expect_gives hq).bind_yields fun _ => he.bind_yields fun _ => ?_
    rw [hskip]
    exact hvs.bind fun _ => ⟨_, rfl⟩

lemma IsTypeDecls.yields {decls : List TypeDecl} (h : IsTypeDecls ts decls) (hs : Short ts) (rest : List Token)
    (hrest : EndsDecls rest) (last : Token) : ∃ last', Yields (parseTypes last (ts ++ rest)) decls last' rest := by
  induction h generalizing last with
  | nil =>
    refine ⟨last, Nat.le_refl _, ?_⟩
    show parseTypes last rest = _
    rw [parseTypes, take?_eq_none fun t ht => (hrest t ht).1]
    rfl
  | @cons n q xs us vs _ _ hn hq he hus hvs ih =>
    obtain ⟨last₁, hlast₁, he⟩ := he.gives hs.tail.tail.left (us ++ (vs ++ rest))
    have hhead : vs = [] ∨ ∃ n us, vs = n :: us ∧ n.kind = .identifier := by cases hvs <;> simp [*]
    obtain ⟨_, hskip⟩ := hus.skip_eq (hrest.ne_semicolon hhead) last₁
    obtain ⟨last', hvs⟩ := ih hs.tail.tail.right.right (us.getLast?.getD last₁)
    have hlast : (q :: (xs ++ us)).getLast? = some (us.getLast?.getD last₁) := by
      simp [getLast?_cons, getLast?_append, hlast₁]
    rw [spanning_cons hlast]
    refine ⟨last', of_eq (show _ = n :: q :: (xs ++ (us ++ (vs ++ rest))) by simp) ?_⟩
    rw [parseTypes]
    simp only [take?_cons _ hn]
    refine (expect_gives hq).bind_yields fun _ => he.bind_yields fun _ => ?_
    rw [hskip]
    exact hvs.bind fun _ => ⟨_, rfl⟩

/-- What stands behind all sections of declarations: a routine or the body. -/
def EndsSections (rest : List Token) : Prop :=
  ∀ t, rest.head? = some t → t.kind = .keyword .function ∨ t.kind = .keyword .procedure ∨ t.kind = .keyword .begin_

lemma IsDecls.endsDecls {d} (h : IsDecls ts d) (hrest : EndsSections rest) : EndsDecls (ts ++ rest) := by
  intro t ht
  cases h with
  | nil => rcases hrest t ht with hk | hk | hk <;> simp [hk]
  | consts hk _ _ | types hk _ _ | vars hk _ _ =>
    cases ht
    simp [hk]

lemma IsDecls.yields {d} (h : IsDecls ts d) (hs : Short ts) (rest : List Token)
    (hrest : EndsSections rest) (soFar : Declarations) (last : Token) :
    ∃ last', Yields (parse soFar last (ts ++ rest)) (behind soFar d) last' rest := by
  induction h generalizing soFar last with
  | nil =>
    refine ⟨last, Nat.le_refl _, ?_⟩
    rw [behind_empty]
    show parse soFar last rest = _
    cases rest with
    | nil =>
      rw [parse]
      rfl
    | cons t rest =>
      rw [parse]
      rcases hrest t rfl with hk | hk | hk <;> simp only [hk] <;> rfl
  | @consts k xs ys decls d hk hdecls h ih =>
    obtain ⟨last₁, hdecls⟩ := hdecls.yields hs.tail.left (ys ++ rest) (h.endsDecls hrest) k
    obtain ⟨last', h⟩ := ih hs.tail.right { soFar with constants := soFar.constants ++ decls } last₁
    refine ⟨last', of_eq (show _ = k :: (xs ++ (ys ++ rest)) by simp) ?_⟩
    rw [parse]
    simp only [hk, behind, append_assoc] at h ⊢
    exact hdecls.bind fun _ => h.bind fun _ => ⟨_, rfl⟩
  | @types k xs ys decls d hk hdecls h ih =>
    obtain ⟨last₁, hdecls⟩ := hdecls.yields hs.tail.left (ys ++ rest) (h.endsDecls hrest) k
    obtain ⟨last', h⟩ := ih hs.tail.right { soFar with types := soFar.types ++ decls } last₁
    refine ⟨last', of_eq (show _ = k :: (xs ++ (ys ++ rest)) by simp) ?_⟩
    rw [parse]
    simp only [hk, behind, append_assoc] at h ⊢
    exact hdecls.bind fun _ => h.bind fun _ => ⟨_, rfl⟩
  | @vars k xs ys decls d hk hdecls h ih =>
    have hdecls := hdecls.yields hs.tail.left (ys ++ rest) (h.endsDecls hrest) k
    obtain ⟨last', h⟩ := ih hs.tail.right
      { soFar with vars := soFar.vars ++ decls } (xs.getLast?.getD k)
    refine ⟨last', of_eq (show _ = k :: (xs ++ (ys ++ rest)) by simp) ?_⟩
    rw [parse]
    simp only [hk, behind, append_assoc] at h ⊢
    exact hdecls.bind fun _ => h.bind fun _ => ⟨_, rfl⟩

/-! ## Routines -/

lemma IsParam.head {p} (h : IsParam ts p) : ∃ t us, ts = t :: us ∧ t.kind ≠ .mark .rparen := by
  cases h with
  | byValue hn _ _ => exact ⟨_, _, rfl, by simp [hn]⟩
  | byReference hv _ _ _ => exact ⟨_, _, rfl, by simp [hv]⟩

lemma IsParam.gives {p} (h : IsParam ts p) (hs : Short ts)
    (rest : List Token) : ∃ last, Gives (parseParam (ts ++ rest)) p last rest := by
  cases h with
  | @byValue n c xs type hn hc htype =>
    obtain ⟨last, hlastx, htype⟩ := htype.gives hs.tail.tail rest
    have hlast : (c :: xs).getLast? = some last := by simp [getLast?_cons, hlastx]
    have hvar : ∀ t, (n :: c :: (xs ++ rest)).head? = some t → t.kind ≠ .keyword .var := by simp [hn]
    obtain ⟨_, hskip⟩ := IsOptional.absent.skip_eq hvar n
    have hvalue : (n.kind == .keyword .var) = false := by rw [hn]; rfl
    rw [spanning_cons hlast]
    refine ⟨last, ?_⟩
    show Gives (parseParam (n :: c :: (xs ++ rest))) _ _ _
    simp only [parseParam, hvalue]
    change skip (.keyword .var) n (n :: c :: (xs ++ rest)) = _ at hskip
    rw [hskip]
    exact (expectName_gives hn).bind fun _ => (expect_gives hc).bind fun _ => htype.bind fun _ => ⟨_, rfl⟩
  | @byReference v n c xs type hv hn hc htype =>
    obtain ⟨last, hlastx, htype⟩ := htype.gives hs.tail.tail.tail rest
    have hlast : (n :: c :: xs).getLast? = some last := by simp [getLast?_cons, hlastx]
    have hvar : ∀ t, (n :: c :: (xs ++ rest)).head? = some t → t.kind ≠ .keyword .var := by simp [hn]
    obtain ⟨_, hskip⟩ := (IsOptional.present hv).skip_eq hvar v
    have hreference : (v.kind == .keyword .var) := by rw [hv]; rfl
    rw [spanning_cons hlast]
    refine ⟨last, ?_⟩
    show Gives (parseParam (v :: n :: c :: (xs ++ rest))) _ _ _
    simp only [parseParam, hreference]
    change skip (.keyword .var) v (v :: n :: c :: (xs ++ rest)) = _ at hskip
    rw [hskip]
    exact (expectName_gives hn).bind fun _ => (expect_gives hc).bind fun _ => htype.bind fun _ => ⟨_, rfl⟩

lemma IsParamList.head {ps} (h : IsParamList ts ps) : ∃ t us, ts = t :: us ∧ t.kind ≠ .mark .rparen := by
  cases h with
  | one h => exact h.head
  | more h _ _ =>
    obtain ⟨t, us, rfl, ht⟩ := h.head
    exact ⟨t, _, rfl, ht⟩

lemma IsParamList.gives {ps} (rest : List Token)
    (hrest : ∀ t, rest.head? = some t → t.kind ≠ .mark .comma) (h : IsParamList ts ps) (hs : Short ts) :
    ∃ last, Gives (parseParamList (ts ++ rest)) ps last rest := by
  induction h with
  | one h =>
    obtain ⟨last, h⟩ := h.gives hs rest
    rw [parseParamList]
    refine ⟨last, h.bind fun _ => ?_⟩
    simp only [take?_eq_none hrest]
    exact ⟨_, rfl⟩
  | @more c xs ys _ _ h hc hps ih =>
    obtain ⟨last, hps⟩ := ih hs.right.tail
    obtain ⟨_, h⟩ := h.gives hs.left (c :: (ys ++ rest))
    refine ⟨last, of_eq (show _ = xs ++ c :: (ys ++ rest) by simp) ?_⟩
    rw [parseParamList]
    refine h.bind fun _ => ?_
    simp only [take?_cons _ hc]
    exact hps.bind fun _ => ⟨_, rfl⟩

lemma IsParams.gives {ps c} (h : IsParams ts ps) (hs : Short ts) (hc : c.kind = .mark .rparen)
    (rest : List Token) : Gives (parseParams (ts ++ c :: rest)) ps c rest := by
  cases h with
  | none =>
    refine ⟨Nat.lt_succ_self _, ?_⟩
    show parseParams (c :: rest) = _
    simp only [parseParams, take?_cons _ hc, Taken.one]
  | some h =>
    obtain ⟨last, hgives⟩ := h.gives (c :: rest) (by simp [hc]) hs
    obtain ⟨t, us, rfl, ht⟩ := h.head
    have hparen : take? (.mark .rparen) (t :: us ++ c :: rest) = .none := take?_cons_ne _ ht
    rw [parseParams, hparen]
    exact hgives.bind fun _ => (expect_gives hc).bind fun _ => ⟨_, rfl⟩

lemma IsRoutines.endsSections {fs procs b}
    (h : IsRoutines m ts fs procs) (hb : b.kind = .keyword .begin_) (rest : List Token) :
    EndsSections (ts ++ b :: rest) := by
  intro t ht
  cases h with
  | nil =>
    cases ht
    exact .inr (.inr hb)
  | function hk _ _ _ _ _ _ _ _ =>
    cases ht
    exact .inl hk
  | procedure hk _ _ _ _ _ _ =>
    cases ht
    exact .inr (.inl hk)

lemma IsBody.gives {decls body} (h : IsBody .resolved ts decls body) (hs : Short ts)
    (rest : List Token) (hrest : EndsSections rest) (last : Token) : ∃ last', ts.getLast? = some last' ∧
      Gives (parseBody last (ts ++ rest)) (decls, body) last' rest := by
  obtain @⟨b, n, xs, ys, us, _, _, hdecls, hb, hbody, hn, hus⟩ := h
  obtain ⟨_, hskip⟩ := hus.skip_eq (fun t ht => by rcases hrest t ht with hk | hk | hk <;> simp [hk]) n
  obtain ⟨_, hbody⟩ := hbody.yields hs.right.tail.left hn (us ++ rest) b
  obtain ⟨_, hdecls⟩ := hdecls.yields hs.left (b :: (ys ++ n :: (us ++ rest))) (by simp [EndsSections, hb]) {} last
  refine ⟨us.getLast?.getD n, by simp [getLast?_cons], ?_⟩
  refine of_eq (show _ = xs ++ b :: (ys ++ n :: (us ++ rest)) by simp) ?_
  rw [parseBody]
  refine hdecls.bind_gives fun _ => (expect_gives hb).bind fun _ => hbody.bind_gives fun _ => ?_
  refine (expect_gives hn).bind fun _ => ?_
  simp only [hskip]
  exact ⟨_, rfl⟩

section

variable {n o c : Token} {ps xs rest : List Token} {params : List Param} {locals : Declarations}
  {body : List Stmt} (hn : n.kind = .identifier) (ho : o.kind = .mark .lparen)
  (hps : IsParams ps params) (hc : c.kind = .mark .rparen) (hbody : IsBody .resolved xs locals body)
  (hrest : EndsSections rest)

include hn ho hps hc hbody hrest

lemma parseFunction_gives {d : Token} {result : TypeExpr} (f : Token) (hd : d.kind = .mark .colon)
    (htype : IsType ts result) (hsps : Short ps) (hs : Short (ts ++ xs)) : ∃ last, xs.getLast? = some last ∧
      Gives (parseFunction f (n :: o :: (ps ++ c :: d :: (ts ++ (xs ++ rest))))) ⟨f.through last,
        n.value, params, some result, locals, body⟩ last rest := by
  obtain ⟨last₁, -, htype⟩ := htype.gives hs.left (xs ++ rest)
  obtain ⟨last₂, hlast, hbody⟩ := hbody.gives hs.right rest hrest last₁
  refine ⟨last₂, hlast, ?_⟩
  rw [parseFunction]
  refine (expectName_gives hn).bind fun _ => (expect_gives ho).bind fun _ => (hps.gives hsps hc _).bind fun _ => ?_
  exact (expect_gives hd).bind fun _ => htype.bind fun _ => hbody.bind fun _ => ⟨_, rfl⟩

lemma parseProcedure_gives (p : Token) (hsps : Short ps) (hs : Short xs) : ∃ last, xs.getLast? = some last ∧
      Gives (parseProcedure p (n :: o :: (ps ++ c :: (xs ++ rest))))
        ⟨p.through last, n.value, params, none, locals, body⟩ last rest := by
  obtain ⟨last₁, hlast, hbody⟩ := hbody.gives hs rest hrest c
  refine ⟨last₁, hlast, ?_⟩
  rw [parseProcedure]
  refine (expectName_gives hn).bind fun _ => (expect_gives ho).bind fun _ => ?_
  exact (hps.gives hsps hc _).bind fun _ => hbody.bind fun _ => ⟨_, rfl⟩

end

lemma IsRoutines.yields {b fs procs} (h : IsRoutines .resolved ts fs procs) (hs : Short ts)
    (hb : b.kind = .keyword .begin_) (rest : List Token) (last : Token) :
    ∃ last', Yields (parseEach last (ts ++ b :: rest)) (fs, procs) last' (b :: rest) := by
  induction h generalizing last with
  | nil =>
    refine ⟨last, Nat.le_refl _, ?_⟩
    show parseEach last (b :: rest) = _
    rw [parseEach]
    simp only [hb]
    rfl
  | @function f n o c d ps ts xs ys _ _ _ _ _ _ hf hn ho hps hc hd htype hbody h ih =>
      have hs₁ : Short ps := hs.tail.tail.tail.left
      have hs₂ : Short (ts ++ xs ++ ys) := by simpa using hs.tail.tail.tail.right.tail.tail
      obtain ⟨last₁, hlast₁, hfunction⟩ := parseFunction_gives hn ho hps hc hbody
        (h.endsSections hb rest) f hd htype hs₁ hs₂.left
      obtain ⟨last', h⟩ := ih hs₂.right last₁
      have hlast : (n :: o :: (ps ++ c :: d :: (ts ++ xs))).getLast? = some last₁ := by
        simp [getLast?_cons, hlast₁]
      rw [spanning_cons hlast]
      refine ⟨last', of_eq (show _ = f :: n :: o :: (ps ++ c :: d :: (ts ++ (xs ++ (ys ++ b :: rest)))) by simp) ?_⟩
      rw [parseEach]
      simp only [hf]
      exact hfunction.bind_yields fun _ => h.bind fun _ => ⟨_, rfl⟩
  | @procedure p n o c ps xs ys _ _ _ _ _ hp hn ho hps hc hbody h ih =>
      have hs₁ : Short ps := hs.tail.tail.tail.left
      have hs₂ : Short (xs ++ ys) := hs.tail.tail.tail.right.tail
      obtain ⟨last₁, hlast₁, hprocedure⟩ := parseProcedure_gives hn ho hps hc hbody
        (h.endsSections hb rest) p hs₁ hs₂.left
      obtain ⟨last', h⟩ := ih hs₂.right last₁
      have hlast : (n :: o :: (ps ++ c :: xs)).getLast? = some last₁ := by simp [getLast?_cons, hlast₁]
      rw [spanning_cons hlast]
      refine ⟨last', of_eq (show _ = p :: n :: o :: (ps ++ c :: (xs ++ (ys ++ b :: rest))) by simp) ?_⟩
      rw [parseEach]
      simp only [hp]
      exact hprocedure.bind_yields fun _ => h.bind fun _ => ⟨_, rfl⟩

/-! ## Programs -/

lemma IsProgram.gives (h : IsProgram .resolved ts p) (hs : Short ts)
    (rest : List Token) : ∃ last, Gives (Program.parse (ts ++ rest)) p last rest := by
  obtain @⟨a, n, b, e, d, xs, ys, zs, _, _, _, _, ha, hn, hdecls, hroutines, hb, hbody, he, hd⟩ := h
  have hs' := hs.tail.tail.right
  obtain ⟨_, hbody⟩ := hbody.yields hs'.right.tail.left he (d :: rest) b
  obtain ⟨last₁, hdecls⟩ := hdecls.yields hs.tail.tail.left (ys ++ b :: (zs ++ e :: d :: rest))
    (hroutines.endsSections hb _) {} n
  obtain ⟨_, hroutines⟩ := hroutines.yields hs'.left hb (zs ++ e :: d :: rest) last₁
  have hlast : (n :: (xs ++ (ys ++ b :: (zs ++ [e, d])))).getLast? = some d := by simp [getLast?_cons]
  rw [spanning_cons hlast]
  refine ⟨d, of_eq (show _ = a :: n :: (xs ++ (ys ++ b :: (zs ++ e :: d :: rest))) by simp) ?_⟩
  rw [Program.parse]
  refine (expect_gives ha).bind fun _ => (expectName_gives hn).bind fun _ => hdecls.bind_gives fun _ => ?_
  refine hroutines.bind_gives fun _ => (expect_gives hb).bind fun _ => hbody.bind_gives fun _ => ?_
  exact (expect_gives he).bind fun _ => (expect_gives hd).bind fun _ => ⟨_, rfl⟩

lemma IsProgram.getLast? (h : IsProgram m ts p) : ∃ d, ts.getLast? = some d ∧ d.kind = .mark .dot := by
  cases h with
  | @mk _ _ _ _ d _ _ _ _ _ _ _ _ _ _ _ _ _ _ hd => exact ⟨d, by simp [getLast?_cons], hd⟩

/-- Up to the end of the text, the end itself is no part of a program. -/
lemma IsProgram.prefix_all_iff (h : IsProgram m ts p) (heof : scanned.eof.kind = .eof) :
    ts <+: scanned.all ↔ ts <+: scanned.tokens := by
  rw [Token.Scanned.all, prefix_concat_iff]
  refine or_iff_right ?_
  rintro rfl
  obtain ⟨d, hlast, hd⟩ := h.getLast?
  obtain rfl : scanned.eof = d := by simpa using hlast
  simp [heof] at hd

lemma IsProgram.ofScanned_eq (source : String) (h : IsProgram .resolved ts p) (hts : ts <+: scanned.tokens)
    (hs : Short scanned.tokens) : ofScanned scanned source = .ok (.ok p) := by
  obtain ⟨rest, hrest⟩ := hts
  obtain ⟨last, hgives⟩ := h.gives (hrest ▸ hs).left rest
  obtain ⟨hlt, hgives⟩ := of_eq hrest.symm hgives
  rw [ofScanned, hgives]

/-- What is read as a program is derived by the grammar, and has no long numeral. -/
lemma exists_isProgram_of_parse {toks taken} (h : Program.parse toks = .ok taken) :
    ∃ ts, toks = ts ++ taken.rest ∧ Short ts ∧ IsProgram .resolved ts taken.value := by
  have hrun := Program.parse_follows toks
  rw [h] at hrun
  obtain ⟨ts, p, heq, hprogram⟩ := Runs.exists_isProgram hrun
  obtain ⟨before, hbefore, hread, -⟩ := Runs.foresight hrun
  obtain rfl : ts = before := append_cancel_right (heq.symm.trans hbefore)
  have hshort : Short ts := fun t ht => exists_literal?_iff.mp (hread t ht)
  obtain ⟨last, hgives⟩ := hprogram.gives hshort taken.rest
  obtain ⟨hlt, hgives⟩ := of_eq heq hgives
  rw [h, Except.ok.injEq] at hgives
  rw [hgives]
  exact ⟨ts, heq, hshort, hprogram⟩

/-- A program that is read is derived from the front of the text; if none is read, there is one
diagnostic. -/
lemma ofScanned_cases (scanned : Token.Scanned) (source : String) (hs : Short scanned.tokens) :
    (∃ p ts, ofScanned scanned source = .ok (.ok p) ∧ ts <+: scanned.tokens ∧ IsProgram .resolved ts p) ∨
    ∃ d, ofScanned scanned source = .ok (.error d) ∧ d.phase = .parsing := by
  unfold ofScanned
  cases hparse : Program.parse scanned.tokens with
  | ok taken =>
    obtain ⟨ts, heq, -, hp⟩ := exists_isProgram_of_parse hparse
    exact .inl ⟨taken.value, ts, rfl, ⟨taken.rest, heq.symm⟩, hp⟩
  | error fault =>
    cases fault with
    | unexpected wanted found => exact .inr ⟨_, rfl, rfl⟩
    | numeral fault =>
      -- The machine stops at a numeral that is too long, and there is none.
      have hrun := Program.parse_follows scanned.tokens
      rw [hparse] at hrun
      obtain ⟨c, hrun, hstop⟩ := hrun
      obtain ⟨before, hbefore, -⟩ := Runs.foresight hrun
      cases hstop with
      | @unreadable _ _ _ t rest _ _ he =>
        have htokens : scanned.tokens = before ++ t :: rest := hbefore
        have ht : t ∈ scanned.tokens := htokens ▸ mem_append_right before mem_cons_self
        obtain ⟨e, hok⟩ := exists_literal?_iff.mpr (hs t ht)
        rw [hok] at he
        cases he

lemma ofScanned_eq_ok_iff {source} (heof : scanned.eof.kind = .eof)
    (hs : Short scanned.tokens) (p : Program) : ofScanned scanned source = .ok (.ok p) ↔
      ∃ ts, ts <+: scanned.all ∧ IsProgram .resolved ts p := by
  constructor
  · intro h
    rcases ofScanned_cases scanned source hs with ⟨p', ts, hp', hts, hprogram⟩ | ⟨d, hd, -⟩
    · obtain rfl : p = p' := by simpa [h] using hp'
      exact ⟨ts, (hprogram.prefix_all_iff heof).mpr hts, hprogram⟩
    · simp [h] at hd
  · rintro ⟨ts, hts, hprogram⟩
    exact hprogram.ofScanned_eq source ((hprogram.prefix_all_iff heof).mp hts) hs

/-- **The reader accepts exactly the grammar.**  Let the text end with its end, and have no numeral
that is too long.

* A program is read iff some front of the text is derived, however its ambiguities are resolved.
* The program that is read is the tree of the resolved derivation.
* If no front of the text is derived, the answer is a diagnostic of the parsing phase. -/
theorem ofScanned_reads_grammar (scanned : Token.Scanned) (source : String)
    (heof : scanned.eof.kind = .eof) (hs : Short scanned.tokens) :
    ((∃ p, Program.ofScanned scanned source = .ok (.ok p)) ↔
      ∃ ts p, ts <+: scanned.all ∧ IsProgram .ambiguous ts p) ∧
    (∀ p, Program.ofScanned scanned source = .ok (.ok p) ↔
      ∃ ts, ts <+: scanned.all ∧ IsProgram .resolved ts p) ∧
    ((¬ ∃ ts p, ts <+: scanned.all ∧ IsProgram .ambiguous ts p) →
      ∃ d, Program.ofScanned scanned source = .ok (.error d) ∧ d.phase = .parsing) := by
  have hexists : (∃ p, Program.ofScanned scanned source = .ok (.ok p)) ↔
      ∃ ts p, ts <+: scanned.all ∧ IsProgram .ambiguous ts p := by
    constructor
    · rintro ⟨p, hp⟩
      obtain ⟨ts, hts, hprogram⟩ := (ofScanned_eq_ok_iff heof hs p).mp hp
      obtain ⟨p', hp'⟩ : ∃ p', IsProgram .ambiguous ts p' := hprogram.resolve
      exact ⟨ts, p', hts, hp'⟩
    · rintro ⟨ts, p, hts, hprogram⟩
      obtain ⟨p', hp'⟩ : ∃ p', IsProgram .resolved ts p' := hprogram.resolve
      exact ⟨p', (ofScanned_eq_ok_iff heof hs p').mpr ⟨ts, hts, hp'⟩⟩
  refine ⟨hexists, ofScanned_eq_ok_iff heof hs, fun hnone => ?_⟩
  rcases ofScanned_cases scanned source hs with ⟨p, ts, hp, -, -⟩ | hdiagnostic
  · exact absurd (hexists.mp ⟨p, hp⟩) hnone
  · exact hdiagnostic

/-- `ALGORITHM x BEGIN IF (x) THEN IF (x) THEN x ELSE x END.` and one more point behind it. -/
def nestedChoice : Token.Scanned where
  tokens := [.keyword .algorithm, .identifier, .keyword .begin_,
    .keyword .if_, .mark .lparen, .identifier, .mark .rparen, .keyword .then_,
    .keyword .if_, .mark .lparen, .identifier, .mark .rparen, .keyword .then_,
    .identifier, .keyword .else_, .identifier, .keyword .end_, .mark .dot, .mark .dot].map
      (Token.mk · "x" .start 1)
  eof := ⟨.eof, "", .start, 0⟩
  faults := []

/-- The `ELSE` goes to the inner choice. -/
theorem ofScanned_nestedChoice :
    nestedChoice.eof.kind = .eof ∧ Short nestedChoice.tokens ∧
      ∃ span outer c inner c' yes no, Program.ofScanned nestedChoice "" =
        .ok (.ok ⟨span, "x", {}, [], [], [.ifThen outer c [.ifThen inner c' yes (some no)] none]⟩) := by
  have hshort : Short nestedChoice.tokens := by
    unfold Short
    decide
  refine ⟨rfl, hshort, ?_⟩
  have hx (x : Token) (hx : x.kind = .identifier) :
      IsExpr .disjunction [x] (.name (spanning [x]) x.value) :=
    .ofPrimary (.access (.name hx))
  have hcall (x : Token) (hx : x.kind = .identifier) :
      IsBlock .resolved false [x] [.call (spanning [x]) x.value []] :=
    .single (.call hx) (by simp)
  have hprogram : IsProgram .resolved (nestedChoice.tokens.take 18) _ :=
    .mk rfl rfl .nil .nil rfl
      (.cons (.ifThen rfl rfl (hx _ rfl) rfl rfl (.single
        (.ifElse rfl rfl (hx _ rfl) rfl rfl (hcall _ rfl) (fun _ => rfl) rfl (hcall _ rfl))
        (by simp))) .nil) rfl rfl
  exact ⟨_, _, _, _, _, _, _, ((ofScanned_reads_grammar nestedChoice "" rfl hshort).2.1 _).mpr
    ⟨_, ⟨nestedChoice.all.drop 18, rfl⟩, hprogram⟩⟩

end AlgoLang.Grammar
