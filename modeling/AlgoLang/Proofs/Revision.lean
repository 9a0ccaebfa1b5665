/-
# The same program under other names and at other places

A `Revision` gives every name another spelling and every token another place.  The grammar looks at the kinds
of tokens only, so revised tokens derive the revised tree.
-/
import AlgoLang.Analysis
import AlgoLang.Proofs.Grammar
import AlgoLang.Proofs.LetterCase

namespace AlgoLang

open Token List Stmt TypeExpr Text

variable {ts : List Token} {t : Token} {e : Expr}

/-! ## The operation -/

/-- Whether a token is a name or a reserved word. -/
def TokenKind.isWord : TokenKind → Bool
  | .identifier | .keyword _ => true
  | _ => false

/-- New spellings of words and new places of tokens.  A name keeps what it stands for, and a message that
quotes it keeps its look.  A stretch of source moves with the tokens at its ends, and a finding about it
with its start. -/
structure Revision where
  name : String → String
  view : String → String
  place : Location → Location
  length : Location → Nat → Nat
  spot : Option Span → Option Span
  lower_name : ∀ n, lower (name n) = lower n
  view_name : ∀ {before : String}, Text.OpensQuote before → ∀ n after,
    view (before ++ name n ++ after) = view (before ++ n ++ after)
  spot_through : ∀ a b : Token, spot (some (a.through b)) =
    some (Token.through { a with start := place a.start } ⟨b.kind, b.value, place b.start, length b.start b.length⟩)
  findingAt_spot : ∀ s, findingAt (spot s) = place (findingAt s)

/-- Names in small letters, at the same places. -/
def Revision.small : Revision where
  name := smallName
  view := lowerQuoted
  place := id
  length _ n := n
  spot := id
  lower_name := lower_smallName
  view_name := lowerQuoted_smallName
  spot_through _ _ := rfl
  findingAt_spot _ := rfl

def Revision.same : Revision where
  name := id
  view := id
  place := id
  length _ n := n
  spot := id
  lower_name _ := rfl
  view_name _ _ _ := rfl
  spot_through := small.spot_through
  findingAt_spot := small.findingAt_spot

/-- The token at its new place, with another spelling if it is a word. -/
def Token.revise (ρ : Revision) (t : Token) : Token :=
  ⟨t.kind, if t.kind.isWord then ρ.name t.value else t.value, ρ.place t.start, ρ.length t.start t.length⟩

namespace Expr

mutual

def revise (ρ : Revision) : Expr → Expr
  | name s n => name (ρ.spot s) (ρ.name n)
  | binary s op l r => binary (ρ.spot s) op (revise ρ l) (revise ρ r)
  | unary s op e => unary (ρ.spot s) op (revise ρ e)
  | index s a is => index (ρ.spot s) (revise ρ a) (reviseEach ρ is)
  | field s o n => field (ρ.spot s) (revise ρ o) (ρ.name n)
  | call s n args => call (ρ.spot s) (ρ.name n) (reviseEach ρ args)
  | paren s e => paren (ρ.spot s) (revise ρ e)
  | integer s n => integer (ρ.spot s) n
  | real s x => real (ρ.spot s) x
  | boolean s b => boolean (ρ.spot s) b
  | char s c => char (ρ.spot s) c
  | string s t => string (ρ.spot s) t
  | unknown s => unknown s
  | missing => missing

def reviseEach (ρ : Revision) : List Expr → List Expr
  | [] => []
  | e :: es => revise ρ e :: reviseEach ρ es

end

end Expr

namespace TypeExpr

mutual

def revise (ρ : Revision) : TypeExpr → TypeExpr
  | primitive s p => primitive (ρ.spot s) p
  | array s ds t => array (ρ.spot s) (Expr.reviseEach ρ ds) (revise ρ t)
  | record s fields => record (ρ.spot s) (reviseFields ρ fields)
  | enumeration s vs => enumeration (ρ.spot s) (vs.map ρ.name)
  | named s n => named (ρ.spot s) (ρ.name n)
  | unknown s => unknown s
  | missing => missing

def reviseFields (ρ : Revision) : List VarDecl → List VarDecl
  | [] => []
  | ⟨s, names, t⟩ :: fields => ⟨ρ.spot s, names.map ρ.name, revise ρ t⟩ :: reviseFields ρ fields

end

end TypeExpr

namespace Stmt

mutual

def revise (ρ : Revision) : Stmt → Stmt
  | assign s t v => assign (ρ.spot s) (t.revise ρ) (v.revise ρ)
  | ifThen s c yes none => ifThen (ρ.spot s) (c.revise ρ) (reviseEach ρ yes) none
  | ifThen s c yes (some no) => ifThen (ρ.spot s) (c.revise ρ) (reviseEach ρ yes) (some (reviseEach ρ no))
  | .while s c body => .while (ρ.spot s) (c.revise ρ) (reviseEach ρ body)
  | doWhile s body c => doWhile (ρ.spot s) (reviseEach ρ body) (c.revise ρ)
  | .for s n a b step body =>
    .for (ρ.spot s) (ρ.name n) (a.revise ρ) (b.revise ρ) (step.map (Expr.revise ρ)) (reviseEach ρ body)
  | switch s e cases none => switch (ρ.spot s) (e.revise ρ) (reviseCases ρ cases) none
  | switch s e cases (some d) => switch (ρ.spot s) (e.revise ρ) (reviseCases ρ cases) (some (reviseEach ρ d))
  | call s n args => call (ρ.spot s) (ρ.name n) (Expr.reviseEach ρ args)
  | scan s ts => scan (ρ.spot s) (Expr.reviseEach ρ ts)
  | print s es => print (ρ.spot s) (Expr.reviseEach ρ es)
  | .return s e => .return (ρ.spot s) (e.revise ρ)
  | block s body => block (ρ.spot s) (reviseEach ρ body)
  | unknown s => unknown s

def reviseEach (ρ : Revision) : List Stmt → List Stmt
  | [] => []
  | s :: ss => revise ρ s :: reviseEach ρ ss

def reviseCases (ρ : Revision) : List CaseClause → List CaseClause
  | [] => []
  | ⟨s, vs, body⟩ :: cs => ⟨ρ.spot s, Expr.reviseEach ρ vs, reviseEach ρ body⟩ :: reviseCases ρ cs

end

end Stmt

def VarDecl.revise (ρ : Revision) (d : VarDecl) : VarDecl :=
  ⟨ρ.spot d.span, d.names.map ρ.name, d.type.revise ρ⟩

def ConstDecl.revise (ρ : Revision) (d : ConstDecl) : ConstDecl :=
  ⟨ρ.spot d.span, ρ.name d.name, d.value.revise ρ⟩

def TypeDecl.revise (ρ : Revision) (d : TypeDecl) : TypeDecl :=
  ⟨ρ.spot d.span, ρ.name d.name, d.definition.revise ρ⟩

def Param.revise (ρ : Revision) (p : Param) : Param :=
  ⟨ρ.spot p.span, ρ.name p.name, p.type.revise ρ, p.byReference⟩

def Declarations.revise (ρ : Revision) (d : Declarations) : Declarations :=
  ⟨d.constants.map (ConstDecl.revise ρ), d.types.map (TypeDecl.revise ρ), reviseFields ρ d.vars⟩

def Routine.revise (ρ : Revision) (r : Routine) : Routine :=
  ⟨ρ.spot r.span, ρ.name r.name, r.params.map (Param.revise ρ), r.result.map (TypeExpr.revise ρ),
    r.locals.revise ρ, reviseEach ρ r.body⟩

def Program.revise (ρ : Revision) (p : Program) : Program :=
  ⟨ρ.spot p.span, ρ.name p.name, p.globals.revise ρ, p.functions.map (Routine.revise ρ),
    p.procedures.map (Routine.revise ρ), reviseEach ρ p.body⟩

/-! ## Small facts -/

variable (ρ : Revision)

lemma Token.value_revise_of_identifier (h : t.kind = .identifier) : (t.revise ρ).value = ρ.name t.value := by
  rw [revise, h, TokenKind.isWord, if_pos rfl]

lemma Token.value_revise_of_not_isWord (h : t.kind.isWord = false) : (t.revise ρ).value = t.value := by
  rw [revise, h, if_neg Bool.false_ne_true]

lemma Expr.reviseEach_eq_map (es : List Expr) : reviseEach ρ es = es.map (revise ρ) := by
  induction es with
  | nil => rfl
  | cons e es ih => rw [reviseEach, ih, map_cons]

lemma Expr.reviseEach_append (xs ys : List Expr) : reviseEach ρ (xs ++ ys) = reviseEach ρ xs ++ reviseEach ρ ys := by
  simp [reviseEach_eq_map]

lemma TypeExpr.reviseFields_eq_map (ds : List VarDecl) : reviseFields ρ ds = ds.map (.revise ρ) := by
  induction ds with
  | nil => rfl
  | cons d ds ih =>
    obtain ⟨s, names, t⟩ := d
    rw [reviseFields, ih, map_cons, VarDecl.revise]

lemma TypeExpr.reviseFields_append (xs ys : List VarDecl) :
    reviseFields ρ (xs ++ ys) = reviseFields ρ xs ++ reviseFields ρ ys := by
  simp [reviseFields_eq_map]

lemma Expr.revise_ne_index (h : ∀ s a is, e ≠ .index s a is) : ∀ s a is, e.revise ρ ≠ .index s a is := by
  cases e with
  | index s a is => exact absurd rfl (h s a is)
  | _ => simp [revise]

lemma Stmt.revise_ne_block {s : Stmt} (h : ∀ span body, s ≠ .block span body) :
    ∀ span body, s.revise ρ ≠ .block span body := by
  cases s with
  | block span body => exact absurd rfl (h span body)
  | ifThen _ _ _ no => cases no <;> simp [revise]
  | switch _ _ _ d => cases d <;> simp [revise]
  | _ => simp [revise]

namespace Grammar

/-! ## Derivations -/

lemma spot_spanning (h : ts ≠ []) : ρ.spot (spanning ts) = spanning (ts.map (.revise ρ)) := by
  unfold spanning
  rw [head?_map, getLast?_map, head?_eq_some_head h, getLast?_eq_some_getLast h]
  exact ρ.spot_through _ _

lemma spot_spanning_cons (t : Token) (ts : List Token) :
    ρ.spot (spanning (t :: ts)) = spanning ((t :: ts).map (.revise ρ)) :=
  spot_spanning ρ (cons_ne_nil t ts)

lemma spot_spanning_append (xs : List Token) (t : Token) (ys : List Token) :
    ρ.spot (spanning (xs ++ t :: ys)) = spanning ((xs ++ t :: ys).map (.revise ρ)) :=
  spot_spanning ρ (append_ne_nil_of_right_ne_nil xs (cons_ne_nil t ys))

lemma IsNames.revise {names} (h : IsNames ts names) : IsNames (ts.map (.revise ρ)) (names.map ρ.name) := by
  induction h with
  | one hn =>
    simp only [map_cons, map_nil, ← value_revise_of_identifier ρ hn]
    exact .one hn
  | more hn hcomma _ ih =>
    simp only [map_cons, ← value_revise_of_identifier ρ hn]
    exact .more hn hcomma ih

lemma IsOptional.revise {kind} (h : IsOptional kind ts) : IsOptional kind (ts.map (.revise ρ)) := by
  cases h with
  | absent => exact .absent
  | present ht => exact .present ht

lemma IsLiteral.revise (h : IsLiteral t e) : IsLiteral (t.revise ρ) (e.revise ρ) := by
  cases h with
  | integer hk | real hk | string hk | char hk =>
    rw [Expr.revise, spot_spanning_cons, ← value_revise_of_not_isWord ρ (by rw [hk]; rfl)]
    constructor
    exact hk
  | yes hk =>
    rw [Expr.revise, spot_spanning_cons]
    exact .yes hk
  | no hk =>
    rw [Expr.revise, spot_spanning_cons]
    exact .no hk

mutual

lemma IsExpr.revise {k ts e} : IsExpr k ts e → IsExpr k (ts.map (.revise ρ)) (e.revise ρ)
  | .tighten hk h => .tighten hk h.revise
  | .binary hk ht ha hb => by
    rw [Expr.revise, spot_spanning_append, map_append, map_cons]
    exact .binary hk ht ha.revise hb.revise
  | .power ht ha hb => by
    rw [Expr.revise, spot_spanning_append, map_append, map_cons]
    exact .power ht ha.revise hb.revise
  | .sign ht h => by
    rw [Expr.revise, spot_spanning_cons, map_cons]
    exact .sign ht h.revise
  | .paren ho h hc => by
    rw [Expr.revise, spot_spanning_cons, map_cons, map_append]
    exact .paren ho h.revise hc
  | .literal h => .literal (h.revise ρ)
  | .access h => .access h.revise

lemma IsAccess.revise {called ts e} : IsAccess called ts e → IsAccess called (ts.map (.revise ρ)) (e.revise ρ)
  | .name hn => by
    rw [Expr.revise, spot_spanning_cons, ← value_revise_of_identifier ρ hn]
    exact .name hn
  | .call hn ho hargs hc => by
    rw [Expr.revise, spot_spanning_cons, ← value_revise_of_identifier ρ hn, map_cons, map_cons, map_append]
    exact .call hn ho hargs.revise hc
  | .index h hne ho his hc => by
    rw [Expr.revise, spot_spanning_append, map_append, map_cons, map_append]
    exact .index h.revise (Expr.revise_ne_index ρ hne) ho his.revise hc
  | .further h ho hjs hc => by
    have ih := h.revise
    rw [Expr.revise] at ih
    rw [Expr.revise, spot_spanning_append, Expr.reviseEach_append, map_append, map_cons, map_append]
    exact .further ih ho hjs.revise hc
  | .field h hd hn => by
    rw [Expr.revise, spot_spanning_append, ← value_revise_of_identifier ρ hn, map_append]
    exact .field h.revise hd hn

lemma IsExprs.revise {ts es} : IsExprs ts es → IsExprs (ts.map (.revise ρ)) (Expr.reviseEach ρ es)
  | .one h => .one h.revise
  | .more h hcomma hs => by
    rw [map_append, map_cons]
    exact .more h.revise hcomma hs.revise

lemma IsArguments.revise {ts es} : IsArguments ts es → IsArguments (ts.map (.revise ρ)) (Expr.reviseEach ρ es)
  | .none => .none
  | .some h => .some h.revise

end

lemma IsTargets.revise {es} (h : IsTargets ts es) : IsTargets (ts.map (.revise ρ)) (Expr.reviseEach ρ es) := by
  induction h with
  | one h => exact .one (h.revise ρ)
  | more h hcomma _ ih =>
    rw [map_append, map_cons]
    exact .more (h.revise ρ) hcomma ih

lemma IsConstant.revise (h : IsConstant ts e) : IsConstant (ts.map (.revise ρ)) (e.revise ρ) := by
  cases h with
  | literal h => exact .literal (h.revise ρ)
  | negInteger hm h =>
    rw [Expr.revise, spot_spanning_cons]
    exact .negInteger hm (h.revise ρ)
  | negReal hm h =>
    rw [Expr.revise, spot_spanning_cons]
    exact .negReal hm (h.revise ρ)

lemma IsDimensions.revise {es} (h : IsDimensions ts es) : IsDimensions (ts.map (.revise ρ)) (Expr.reviseEach ρ es) := by
  induction h with
  | one ho h hc =>
    rw [map_cons, map_append]
    exact .one ho (h.revise ρ) hc
  | more ho h hc _ ih =>
    rw [map_cons, map_append, map_cons]
    exact .more ho (h.revise ρ) hc ih

mutual

lemma IsType.revise {ts t} : IsType ts t → IsType (ts.map (.revise ρ)) (t.revise ρ)
  | .primitive hp => by
    rw [TypeExpr.revise, spot_spanning_cons]
    exact .primitive hp
  | .named ht => by
    rw [TypeExpr.revise, spot_spanning_cons, ← value_revise_of_identifier ρ ht]
    exact .named ht
  | .enumeration ho h hc => by
    rw [TypeExpr.revise, spot_spanning_cons, map_cons, map_append]
    exact .enumeration ho (h.revise ρ) hc
  | .array ha hds ho ht => by
    rw [TypeExpr.revise, spot_spanning_cons, map_cons, map_append, map_cons]
    exact .array ha (hds.revise ρ) ho ht.revise
  | .record hs hb h he => by
    rw [TypeExpr.revise, spot_spanning_cons, map_cons, map_cons, map_append]
    exact .record hs hb h.revise he

lemma IsVarDecls.revise {ts ds} : IsVarDecls ts ds → IsVarDecls (ts.map (.revise ρ)) (reviseFields ρ ds)
  | .nil => .nil
  | .cons hns hc ht hus hvs => by
    rw [reviseFields, spot_spanning_append]
    simp only [map_append, map_cons]
    exact .cons (hns.revise ρ) hc ht.revise (hus.revise ρ) hvs.revise

end

lemma IsForHeading.revise {n a b step} (h : IsForHeading ts n a b step) :
    IsForHeading (ts.map (.revise ρ)) (ρ.name n) (a.revise ρ) (b.revise ρ) (step.map (.revise ρ)) := by
  cases h with
  | plain hn ha hx ht hy hd =>
    rw [← value_revise_of_identifier ρ hn]
    simp only [map_append, map_cons]
    exact .plain hn ha (hx.revise ρ) ht (hy.revise ρ) hd
  | stepped hn ha hx ht hy hs hz hd =>
    rw [← value_revise_of_identifier ρ hn]
    simp only [map_append, map_cons]
    exact .stepped hn ha (hx.revise ρ) ht (hy.revise ρ) hs (hz.revise ρ) hd

section

variable {m : Mode}

mutual

lemma IsStmt.revise {dangling ts s} : IsStmt m dangling ts s →
    IsStmt m dangling (ts.map (.revise ρ)) (s.revise ρ)
  | .ifThen hi ho he hc ht hy => by
    rw [Stmt.revise, spot_spanning_cons]
    simp only [map_append, map_cons]
    exact .ifThen hi ho (he.revise ρ) hc ht hy.revise
  | .ifElse hi ho he hc ht hy hinner hl hn => by
    rw [Stmt.revise, spot_spanning_cons]
    simp only [map_append, map_cons]
    exact .ifElse hi ho (he.revise ρ) hc ht hy.revise hinner hl hn.revise
  | .whileDo hw ho he hc hd hb => by
    rw [Stmt.revise, spot_spanning_cons]
    simp only [map_append, map_cons]
    exact .whileDo hw ho (he.revise ρ) hc hd hb.revise
  | .doWhile hd hb hw ho he hc => by
    rw [Stmt.revise, spot_spanning_cons]
    simp only [map_append, map_cons]
    exact .doWhile hd hb.revise hw ho (he.revise ρ) hc
  | .forDo hf hh hb => by
    rw [Stmt.revise, spot_spanning_cons]
    simp only [map_append, map_cons]
    exact .forDo hf (hh.revise ρ) hb.revise
  | .switch hs he hb hcs hn => by
    rw [Stmt.revise, spot_spanning_cons]
    simp only [map_append, map_cons]
    exact .switch hs (he.revise ρ) hb hcs.revise hn
  | .switchDefault hs he hb hcs hd hc hz hn => by
    rw [Stmt.revise, spot_spanning_cons]
    simp only [map_append, map_cons]
    exact .switchDefault hs (he.revise ρ) hb hcs.revise hd hc hz.revise hn
  | .return_ hr ho he hc => by
    rw [Stmt.revise, spot_spanning_cons]
    simp only [map_append, map_cons]
    exact .return_ hr ho (he.revise ρ) hc
  | .scan hs ho hts hc => by
    rw [Stmt.revise, spot_spanning_cons]
    simp only [map_append, map_cons]
    exact .scan hs ho (hts.revise ρ) hc
  | .print hp ho hes hc => by
    rw [Stmt.revise, spot_spanning_cons]
    simp only [map_append, map_cons]
    exact .print hp ho (hes.revise ρ) hc
  | .block hb hbody hn => by
    rw [Stmt.revise, spot_spanning_cons]
    simp only [map_append, map_cons]
    exact .block hb hbody.revise hn
  | .assign ht ha hv => by
    rw [Stmt.revise, spot_spanning_append]
    simp only [map_append, map_cons]
    exact .assign (ht.revise ρ) ha (hv.revise ρ)
  | .call hn => by
    rw [Stmt.revise, spot_spanning_cons, ← value_revise_of_identifier ρ hn]
    exact .call hn
  | .callWith hn ho hargs hc => by
    rw [Stmt.revise, spot_spanning_cons, ← value_revise_of_identifier ρ hn]
    simp only [map_append, map_cons]
    exact .callWith hn ho (hargs.revise ρ) hc

lemma IsBlock.revise {dangling ts body} :
    IsBlock m dangling ts body → IsBlock m dangling (ts.map (.revise ρ)) (reviseEach ρ body)
  | .list hb hbody hn => by
    rw [map_cons, map_append]
    exact .list hb hbody.revise hn
  | .single h hne => .single h.revise fun hm => revise_ne_block ρ (hne hm)

lemma IsStmts.revise {ts body} : IsStmts m ts body → IsStmts m (ts.map (.revise ρ)) (reviseEach ρ body)
  | .nil => .nil
  | .semicolon ht h => .semicolon ht h.revise
  | .cons h hs => by
    rw [map_append]
    exact .cons h.revise hs.revise

lemma IsCases.revise {ts cases} : IsCases m ts cases → IsCases m (ts.map (.revise ρ)) (reviseCases ρ cases)
  | .nil => .nil
  | .cons hk hvs hc hb hcs => by
    rw [reviseCases, spot_spanning_cons]
    simp only [map_append, map_cons]
    exact .cons hk (hvs.revise ρ) hc hb.revise hcs.revise

end

end

lemma IsConsts.revise {ds} (h : IsConsts ts ds) : IsConsts (ts.map (.revise ρ)) (ds.map (.revise ρ)) := by
  induction h with
  | nil => exact .nil
  | cons hn hq he hus _ ih =>
    rw [map_cons (f := ConstDecl.revise ρ), ConstDecl.revise, spot_spanning_cons, ← value_revise_of_identifier ρ hn]
    simp only [map_append, map_cons]
    exact .cons hn hq (he.revise ρ) (hus.revise ρ) ih

lemma IsTypeDecls.revise {ds : List TypeDecl} (h : IsTypeDecls ts ds) :
    IsTypeDecls (ts.map (.revise ρ)) (ds.map (.revise ρ)) := by
  induction h with
  | nil => exact .nil
  | cons hn hq ht hus _ ih =>
    rw [map_cons (f := TypeDecl.revise ρ), TypeDecl.revise, spot_spanning_cons, ← value_revise_of_identifier ρ hn]
    simp only [map_append, map_cons]
    exact .cons hn hq (ht.revise ρ) (hus.revise ρ) ih

lemma IsDecls.revise {d} (h : IsDecls ts d) : IsDecls (ts.map (.revise ρ)) (d.revise ρ) := by
  induction h with
  | nil => exact .nil
  | consts hk hcs _ ih =>
    simp only [map_append, map_cons, Declarations.revise]
    exact .consts (k := .revise ρ _) hk (hcs.revise ρ) ih
  | types hk hts _ ih =>
    simp only [map_append, map_cons, Declarations.revise]
    exact .types (k := .revise ρ _) hk (hts.revise ρ) ih
  | vars hk hvs _ ih =>
    simp only [map_append, map_cons, Declarations.revise, reviseFields_append]
    exact .vars (k := .revise ρ _) hk (hvs.revise ρ) ih

lemma IsParam.revise {p} (h : IsParam ts p) : IsParam (ts.map (.revise ρ)) (p.revise ρ) := by
  cases h with
  | byValue hn hc ht =>
    rw [Param.revise, spot_spanning_cons, ← value_revise_of_identifier ρ hn]
    exact .byValue hn hc (ht.revise ρ)
  | byReference hv hn hc ht =>
    rw [Param.revise, spot_spanning_cons, ← value_revise_of_identifier ρ hn]
    exact .byReference hv hn hc (ht.revise ρ)

lemma IsParamList.revise {ps} (h : IsParamList ts ps) : IsParamList (ts.map (.revise ρ)) (ps.map (.revise ρ)) := by
  induction h with
  | one h => exact .one (h.revise ρ)
  | more h hcomma _ ih =>
    rw [map_append, map_cons]
    exact .more (h.revise ρ) hcomma ih

lemma IsParams.revise {ps} (h : IsParams ts ps) : IsParams (ts.map (.revise ρ)) (ps.map (.revise ρ)) := by
  cases h with
  | none => exact .none
  | some h => exact .some (h.revise ρ)

section

variable {m : Mode}

lemma IsBody.revise {d body} (h : IsBody m ts d body) :
    IsBody m (ts.map (.revise ρ)) (d.revise ρ) (reviseEach ρ body) := by
  cases h with
  | mk hd hb hbody hn hus =>
    simp only [map_append, map_cons]
    exact .mk (hd.revise ρ) hb (hbody.revise ρ) hn (hus.revise ρ)

lemma IsRoutines.revise {functions procedures} (h : IsRoutines m ts functions procedures) :
    IsRoutines m (ts.map (.revise ρ)) (functions.map (.revise ρ)) (procedures.map (.revise ρ)) := by
  induction h with
  | nil => exact .nil
  | function hf hn ho hps hc hd ht hbody _ ih =>
    rw [map_cons (f := Routine.revise ρ), Routine.revise, spot_spanning_cons, ← value_revise_of_identifier ρ hn]
    simp only [map_append, map_cons]
    exact .function hf hn ho (hps.revise ρ) hc hd (ht.revise ρ) (hbody.revise ρ) ih
  | procedure hp hn ho hps hc hbody _ ih =>
    rw [map_cons (f := Routine.revise ρ), Routine.revise, spot_spanning_cons, ← value_revise_of_identifier ρ hn]
    simp only [map_append, map_cons]
    exact .procedure hp hn ho (hps.revise ρ) hc (hbody.revise ρ) ih

/-- **The grammar is closed under revision.** -/
lemma IsProgram.revise {p} (h : IsProgram m ts p) : IsProgram m (ts.map (.revise ρ)) (p.revise ρ) := by
  cases h with
  | mk ha hn hd hr hb hbody he hdot =>
    rw [Program.revise, spot_spanning_cons, ← value_revise_of_identifier ρ hn]
    simp only [map_append, map_cons]
    exact .mk ha hn (hd.revise ρ) (hr.revise ρ) hb (hbody.revise ρ) he hdot

end

end Grammar

end AlgoLang
