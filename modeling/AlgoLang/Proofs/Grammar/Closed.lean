/-
# What is derived has no gaps

A tree is closed if no operand is missing and no node of an unknown kind, all its constants are literals and
all its reals are numbers; its names and characters can be bound to a stock of spellings.  Every rule of the
grammar derives closed trees from closed parts, with the spellings of their tokens.
-/
import AlgoLang.C.Expr
import AlgoLang.Proofs.Grammar
import AlgoLang.Proofs.Number.Rounding

namespace AlgoLang

open List

variable {e : Expr} {t : Token} {x : Binary64} {m : Mode}

/-! ## Closed trees -/

/-- The spellings of names and of character literals that a tree is made with. -/
structure Stock where
  name : String → Prop
  char : String → Prop

def Stock.any : Stock :=
  ⟨fun _ => True, fun _ => True⟩

/-- The tokens are spelled with the stock. -/
def Stock.Has (S : Stock) (ts : List Token) : Prop :=
  ∀ t ∈ ts, (t.kind = .identifier → S.name t.value) ∧ (t.kind = .char → S.char t.value)

section

variable (S : Stock)

/-- Nothing in the expression is missing or of an unknown kind, and its reals are numbers. -/
inductive Expr.Made : Expr → Prop
  | integer {s : Option Span} {n : Int} : Made (.integer s n)
  | real {s : Option Span} {x : Binary64} : x ≠ .undefined → Made (.real s x)
  | boolean {s : Option Span} {b : Bool} : Made (.boolean s b)
  | char {s : Option Span} {c : String} {h : S.char c} : Made (.char s c)
  | string {s : Option Span} {text : String} : Made (.string s text)
  | name {s : Option Span} {n : String} {h : S.name n} : Made (.name s n)
  | binary {s : Option Span} {op : BinaryOp} {l r : Expr} : Made l → Made r → Made (.binary s op l r)
  | unary {s : Option Span} {op : UnaryOp} {e : Expr} : Made e → Made (.unary s op e)
  | index {s : Option Span} {a : Expr} {is : List Expr} : Made a → (∀ i ∈ is, Made i) → Made (.index s a is)
  | field {s : Option Span} {o : Expr} {f : String} {h : S.name f} : Made o → Made (.field s o f)
  | call {s : Option Span} {n : String} {args : List Expr} {h : S.name n} : (∀ a ∈ args, Made a) → Made (.call s n args)
  | paren {s : Option Span} {e : Expr} : Made e → Made (.paren s e)

inductive TypeExpr.Made : TypeExpr → Prop
  | primitive {s : Option Span} {p : Primitive} : Made (.primitive s p)
  | array {s : Option Span} {ds : List Expr} {t : TypeExpr} : (∀ d ∈ ds, d.Made S) → Made t → Made (.array s ds t)
  | record {s : Option Span} {fields : List VarDecl} {h : ∀ f ∈ fields, ∀ n ∈ f.names, S.name n} :
      (∀ f ∈ fields, Made f.type) → Made (.record s fields)
  | enumeration {s : Option Span} {vs : List String} {h : ∀ v ∈ vs, S.name v} : Made (.enumeration s vs)
  | named {s : Option Span} {n : String} {h : S.name n} : Made (.named s n)

inductive Stmt.Made : Stmt → Prop
  | assign {s : Option Span} {t v : Expr} : t.Made S → v.Made S → Made (.assign s t v)
  | ifThen {s : Option Span} {c : Expr} {yes : List Stmt} {no : Option (List Stmt)} :
      c.Made S → (∀ x ∈ yes, Made x) → (∀ body ∈ no, ∀ x ∈ body, Made x) → Made (.ifThen s c yes no)
  | while {s : Option Span} {c : Expr} {body : List Stmt} : c.Made S → (∀ x ∈ body, Made x) → Made (.while s c body)
  | doWhile {s : Option Span} {body : List Stmt} {c : Expr} : (∀ x ∈ body, Made x) → c.Made S → Made (.doWhile s body c)
  | for {s : Option Span} {n : String} {a b : Expr} {step : Option Expr} {body : List Stmt} {h : S.name n} :
      a.Made S → b.Made S → (∀ e ∈ step, e.Made S) → (∀ x ∈ body, Made x) → Made (.for s n a b step body)
  | switch {s : Option Span} {e : Expr} {cases : List CaseClause} {default : Option (List Stmt)} :
      e.Made S → (∀ c ∈ cases, ∀ v ∈ c.values, v.Made S) → (∀ c ∈ cases, ∀ x ∈ c.body, Made x) →
      (∀ body ∈ default, ∀ x ∈ body, Made x) → Made (.switch s e cases default)
  | call {s : Option Span} {n : String} {args : List Expr} {h : S.name n} :
      (∀ a ∈ args, a.Made S) → Made (.call s n args)
  | scan {s : Option Span} {ts : List Expr} : (∀ t ∈ ts, t.Made S) → Made (.scan s ts)
  | print {s : Option Span} {es : List Expr} : (∀ e ∈ es, e.Made S) → Made (.print s es)
  | return {s : Option Span} {e : Expr} : e.Made S → Made (.return s e)
  | block {s : Option Span} {body : List Stmt} : (∀ x ∈ body, Made x) → Made (.block s body)

/-- Constants are literals, and all parts are closed. -/
structure Declarations.Made (d : Declarations) : Prop where
  constants : ∀ c ∈ d.constants, c.value.isLiteral
  values : ∀ c ∈ d.constants, c.value.Made S
  types : ∀ t ∈ d.types, t.definition.Made S
  vars : ∀ v ∈ d.vars, v.type.Made S
  constantNames : ∀ c ∈ d.constants, S.name c.name
  typeNames : ∀ t ∈ d.types, S.name t.name
  varNames : ∀ v ∈ d.vars, ∀ n ∈ v.names, S.name n

structure Routine.Made (r : Routine) : Prop where
  params : ∀ p ∈ r.params, p.type.Made S
  result : ∀ t ∈ r.result, t.Made S
  locals : r.locals.Made S
  body : ∀ s ∈ r.body, s.Made S
  name : S.name r.name
  paramNames : ∀ p ∈ r.params, S.name p.name

structure Program.Made (p : Program) : Prop where
  globals : p.globals.Made S
  routines : ∀ r ∈ p.routines, r.Made S
  body : ∀ s ∈ p.body, s.Made S
  name : S.name p.name

end

abbrev Program.Closed : Program → Prop := Program.Made .any

namespace Binary64

lemma RoundsTo.ne_undefined {q} (h : RoundsTo q x) : x ≠ undefined := by
  cases h <;> simp

lemma ofLiteral_ne_undefined (text : String) : ofLiteral text ≠ undefined :=
  (ofDecimal_roundsTo _ _).ne_undefined

lemma negate_ne_undefined (h : x ≠ undefined) : x.negate ≠ undefined := by
  cases x with
  | undefined => exact absurd rfl h
  | finite => simp [negate]
  | infinite => simp [negate]

end Binary64

section

variable {S : Stock} {ts us : List Token}

lemma Stock.Has.name (h : S.Has (t :: ts)) (ht : t.kind = .identifier) : S.name t.value :=
  (h t mem_cons_self).1 ht

lemma Stock.Has.tail (h : S.Has (t :: ts)) : S.Has ts :=
  fun u hu => h u (mem_cons_of_mem t hu)

lemma Stock.Has.left (h : S.Has (ts ++ us)) : S.Has ts :=
  fun u hu => h u (mem_append_left us hu)

lemma Stock.Has.right (h : S.Has (ts ++ us)) : S.Has us :=
  fun u hu => h u (mem_append_right ts hu)

end

namespace Grammar

variable {S : Stock} {ts : List Token}

/-! ## Expressions -/

lemma IsLiteral.isLiteral (h : IsLiteral t e) : e.isLiteral := by
  cases h <;> rfl

lemma IsLiteral.made (h : IsLiteral t e) (hts : S.Has [t]) : e.Made S := by
  cases h with
  | real => exact .real (Binary64.ofLiteral_ne_undefined _)
  | char hk => exact .char (h := (hts t mem_cons_self).2 hk)
  | _ => constructor

lemma IsNames.made {names} (h : IsNames ts names) (hts : S.Has ts) : ∀ n ∈ names, S.name n := by
  induction h with
  | one hn => exact forall_mem_singleton.mpr (hts.name hn)
  | more hn _ _ ih => exact forall_mem_cons.mpr ⟨hts.name hn, ih hts.tail.tail⟩

mutual

lemma IsExpr.made {k ts e} : IsExpr k ts e → S.Has ts → e.Made S
  | .tighten _ h, hts => h.made hts
  | .binary _ _ hl hr, hts => .binary (hl.made hts.left) (hr.made hts.right.tail)
  | .power _ hl hr, hts => .binary (hl.made hts.left) (hr.made hts.right.tail)
  | .sign _ h, hts => .unary (h.made hts.tail)
  | .paren _ h _, hts => .paren (h.made hts.tail.left)
  | .literal h, hts => h.made hts
  | .access h, hts => h.made hts

lemma IsAccess.made {called ts e} : IsAccess called ts e → S.Has ts → e.Made S
  | .name hn, hts => .name (h := hts.name hn)
  | .call hn _ h _, hts => .call (h := hts.name hn) (h.made hts.tail.tail.left)
  | .index h _ _ his _, hts =>
    .index (h.made hts.left) (his.made hts.right.tail.left)
  | .further h _ hjs _, hts => by
    cases h.made hts.left with
    | index ha his =>
      exact .index ha (forall_mem_append.mpr ⟨his, hjs.made hts.right.tail.left⟩)
  | .field h _ hn, hts => .field (h := hts.right.tail.name hn) (h.made hts.left)

lemma IsExprs.made {ts es} : IsExprs ts es → S.Has ts → ∀ e ∈ es, e.Made S
  | .one h, hts => forall_mem_singleton.mpr (h.made hts)
  | .more h _ hs, hts =>
    forall_mem_cons.mpr ⟨h.made hts.left, hs.made hts.right.tail⟩

lemma IsArguments.made {ts es} : IsArguments ts es → S.Has ts → ∀ e ∈ es, e.Made S
  | .none, _ => forall_mem_nil _
  | .some h, hts => h.made hts

end

lemma IsTargets.made {es} (h : IsTargets ts es) (hts : S.Has ts) : ∀ e ∈ es, e.Made S := by
  induction h with
  | one h => exact forall_mem_singleton.mpr (h.made hts)
  | more h _ _ ih =>
    exact forall_mem_cons.mpr ⟨h.made hts.left, ih hts.right.tail⟩

lemma IsConstant.made (h : IsConstant ts e) (hts : S.Has ts) : e.Made S := by
  cases h with
  | literal h => exact h.made hts
  | negInteger => exact .integer
  | negReal _ h =>
    cases h.made (S := S) hts.tail with
    | real hx => exact .real (Binary64.negate_ne_undefined hx)

lemma IsConstant.isLiteral (h : IsConstant ts e) : e.isLiteral := by
  cases h with
  | literal h => exact h.isLiteral
  | negInteger => rfl
  | negReal => rfl

/-! ## Types -/

lemma IsDimensions.made {es} (h : IsDimensions ts es) (hts : S.Has ts) : ∀ e ∈ es, e.Made S := by
  induction h with
  | one _ h _ => exact forall_mem_singleton.mpr (h.made hts.tail.left)
  | more _ h _ _ ih =>
    exact forall_mem_cons.mpr ⟨h.made hts.tail.left, ih hts.tail.right.tail⟩

mutual

lemma IsType.made {ts t} : IsType ts t → S.Has ts → t.Made S
  | .primitive _, _ => .primitive
  | .named hn, hts => .named (h := hts.name hn)
  | .enumeration _ h _, hts => .enumeration (h := h.made hts.tail.left)
  | .array _ hds _ h, hts =>
    .array (hds.made hts.tail.left) (h.made hts.tail.right.tail)
  | .record _ _ h _, hts =>
    have hfields := h.made hts.tail.tail.left
    .record (h := hfields.2) hfields.1

lemma IsVarDecls.made {ts ds} : IsVarDecls ts ds → S.Has ts →
    (∀ d ∈ ds, d.type.Made S) ∧ ∀ d ∈ ds, ∀ n ∈ d.names, S.name n
  | .nil, _ => ⟨forall_mem_nil _, forall_mem_nil _⟩
  | .cons hnames _ h _ hs, hts =>
    have hds := hs.made hts.right.tail.right.right
    ⟨forall_mem_cons.mpr ⟨h.made hts.right.tail.left, hds.1⟩, forall_mem_cons.mpr ⟨hnames.made hts.left, hds.2⟩⟩

end

/-! ## Statements -/

lemma IsForHeading.made {n a b step} (h : IsForHeading ts n a b step)
    (hts : S.Has ts) : S.name n ∧ a.Made S ∧ b.Made S ∧ ∀ e ∈ step, e.Made S := by
  cases h with
  | plain hn _ ha _ hb _ =>
    exact ⟨hts.name hn, ha.made hts.tail.tail.left, hb.made hts.tail.tail.right.tail.left, by simp⟩
  | stepped hn _ ha _ hb _ hs _ =>
    exact ⟨hts.name hn, ha.made hts.tail.tail.left,
      hb.made hts.tail.tail.right.tail.left, by simpa using hs.made hts.tail.tail.right.tail.right.tail.left⟩

mutual

lemma IsStmt.made {m d ts s} : IsStmt m d ts s → S.Has ts → s.Made S
  | .ifThen _ _ hc _ _ hyes, hts =>
    .ifThen (hc.made hts.tail.tail.left) (hyes.made hts.tail.tail.right.tail.tail) (by simp)
  | .ifElse _ _ hc _ _ hyes _ _ hno, hts =>
    .ifThen (hc.made hts.tail.tail.left) (hyes.made hts.tail.tail.right.tail.tail.left)
      (by simpa using hno.made hts.tail.tail.right.tail.tail.right.tail)
  | .whileDo _ _ hc _ _ hbody, hts =>
    .while (hc.made hts.tail.tail.left) (hbody.made hts.tail.tail.right.tail.tail)
  | .doWhile _ hbody _ _ hc _, hts =>
    .doWhile (hbody.made hts.tail.left) (hc.made hts.tail.right.tail.tail.left)
  | .forDo _ hh hbody, hts =>
    have ⟨hn, ha, hb, hstep⟩ := hh.made hts.tail.left
    .for (h := hn) ha hb hstep (hbody.made hts.tail.right)
  | .switch _ he _ hcases _, hts =>
    have hclauses := hcases.made hts.tail.right.tail.left
    .switch (he.made hts.tail.left) hclauses.1 hclauses.2 (by simp)
  | .switchDefault _ he _ hcases _ _ hbody _, hts =>
    have hclauses := hcases.made hts.tail.right.tail.left
    .switch (he.made hts.tail.left) hclauses.1 hclauses.2
      (by simpa using hbody.made hts.tail.right.tail.right.tail.tail.left)
  | .return_ _ _ h _, hts => .return (h.made hts.tail.tail.left)
  | .scan _ _ h _, hts => .scan (h.made hts.tail.tail.left)
  | .print _ _ h _, hts => .print (h.made hts.tail.tail.left)
  | .block _ h _, hts => .block (h.made hts.tail.left)
  | .assign ht _ hv, hts =>
    .assign (ht.made hts.left) (hv.made hts.right.tail)
  | .call hn, hts => .call (h := hts.name hn) (forall_mem_nil _)
  | .callWith hn _ h _, hts => .call (h := hts.name hn) (h.made hts.tail.tail.left)

lemma IsBlock.made {m d ts body} : IsBlock m d ts body → S.Has ts → ∀ s ∈ body, s.Made S
  | .list _ h _, hts => h.made hts.tail.left
  | .single h _, hts => forall_mem_singleton.mpr (h.made hts)

lemma IsStmts.made {m ts body} : IsStmts m ts body → S.Has ts → ∀ s ∈ body, s.Made S
  | .nil, _ => forall_mem_nil _
  | .semicolon _ h, hts => h.made hts.tail
  | .cons h hs, hts =>
    forall_mem_cons.mpr ⟨h.made hts.left, hs.made hts.right⟩

lemma IsCases.made {m ts cases} : IsCases m ts cases → S.Has ts →
    (∀ c ∈ cases, ∀ v ∈ c.values, v.Made S) ∧ ∀ c ∈ cases, ∀ s ∈ c.body, s.Made S
  | .nil, _ => ⟨forall_mem_nil _, forall_mem_nil _⟩
  | .cons _ hvs _ hbody hs, hts =>
    have hcases := hs.made hts.tail.right.tail.right
    ⟨forall_mem_cons.mpr ⟨hvs.made hts.tail.left, hcases.1⟩,
      forall_mem_cons.mpr ⟨hbody.made hts.tail.right.tail.left, hcases.2⟩⟩

end

/-! ## Declarations, routines and programs -/

lemma IsConsts.made {ds} (h : IsConsts ts ds) (hts : S.Has ts) :
    (∀ d ∈ ds, d.value.isLiteral) ∧ (∀ d ∈ ds, d.value.Made S) ∧ ∀ d ∈ ds, S.name d.name := by
  induction h with
  | nil => exact ⟨forall_mem_nil _, forall_mem_nil _, forall_mem_nil _⟩
  | cons hn _ h _ _ ih =>
    obtain ⟨hliterals, hvalues, hnames⟩ := ih hts.tail.tail.right.right
    exact ⟨forall_mem_cons.mpr ⟨h.isLiteral, hliterals⟩, forall_mem_cons.mpr ⟨h.made hts.tail.tail.left, hvalues⟩,
      forall_mem_cons.mpr ⟨hts.name hn, hnames⟩⟩

lemma IsTypeDecls.made {ds : List TypeDecl} (h : IsTypeDecls ts ds) (hts : S.Has ts) :
    (∀ d ∈ ds, d.definition.Made S) ∧ ∀ d ∈ ds, S.name d.name := by
  induction h with
  | nil => exact ⟨forall_mem_nil _, forall_mem_nil _⟩
  | cons hn _ h _ _ ih =>
    obtain ⟨htypes, hnames⟩ := ih hts.tail.tail.right.right
    exact ⟨forall_mem_cons.mpr ⟨h.made hts.tail.tail.left, htypes⟩, forall_mem_cons.mpr ⟨hts.name hn, hnames⟩⟩

lemma IsDecls.made {d} (h : IsDecls ts d) (hts : S.Has ts) : d.Made S := by
  induction h with
  | nil => constructor <;> exact forall_mem_nil _
  | consts _ h _ ih =>
    have ih := ih hts.tail.right
    obtain ⟨hliterals, hvalues, hnames⟩ := h.made (S := S) hts.tail.left
    exact { ih with
      constants := forall_mem_append.mpr ⟨hliterals, ih.constants⟩
      values := forall_mem_append.mpr ⟨hvalues, ih.values⟩
      constantNames := forall_mem_append.mpr ⟨hnames, ih.constantNames⟩ }
  | types _ h _ ih =>
    have ih := ih hts.tail.right
    obtain ⟨htypes, hnames⟩ := h.made (S := S) hts.tail.left
    exact { ih with
      types := forall_mem_append.mpr ⟨htypes, ih.types⟩
      typeNames := forall_mem_append.mpr ⟨hnames, ih.typeNames⟩ }
  | vars _ h _ ih =>
    have ih := ih hts.tail.right
    obtain ⟨htypes, hnames⟩ := h.made (S := S) hts.tail.left
    exact { ih with
      vars := forall_mem_append.mpr ⟨htypes, ih.vars⟩
      varNames := forall_mem_append.mpr ⟨hnames, ih.varNames⟩ }

lemma IsParam.made {p} (h : IsParam ts p) (hts : S.Has ts) : p.type.Made S ∧ S.name p.name := by
  cases h with
  | byValue hn _ h => exact ⟨h.made hts.tail.tail, hts.name hn⟩
  | byReference _ hn _ h => exact ⟨h.made hts.tail.tail.tail, hts.tail.name hn⟩

lemma IsParams.made {ps} (h : IsParams ts ps) (hts : S.Has ts) : ∀ p ∈ ps, p.type.Made S ∧ S.name p.name := by
  cases h with
  | none => exact forall_mem_nil _
  | some h =>
    induction h with
    | one h => exact forall_mem_singleton.mpr (h.made hts)
    | more h _ _ ih =>
      exact forall_mem_cons.mpr ⟨h.made hts.left, ih hts.right.tail⟩

lemma IsBody.made {locals body} (h : IsBody m ts locals body)
    (hts : S.Has ts) : locals.Made S ∧ ∀ s ∈ body, s.Made S := by
  cases h with
  | mk hdecls _ hbody _ _ =>
    exact ⟨hdecls.made hts.left, hbody.made hts.right.tail.left⟩

lemma IsRoutines.made {functions procedures}
    (h : IsRoutines m ts functions procedures) (hts : S.Has ts) : ∀ r ∈ functions ++ procedures, r.Made S := by
  rw [forall_mem_append]
  induction h with
  | nil => exact ⟨forall_mem_nil _, forall_mem_nil _⟩
  | function _ hn _ hparams _ _ hresult hbody _ ih =>
    have ih := ih hts.tail.tail.tail.right.tail.tail.right.right
    have hps := hparams.made (S := S) hts.tail.tail.tail.left
    have hresult := hresult.made (S := S) hts.tail.tail.tail.right.tail.tail.left
    have hbody := hbody.made (S := S) hts.tail.tail.tail.right.tail.tail.right.left
    refine ⟨forall_mem_cons.mpr ⟨?_, ih.1⟩, ih.2⟩
    exact ⟨fun p hp => (hps p hp).1, by simpa using hresult, hbody.1, hbody.2, hts.tail.name hn,
      fun p hp => (hps p hp).2⟩
  | procedure _ hn _ hparams _ hbody _ ih =>
    have ih := ih hts.tail.tail.tail.right.tail.right
    have hps := hparams.made (S := S) hts.tail.tail.tail.left
    have hbody := hbody.made (S := S) hts.tail.tail.tail.right.tail.left
    refine ⟨ih.1, forall_mem_cons.mpr ⟨?_, ih.2⟩⟩
    exact ⟨fun p hp => (hps p hp).1, by simp, hbody.1, hbody.2, hts.tail.name hn, fun p hp => (hps p hp).2⟩

lemma IsProgram.made {p} (h : IsProgram m ts p) (hts : S.Has ts) : p.Made S := by
  cases h with
  | mk _ hn hglobals hroutines _ hbody _ _ =>
    exact ⟨hglobals.made hts.tail.tail.left, hroutines.made hts.tail.tail.right.left,
      hbody.made hts.tail.tail.right.right.tail.left, hts.tail.name hn⟩

lemma IsProgram.closed {p} (h : IsProgram m ts p) : p.Closed :=
  h.made fun _ _ => ⟨fun _ => trivial, fun _ => trivial⟩

end Grammar

end AlgoLang
