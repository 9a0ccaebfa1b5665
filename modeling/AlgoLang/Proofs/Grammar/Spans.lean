/-
# Where the parts of a program stand

A part is derived from a stretch of tokens, and its own parts from stretches inside of that one, in their
order (`Grown`, `Strewn`).  Scanned tokens stand one behind the other, so spans lie in each other as the parts
do, and those of neighbours do not overlap.
-/
import AlgoLang.Node
import AlgoLang.Proofs.Ensures
import AlgoLang.Proofs.Grammar.ProgramComplete
import AlgoLang.Proofs.Token.Tiling

namespace AlgoLang

open List

/-! ## Parts -/

/-- The parts of an expression, in the order of the source. -/
def Expr.parts : Expr → List Node
  | binary _ _ a b => [.expr a, .expr b]
  | unary _ _ e | paren _ e | field _ e _ => [.expr e]
  | index _ a is => .expr a :: is.map .expr
  | call _ _ args => args.map .expr
  | _ => []

/-- The parts of a statement, in the order of the source. -/
def Stmt.parts : Stmt → List Node
  | assign _ t v => [.expr t, .expr v]
  | ifThen _ c yes none => .expr c :: yes.map .stmt
  | ifThen _ c yes (some no) => .expr c :: (yes.map .stmt ++ no.map .stmt)
  | .while _ c body => .expr c :: body.map .stmt
  | doWhile _ body c => body.map .stmt ++ [.expr c]
  | .for _ _ a b step body => .expr a :: .expr b :: (step.toList.map .expr ++ body.map .stmt)
  | switch _ e cases none => .expr e :: cases.map .clause
  | switch _ e cases (some body) => .expr e :: (cases.map .clause ++ body.map .stmt)
  | call _ _ es | scan _ es | print _ es => es.map .expr
  | .return _ e => [.expr e]
  | block _ body => body.map .stmt
  | unknown _ => []

/-- The parts of a type, in the order of the source. -/
def TypeExpr.parts : TypeExpr → List Node
  | array _ ds t => ds.map .expr ++ [.type t]
  | record _ fields => fields.map .variable
  | _ => []

def Declarations.parts (d : Declarations) : List (List Node) :=
  [d.constants.map .constant, d.types.map .typeDecl, d.vars.map .variable]

/-- The parts of a part, in lists that follow the source.  Declarations of several kinds may be mixed, and
so may functions and procedures, so each kind has its list. -/
def Node.parts : Node → List (List Node)
  | program p => p.globals.parts ++ [p.functions.map .routine, p.procedures.map .routine, p.body.map .stmt]
  | routine r => r.locals.parts ++ [r.params.map .param ++ r.result.toList.map .type, r.body.map .stmt]
  | constant d => [[.expr d.value]]
  | typeDecl d => [[.type d.definition]]
  | .variable d => [[.type d.type]]
  | param p => [[.type p.type]]
  | clause c => [c.values.map .expr ++ c.body.map .stmt]
  | stmt s => [s.parts]
  | type t => [t.parts]
  | expr e => [e.parts]

/-- A part at any depth. -/
inductive Node.Within (root : Node) : Node → Prop
  | self : Within root root
  | part {n m : Node} {ms : List Node} : Within root n → ms ∈ n.parts → m ∈ ms → Within root m

/-- The part has the span, which reaches from the start of a token to the end of one.  It is not empty, the
spans of the part's own parts lie in it, and in each list of them those that come first end first. -/
structure Node.Situated (toks : List Token) (n : Node) (s : Span) : Prop where
  span_eq : n.span = some s
  start : ∃ t ∈ toks, s.start = t.start
  stop : ∃ t ∈ toks, s.stop = t.stop
  nonempty : s.start.offset < s.stop.offset
  inside : ∀ ms ∈ n.parts, ∀ m ∈ ms, ∃ r, m.span = some r ∧
    s.start.offset ≤ r.start.offset ∧ r.stop.offset ≤ s.stop.offset
  apart : ∀ ms ∈ n.parts, ms.Pairwise fun m m' =>
    ∃ r r', m.span = some r ∧ m'.span = some r' ∧ r.stop.offset ≤ r'.start.offset

namespace Grammar

variable {toks xs ys ts : List Token} {t : Token} {n : Node} {ns ms : List Node}

mutual

/-- The part has the span of the tokens, and its own parts are strewn over them. -/
inductive Grown : List Token → Node → Prop
  | mk {ts : List Token} {n : Node} : n.span = spanning ts → ts ≠ [] → (∀ ns ∈ n.parts, Strewn ts ns) → Grown ts n

/-- The parts grow from tokens one behind the other, maybe with others between them. -/
inductive Strewn : List Token → List Node → Prop
  | nil {ts : List Token} : Strewn ts []
  | skip {t : Token} {ts : List Token} {ns : List Node} : Strewn ts ns → Strewn (t :: ts) ns
  | cons {xs ys : List Token} {n : Node} {ns : List Node} : Grown xs n → Strewn ys ns → Strewn (xs ++ ys) (n :: ns)

end

lemma Grown.one (h : Grown ts n) : Strewn ts [n] := by
  have hone := Strewn.cons h (.nil : Strewn [] [])
  rwa [append_nil] at hone

lemma Strewn.after (h : Strewn ys ns) (xs : List Token) : Strewn (xs ++ ys) ns := by
  induction xs with
  | nil => exact h
  | cons t xs ih => exact .skip ih

lemma Strewn.append {xs ns} : Strewn xs ns → Strewn ys ms → Strewn (xs ++ ys) (ns ++ ms)
  | .nil, h' => h'.after _
  | .skip h, h' => .skip (h.append h')
  | .cons hn h, h' => by
    rw [append_assoc, cons_append]
    exact .cons hn (h.append h')

lemma Strewn.before (h : Strewn xs ns) (ys : List Token) : Strewn (xs ++ ys) ns := by
  have hmore := h.append (.nil : Strewn ys [])
  rwa [append_nil] at hmore

lemma Grown.cons (h : Grown xs n) (hs : Strewn ys ns) (hts : ts = xs ++ ys := by simp) : Strewn ts (n :: ns) :=
  hts ▸ .cons h hs

/-- A part whose own parts form one list. -/
lemma grown (hspan : n.span = spanning ts) (h : Strewn ts ns) (hparts : n.parts = [ns] := by rfl)
    (hne : ts ≠ [] := by simp) : Grown ts n :=
  .mk hspan hne (hparts ▸ forall_mem_singleton.mpr h)

/-! ## Expressions and types -/

lemma IsLiteral.grown {e} (h : IsLiteral t e) : Grown [t] (.expr e) := by
  cases h <;> exact Grammar.grown rfl .nil

mutual

lemma IsExpr.grown {k ts e} : IsExpr k ts e → Grown ts (.expr e)
  | .tighten _ h => h.grown
  | .binary _ _ ha hb | .power _ ha hb => grown rfl (ha.grown.one.append hb.grown.one.skip)
  | .sign _ h => grown rfl h.grown.one.skip
  | .paren _ h _ => grown rfl (h.grown.one.before _).skip
  | .literal h | .access h => h.grown

lemma IsAccess.grown {called ts e} : IsAccess called ts e → Grown ts (.expr e)
  | .name _ => grown rfl .nil
  | .call _ _ hargs _ => grown rfl (hargs.strewn.before _).skip.skip
  | .index h _ _ his _ => grown rfl (h.grown.one.append (his.strewn.before _).skip)
  | .further h _ hjs _ => by
    -- The indices before are parts of the same access.
    obtain ⟨-, -, hparts⟩ := h.grown
    have his := hparts _ (mem_singleton_self _)
    exact grown rfl (his.append (hjs.strewn.before _).skip) (by simp [Node.parts, Expr.parts])
  | .field h _ _ => grown rfl (h.grown.one.before _)

lemma IsExprs.strewn {ts es} : IsExprs ts es → Strewn ts (es.map .expr)
  | .one h => h.grown.one
  | .more h _ hs => h.grown.one.append hs.strewn.skip

lemma IsArguments.strewn {ts es} : IsArguments ts es → Strewn ts (es.map .expr)
  | .none => .nil
  | .some h => h.strewn

end

lemma IsTargets.strewn {es} (h : IsTargets ts es) : Strewn ts (es.map .expr) := by
  induction h with
  | one h => exact h.grown.one
  | more h _ _ ih => exact h.grown.one.append ih.skip

lemma IsConstant.grown {e} (h : IsConstant ts e) : Grown ts (.expr e) := by
  cases h with
  | literal h => exact h.grown
  | negInteger | negReal => exact grown rfl .nil

lemma IsDimensions.strewn {es} (h : IsDimensions ts es) : Strewn ts (es.map .expr) := by
  induction h with
  | one _ h _ => exact (h.grown.one.before _).skip
  | more _ h _ _ ih => exact (h.grown.one.append ih.skip).skip

mutual

lemma IsType.grown {ts type} : IsType ts type → Grown ts (.type type)
  | .primitive _ | .named _ | .enumeration _ _ _ => grown rfl .nil
  | .array _ hds _ h => grown rfl (hds.strewn.append h.grown.one.skip).skip
  | .record _ _ h _ => grown rfl (h.strewn.before _).skip.skip

lemma IsVarDecls.strewn {ts decls} : IsVarDecls ts decls → Strewn ts (decls.map .variable)
  | .nil => .nil
  | .cons _ _ h _ hs => Grown.cons (grown rfl ((h.grown.one.before _).skip.after _)) hs.strewn

end

/-! ## Statements -/

lemma IsForHeading.strewn {counter first last step} (h : IsForHeading ts counter first last step) :
    Strewn ts (.expr first :: .expr last :: step.toList.map .expr) := by
  cases h with
  | plain _ _ hx _ hy _ => exact (hx.grown.one.append (hy.grown.one.before _).skip).skip.skip
  | stepped _ _ hx _ hy _ hz _ =>
    exact (hx.grown.one.append (hy.grown.one.append (hz.grown.one.before _).skip).skip).skip.skip

mutual

lemma IsStmt.grown {m dangling ts s} : IsStmt m dangling ts s → Grown ts (.stmt s)
  | .ifThen _ _ he _ _ hbody | .whileDo _ _ he _ _ hbody =>
    grown rfl (he.grown.one.append hbody.strewn.skip.skip).skip.skip
  | .ifElse _ _ he _ _ hyes _ _ hno =>
    grown rfl (he.grown.one.append (hyes.strewn.append hno.strewn.skip).skip.skip).skip.skip
  | .doWhile _ hbody _ _ he _ => grown rfl (hbody.strewn.append (he.grown.one.before _).skip.skip).skip
  | .forDo _ hheading hbody => grown rfl (hheading.strewn.append hbody.strewn).skip
  | .switch _ he _ hcases _ => grown rfl (he.grown.one.append (hcases.strewn.before _).skip).skip
  | .switchDefault _ he _ hcases _ _ hbody _ =>
    grown rfl (he.grown.one.append (hcases.strewn.append (hbody.strewn.before _).skip.skip).skip).skip
  | .return_ _ _ he _ => grown rfl (he.grown.one.before _).skip.skip
  | .scan _ _ h _ | .print _ _ h _ | .callWith _ _ h _ => grown rfl (h.strewn.before _).skip.skip
  | .block _ h _ => grown rfl (h.strewn.before _).skip
  | .assign ht _ hv => grown rfl (ht.grown.one.append hv.grown.one.skip)
  | .call _ => grown rfl .nil

lemma IsBlock.strewn {m dangling ts body} : IsBlock m dangling ts body → Strewn ts (body.map .stmt)
  | .list _ h _ => (h.strewn.before _).skip
  | .single h _ => h.grown.one

lemma IsStmts.strewn {m ts body} : IsStmts m ts body → Strewn ts (body.map .stmt)
  | .nil => .nil
  | .semicolon _ h => h.strewn.skip
  | .cons h hs => h.grown.one.append hs.strewn

lemma IsCases.strewn {m ts cases} : IsCases m ts cases → Strewn ts (cases.map .clause)
  | .nil => .nil
  | .cons _ hvalues _ hbody hs =>
    Grown.cons (grown rfl (hvalues.strewn.append hbody.strewn.skip).skip) hs.strewn

end

/-! ## Declarations and programs -/

lemma IsConsts.strewn {decls} (h : IsConsts ts decls) : Strewn ts (decls.map .constant) := by
  induction h with
  | nil => exact .nil
  | cons _ _ h _ _ ih => exact Grown.cons (grown rfl (h.grown.one.before _).skip.skip) ih

lemma IsTypeDecls.strewn {decls : List TypeDecl} (h : IsTypeDecls ts decls) : Strewn ts (decls.map .typeDecl) := by
  induction h with
  | nil => exact .nil
  | cons _ _ h _ _ ih => exact Grown.cons (grown rfl (h.grown.one.before _).skip.skip) ih

lemma IsDecls.strewn {d} (h : IsDecls ts d) : ∀ ns ∈ d.parts, Strewn ts ns := by
  simp only [Declarations.parts, forall_mem_cons]
  induction h with
  | nil => exact ⟨.nil, .nil, .nil, forall_mem_nil _⟩
  | consts _ h _ ih =>
    rw [map_append]
    exact ⟨(h.strewn.append ih.1).skip, (ih.2.1.after _).skip, (ih.2.2.1.after _).skip, forall_mem_nil _⟩
  | types _ h _ ih =>
    rw [map_append]
    exact ⟨(ih.1.after _).skip, (h.strewn.append ih.2.1).skip, (ih.2.2.1.after _).skip, forall_mem_nil _⟩
  | vars _ h _ ih =>
    rw [map_append]
    exact ⟨(ih.1.after _).skip, (ih.2.1.after _).skip, (h.strewn.append ih.2.2.1).skip, forall_mem_nil _⟩

lemma IsParam.grown {p} (h : IsParam ts p) : Grown ts (.param p) := by
  cases h with
  | byValue _ _ h => exact grown rfl h.grown.one.skip.skip
  | byReference _ _ _ h => exact grown rfl h.grown.one.skip.skip.skip

lemma IsParamList.strewn {ps} (h : IsParamList ts ps) : Strewn ts (ps.map .param) := by
  induction h with
  | one h => exact h.grown.one
  | more h _ _ ih => exact h.grown.one.append ih.skip

lemma IsParams.strewn {ps} (h : IsParams ts ps) : Strewn ts (ps.map .param) := by
  cases h with
  | none => exact .nil
  | some h => exact h.strewn

variable {m : Mode}

lemma IsBody.strewn {locals body} (h : IsBody m ts locals body) :
    (∀ ns ∈ locals.parts, Strewn ts ns) ∧ Strewn ts (body.map .stmt) := by
  obtain ⟨hlocals, -, hbody, -, -⟩ := h
  exact ⟨fun ns hns => (hlocals.strewn ns hns).before _, ((hbody.strewn.before _).skip.after _)⟩

lemma IsRoutines.strewn {functions procedures} (h : IsRoutines m ts functions procedures) :
    Strewn ts (functions.map .routine) ∧ Strewn ts (procedures.map .routine) := by
  induction h with
  | nil => exact ⟨.nil, .nil⟩
  | @function f n o c d ps ts xs ys params result locals body functions procedures _ _ _ hps _ _ hresult hbody _ ih =>
    obtain ⟨hlocals, hbody⟩ := hbody.strewn
    have hroutine : Grown (f :: n :: o :: (ps ++ c :: d :: (ts ++ xs)))
        (.routine ⟨spanning (f :: n :: o :: (ps ++ c :: d :: (ts ++ xs))), n.value, params, some result, locals, body⟩) := by
      refine .mk rfl (by simp) (forall_mem_append.mpr ⟨fun ns hns => ?_, forall_mem_cons.mpr ⟨?_, ?_⟩⟩)
      · exact (((hlocals ns hns).after ts).skip.skip.after ps).skip.skip.skip
      · exact (hps.strewn.append (hresult.grown.one.before xs).skip.skip).skip.skip.skip
      · exact forall_mem_singleton.mpr ((hbody.after ts).skip.skip.after ps).skip.skip.skip
    exact ⟨hroutine.cons ih.1, by simpa using ih.2.after (f :: n :: o :: (ps ++ c :: d :: (ts ++ xs)))⟩
  | @procedure p n o c ps xs ys params locals body functions procedures _ _ _ hps _ hbody _ ih =>
    obtain ⟨hlocals, hbody⟩ := hbody.strewn
    have hroutine : Grown (p :: n :: o :: (ps ++ c :: xs))
        (.routine ⟨spanning (p :: n :: o :: (ps ++ c :: xs)), n.value, params, none, locals, body⟩) := by
      refine .mk rfl (by simp) (forall_mem_append.mpr ⟨fun ns hns => ?_, forall_mem_cons.mpr ⟨?_, ?_⟩⟩)
      · exact ((hlocals ns hns).skip.after ps).skip.skip.skip
      · exact (hps.strewn.append .nil).skip.skip.skip
      · exact forall_mem_singleton.mpr (hbody.skip.after ps).skip.skip.skip
    exact ⟨by simpa using ih.1.after (p :: n :: o :: (ps ++ c :: xs)), hroutine.cons ih.2⟩

lemma IsProgram.grown {p} (h : IsProgram m ts p) : Grown ts (.program p) := by
  obtain ⟨-, -, hglobals, hroutines, -, hbody, -, -⟩ := h
  obtain ⟨hfunctions, hprocedures⟩ := hroutines.strewn
  refine .mk rfl (by simp) (forall_mem_append.mpr ⟨fun ns hns => ?_, ?_⟩)
  · exact ((hglobals.strewn ns hns).before _).skip.skip
  · simp only [forall_mem_cons]
    exact ⟨((hfunctions.before _).after _).skip.skip, ((hprocedures.before _).after _).skip.skip,
      (((hbody.strewn.before _).skip.after _).after _).skip.skip, forall_mem_nil _⟩

/-! ## The spans -/

/-- Tokens that are not empty, none of which reaches into a later one. -/
structure Apart (ts : List Token) : Prop where
  positive : ∀ t ∈ ts, 1 ≤ t.length
  ordered : ts.Pairwise fun t u => t.start.offset + (t.length : Int) ≤ u.start.offset

lemma Apart.sublist (h : Apart ts) (hsub : xs.Sublist ts) : Apart xs :=
  ⟨fun t ht => h.positive t (hsub.subset ht), h.ordered.sublist hsub⟩

lemma Apart.ends (h : Apart ts) {a b} (ha : ts.head? = some a) (hb : ts.getLast? = some b) (ht : t ∈ ts) :
    a.start.offset ≤ t.start.offset ∧ t.start.offset + (t.length : Int) ≤ b.start.offset + (b.length : Int) := by
  constructor
  · obtain ⟨ts', rfl⟩ := head?_eq_some_iff.mp ha
    rcases mem_cons.mp ht with rfl | ht
    · exact Int.le_refl _
    · have := (pairwise_cons.mp h.ordered).1 t ht
      omega
  · obtain ⟨ts', rfl⟩ := getLast?_eq_some_iff.mp hb
    rcases mem_append.mp ht with ht | ht
    · have := (pairwise_append.mp h.ordered).2.2 t ht b (by simp)
      omega
    · obtain rfl := mem_singleton.mp ht
      exact Int.le_refl _

lemma Grown.ends (h : Grown ts n) : ∃ a b, ts.head? = some a ∧ ts.getLast? = some b ∧
    n.span = some (a.through b) := by
  obtain ⟨hspan, hne, -⟩ := h
  obtain ⟨a, b, ha, hb⟩ := exists_ends hne
  exact ⟨a, b, ha, hb, hspan.trans (spanning_of_ends ha hb)⟩

lemma Strewn.exists_grown {ts ns} : Strewn ts ns → n ∈ ns → ∃ xs, xs.Sublist ts ∧ Grown xs n
  | .skip h, hn => by
    obtain ⟨xs, hsub, hgrown⟩ := h.exists_grown hn
    exact ⟨xs, hsub.cons _, hgrown⟩
  | .cons h hs, hn => by
    rcases mem_cons.mp hn with rfl | hn
    · exact ⟨_, sublist_append_left _ _, h⟩
    · obtain ⟨xs, hsub, hgrown⟩ := hs.exists_grown hn
      exact ⟨xs, hsub.trans (sublist_append_right _ _), hgrown⟩

lemma Strewn.pairwise {ts ns} : Strewn ts ns →
    ns.Pairwise fun n m => ∃ xs ys, (xs ++ ys).Sublist ts ∧ Grown xs n ∧ Grown ys m
  | .nil => .nil
  | .skip h => h.pairwise.imp fun ⟨xs, ys, hsub, hgrown⟩ => ⟨xs, ys, hsub.cons _, hgrown⟩
  | .cons h hs => by
    refine .cons (fun m hm => ?_) (hs.pairwise.imp ?_)
    · obtain ⟨ys, hsub, hgrown⟩ := hs.exists_grown hm
      exact ⟨_, ys, hsub.append_left _, h, hgrown⟩
    · exact fun ⟨xs, ys, hsub, hgrown⟩ => ⟨xs, ys, hsub.trans (sublist_append_right _ _), hgrown⟩

lemma Apart.situated (h : Apart toks) (hsub : ts.Sublist toks) (hgrown : Grown ts n) : ∃ s, n.Situated toks s := by
  obtain ⟨a, b, ha, hb, hspan⟩ := hgrown.ends
  obtain ⟨-, -, hparts⟩ := hgrown
  have hts := h.sublist hsub
  have hamem := mem_of_head? ha
  have hbmem := mem_of_getLast? hb
  refine ⟨a.through b, hspan, ⟨a, hsub.subset hamem, rfl⟩, ⟨b, hsub.subset hbmem, rfl⟩, ?_, ?_, ?_⟩
  · have hpos := hts.positive a hamem
    have hle := (hts.ends ha hb hamem).2
    simp only [Token.through, Token.stop]
    omega
  · intro ms hms m hm
    obtain ⟨xs, hxs, hm⟩ := (hparts ms hms).exists_grown hm
    obtain ⟨a', b', ha', hb', hspan'⟩ := hm.ends
    exact ⟨_, hspan', (hts.ends ha hb (hxs.subset (mem_of_head? ha'))).1,
      (hts.ends ha hb (hxs.subset (mem_of_getLast? hb'))).2⟩
  · intro ms hms
    refine (hparts ms hms).pairwise.imp fun ⟨xs, ys, hxs, hm, hm'⟩ => ?_
    obtain ⟨_, b', -, hb', hspan'⟩ := hm.ends
    obtain ⟨a'', _, ha'', -, hspan''⟩ := hm'.ends
    exact ⟨_, _, hspan', hspan'', (pairwise_append.mp (hts.sublist hxs).ordered).2.2 b' (mem_of_getLast? hb') a''
      (mem_of_head? ha'')⟩

lemma Grown.within {root} (h : Grown ts root) (hn : root.Within n) : ∃ xs, xs.Sublist ts ∧ Grown xs n := by
  induction hn with
  | self => exact ⟨ts, .refl ts, h⟩
  | part _ hms hm ih =>
    obtain ⟨xs, hxs, -, -, hparts⟩ := ih
    obtain ⟨ys, hys, hgrown⟩ := (hparts _ hms).exists_grown hm
    exact ⟨ys, hys.trans hxs, hgrown⟩

end Grammar

namespace Program

lemma exists_parse_of_ofSource {source file p} (h : ofSource source file = .ok (.ok p)) :
    ∃ taken, parse (Token.scan source file).tokens = .ok taken ∧ taken.value = p := by
  simp only [ofSource, ofScanned] at h
  split at h
  · split at h
    · next taken hparse => exact ⟨taken, hparse, by simpa [Except.map, Except.mapError] using h⟩
    · simp [Except.map] at h
    · simp [Except.map, Except.mapError] at h
  · simp at h

/-- Every part of a program that is read, at any depth, has a span from the start of a token to the end of
one.  It is not empty, it encloses the spans of the parts of the part, and those in one list follow each
other without an overlap. -/
theorem ofSource_spans (source file : String) {p : Program} (h : ofSource source file = .ok (.ok p)) {n : Node}
    (hn : (Node.program p).Within n) : ∃ s, n.Situated (Token.scan source file).tokens s := by
  obtain ⟨taken, hparse, rfl⟩ := exists_parse_of_ofSource h
  obtain ⟨ts, htoks, -, hprogram⟩ := Grammar.exists_isProgram_of_parse hparse
  have hrun := Token.scan_run source file
  have hapart : Grammar.Apart (Token.scan source file).tokens :=
    ⟨hrun.positive, hrun.ordered.2.sublist (by simp [Token.Scanned.all])⟩
  obtain ⟨xs, hxs, hgrown⟩ := hprogram.grown.within hn
  exact hapart.situated (hxs.trans (htoks ▸ sublist_append_left ts _)) hgrown

def loopText : String :=
  "ALGORITHM t VAR x: INTEGER; BEGIN WHILE (x < 9) DO x <- (x + 1) * 2; PRINT(x); END."

theorem ofSource_spans_loop : ∃ p, ofSource loopText "" = .ok (.ok p) ∧ p.body.length = 2 ∧
    ∀ s ∈ p.body, ∃ r, (Node.stmt s).Situated (Token.scan loopText "").tokens r := by
  obtain ⟨p, hp, hlength⟩ : ∃ p, ofSource loopText "" = .ok (.ok p) ∧ p.body.length = 2 :=
    exists_ok_ok (by decide +kernel)
  refine ⟨p, hp, hlength, fun s hs => ofSource_spans loopText "" hp ?_⟩
  exact .part .self (show p.body.map .stmt ∈ _ by simp [Node.parts]) (mem_map_of_mem hs)

end Program

end AlgoLang
