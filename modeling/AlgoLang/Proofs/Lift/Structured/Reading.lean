/-
# Lifted structured programs are read back

The words of a lifted block are derived by the grammar as the image of the block.  So a lifted structured
program is always read, as long as its numbers can be, and its body is the image of the body in C.
-/
import AlgoLang.Proofs.Grammar.ProgramComplete
import AlgoLang.Proofs.Lift.Structured.Block
import AlgoLang.Proofs.Token.Writes

namespace AlgoLang.Lift

open Text CSource Token Grammar Reading List
open String (toList_append)

/-! ## Lines -/

def Row.written (r : Content × Nat) : List Char :=
  List.replicate (4 * (1 + r.2)) ' ' ++ (r.1.text.toList ++ ['\n'])

def Line.written (l : Line) : List Char :=
  l.text.toList ++ ['\n']

lemma toList_lines (l : Line) (ls : List Line) :
    ("\n".intercalate ((l :: ls).map Line.text) ++ "\n").toList = (l :: ls).flatMap Line.written := by
  induction ls generalizing l with
  | nil =>
    simp [Line.written, toList_append]
  | cons l' ls ih =>
    rw [map_cons, map_cons, String.intercalate_cons_cons]
    have ih := ih l'
    rw [map_cons] at ih
    simp only [toList_append] at ih ⊢
    rw [append_assoc, ih]
    simp [Line.written]

lemma toList_join_replicate (n : Nat) : (String.join (replicate n "    ")).toList = replicate (4 * n) ' ' := by
  induction n with
  | zero => rfl
  | succ n ih =>
    rw [replicate_succ, String.join_cons, toList_append, ih, Nat.mul_add, Nat.add_comm, replicate_add]
    rfl

lemma flatMap_bodyLines (rows : List Row) :
    (bodyLines "    " rows).flatMap Line.written = (rows.map Row.shape).flatMap Row.written := by
  rw [bodyLines, flatMap_map, flatMap_map]
  refine flatMap_congr fun r _ => ?_
  rw [Line.written, indented, toList_append, toList_join_replicate, append_assoc]
  rfl

/-! ## Declarations -/

lemma exists_of_mem_declaredVariables {names : List CName} :
    ∀ u ∈ declaredVariables names, ∃ v : CName, u = ⟨safeName v.text, "INTEGER", []⟩ := by
  refine foldlRecOn names _ (motive := fun known : List Variable =>
    ∀ u ∈ known, ∃ v : CName, u = ⟨safeName v.text, "INTEGER", []⟩) nofun ?_
  intro known hknown v _ u hu
  rw [addVariables, foldl_cons, foldl_nil] at hu
  split at hu
  · exact hknown u hu
  · rcases mem_append.mp hu with hu | hu
    · exact hknown u hu
    · exact ⟨v, mem_singleton.mp hu⟩

/-- Variables that are all whole numbers stand on one line. -/
lemma variableLines_of_integers {vs : List Variable} (hvs : ∀ u ∈ vs, u.type = "INTEGER" ∧ u.dimensions = [])
    (hne : vs ≠ []) (indent : String) :
    variableLines indent vs = [.added (indent ++ ", ".intercalate (vs.map Variable.name) ++ " : " ++ "INTEGER")] := by
  have htypes : typesOf vs = ["INTEGER"] := by
    have hsame : ∀ us : List Variable, (∀ u ∈ us, u.type = "INTEGER") →
        us.foldl (fun ts v => if ts.contains v.type then ts else ts ++ [v.type]) ["INTEGER"] = ["INTEGER"] := by
      intro us hus
      induction us with
      | nil => rfl
      | cons u us ih =>
        rw [foldl_cons, hus u mem_cons_self]
        exact ih fun u' hu' => hus u' (mem_cons_of_mem u hu')
    cases vs with
    | nil => exact absurd rfl hne
    | cons u us =>
      rw [typesOf, foldl_cons, (hvs u mem_cons_self).1]
      exact hsame us fun u' hu' => (hvs u' (mem_cons_of_mem u hu')).1
  have hgroup : vs.filter (fun v => v.type == "INTEGER") = vs :=
    filter_eq_self.mpr fun u hu => beq_iff_eq.mpr (hvs u hu).1
  have hscalars : vs.filter (·.dimensions.isEmpty) = vs :=
    filter_eq_self.mpr fun u hu => by rw [(hvs u hu).2]; rfl
  have harrays : vs.filter (!·.dimensions.isEmpty) = [] :=
    filter_eq_nil_iff.mpr fun u hu => by rw [(hvs u hu).2]; decide
  rw [variableLines, htypes, flatMap_singleton, groupLines, hgroup]
  simp only [hscalars, harrays, map_nil, append_nil]
  rw [if_neg (by simpa using hne)]

/-! ## Programs -/

namespace CProgram

variable (p : CProgram)

def declaration : List Line :=
  titled [.added ""] "VAR" (variableLines "    " (declaredVariables p.vars))

lemma toList_code {code : String} (h : p.IsWrittenAs code) : (program code).code.toList =
    "ALGORITHM TranslatedProgram\n".toList ++ (p.declaration.flatMap Line.written ++
      ("\nBEGIN\n".toList ++ ((p.body.rows 0).flatMap Row.written ++ "END.\n".toList))) := by
  obtain ⟨rows, origin, stop, hrows, hprogram⟩ := p.exists_program h
  have hcode : (program code).code = "\n".intercalate
      (((p.sketch rows origin stop).lines "TranslatedProgram" "    ").map Line.text) ++ "\n" := by
    rw [hprogram]
    rfl
  have hlines : (p.sketch rows origin stop).lines "TranslatedProgram" "    " =
      .added ("ALGORITHM " ++ "TranslatedProgram") ::
        (p.declaration ++ .added "" :: .added "BEGIN" :: (bodyLines "    " rows ++ [⟨"END.", some stop⟩])) := by
    simp [Sketch.lines, sketch, declaration, constantLines, typeLines, titled]
  rw [hcode, hlines, toList_lines, ← hrows, ← flatMap_bodyLines]
  simp [Line.written, Line.added]

end CProgram

variable {ts : List Token} {text text' : List Char} {D : List Token → Prop}

/-! ## Trees without stretches of source -/

mutual

def bareStmt : Stmt → Stmt
  | .assign _ t v => .assign none (bare t) (bare v)
  | .ifThen _ c yes none => .ifThen none (bare c) (bareBlock yes) none
  | .ifThen _ c yes (some no) => .ifThen none (bare c) (bareBlock yes) (some (bareBlock no))
  | .while _ c body => .while none (bare c) (bareBlock body)
  | .doWhile _ body c => .doWhile none (bareBlock body) (bare c)
  | .for _ v a b step body => .for none v (bare a) (bare b) (step.map bare) (bareBlock body)
  | .switch _ e cases none => .switch none (bare e) (bareCases cases) none
  | .switch _ e cases (some d) => .switch none (bare e) (bareCases cases) (some (bareBlock d))
  | .call _ n args => .call none n (bareEach args)
  | .scan _ ts => .scan none (bareEach ts)
  | .print _ es => .print none (bareEach es)
  | .return _ e => .return none (bare e)
  | .block _ body => .block none (bareBlock body)
  | .unknown _ => .unknown none

def bareBlock : List Stmt → List Stmt
  | [] => []
  | s :: ss => bareStmt s :: bareBlock ss

def bareCases : List CaseClause → List CaseClause
  | [] => []
  | ⟨_, vs, body⟩ :: cs => ⟨none, bareEach vs, bareBlock body⟩ :: bareCases cs

end

/-! ## Expressions -/

lemma forall₂_isLifted {cs : List CToken} (h : ts.map Token.word = cs.map liftedWord) : Forall₂ IsLifted ts cs := by
  induction cs generalizing ts with
  | nil =>
    obtain rfl : ts = [] := map_eq_nil_iff.mp h
    exact .nil
  | cons c cs ih =>
    obtain ⟨t, ts, rfl, ht, hts⟩ := map_eq_cons_iff.mp h
    exact .cons ⟨congrArg Prod.fst ht, congrArg Prod.snd ht⟩ (ih hts)

/-- The tokens are read as the expression. -/
def ReadsAs (e : Expr) (ts : List Token) : Prop :=
  ∃ e', IsExpr .disjunction ts e' ∧ bare e' = e

/-- The tokens are read as something that can be assigned to. -/
def TargetAs (e : Expr) (ts : List Token) : Prop :=
  ∃ e', IsAccess false ts e' ∧ bare e' = e

lemma writes_words {us : List CToken} {cs : List Char} (hcs : ∀ rest more, Token.Apart rest → Spelled more rest →
      Spelled (us.map liftedWord ++ more) (cs ++ rest)) (hshort : ∀ ds, .number ds ∈ us → ds.length ≤ maxDigits) :
    AlgoLang.Writes cs Apart (Forall₂ IsLifted · us) :=
  ⟨us.map liftedWord, hcs, fun _ hts => ⟨short_of_lifted (forall₂_isLifted hts) hshort, forall₂_isLifted hts⟩⟩

lemma CFormula.writes_tokens (e : CFormula) (hshort : ∀ ds, .number ds ∈ e.tokens → ds.length ≤ maxDigits) :
    AlgoLang.Writes (liftExpr e.inner).toList Apart (Forall₂ IsLifted · e.tokens) :=
  writes_words (fun _ _ hrest h => .lifted e.regular.proper e.lifted_inner hrest h) hshort

/-- A lifted expression is read as its regrouped tree. -/
lemma CFormula.writes (e : CFormula) (hshort : ∀ ds, .number ds ∈ e.tokens → ds.length ≤ maxDigits) :
    AlgoLang.Writes (liftExpr e.inner).toList Apart (ReadsAs (regrouped e.tree)) :=
  (e.writes_tokens hshort).reads rfl fun _ => e.derives.lifted

lemma CName.writes (v : CName) :
    AlgoLang.Writes (liftExpr v.text.toList).toList Apart (TargetAs (.name none (safeName v.text))) := by
  have htokens := v.formula.writes_tokens (by simp [CName.formula])
  rw [v.inner_formula] at htokens
  exact htokens.reads rfl fun _ => (IsCAccess.name v.isName).lifted

/-! ## Lines -/

/-- A text of whole lines. -/
abbrev WritesLines (text : List Char) (D : List Token → Prop) : Prop :=
  AlgoLang.Writes text (fun _ => True) D

def StmtAs (dangling : Bool) (s : Stmt) (ts : List Token) : Prop :=
  ∃ s', IsStmt .resolved dangling ts s' ∧ bareStmt s' = s

def StmtsAs (body : List Stmt) (ts : List Token) : Prop :=
  ∃ body', IsStmts .resolved ts body' ∧ bareBlock body' = body

lemma writes_row (content : Content) (depth : Nat) (h : AlgoLang.Writes content.text.toList Apart D) :
    WritesLines (Row.written (content, depth)) D := by
  have hmargin : (replicate (4 * (1 + depth)) ' ').all isSpace :=
    all_eq_true.mpr fun c hc => eq_of_mem_replicate hc ▸ rfl
  exact (Writes.blank hmargin).behind (h.spaced '\n' rfl)

lemma writes_assign {target value : String} {t v : Expr} (ht : AlgoLang.Writes target.toList Apart (TargetAs t))
    (hv : AlgoLang.Writes value.toList Apart (ReadsAs v)) :
    AlgoLang.Writes (target ++ " <- " ++ value).toList Apart (StmtAs false (.assign none t v)) := by
  have hspelled : ∀ rest more, True → Spelled more rest →
      Spelled ((.mark .assign, "<-") :: more) ([' ', '<', '-', ' '] ++ rest) := by
    intro rest more _ h
    have hspace : Spelled more (' ' :: rest) := .space rfl h
    have harrow : Spelled ((.mark .assign, "<-") :: more) ('<' :: ['-'] ++ ' ' :: rest) := .word rfl rfl hspace
    exact .space rfl harrow
  have harrow : WritesLines _ (IsToken (.mark .assign)) := .word hspelled fun t ht _ => ⟨t, rfl, ht⟩
  refine (ht.append (harrow.before hv) fun _ _ => apart_cons rfl).reads (by simp [toList_append]) ?_
  rintro _ ⟨xs, _, rfl, ⟨target', hxs, rfl⟩, _, ys, rfl, ⟨a, rfl, ha⟩, value', hys, rfl⟩
  exact ⟨_, .assign hxs ha hys, rfl⟩

lemma writes_remark (r : CRemark) (depth : Nat) :
    WritesLines (Row.written (.plain ("// " ++ r.line), depth)) (· = []) := by
  have hline : '\n' ∉ ' ' :: (r.text ++ [';']) := by
    intro hmem
    have hcases : '\n' ∈ r.text := by simpa using hmem
    exact absurd (all_eq_true.mp r.inert _ hcases) (by decide)
  have hmargin : (replicate (4 * (1 + depth)) ' ').all isSpace :=
    all_eq_true.mpr fun c hc => eq_of_mem_replicate hc ▸ rfl
  refine .empty fun rest more _ h => ?_
  have hrow := (Spelled.remark hline (.space rfl h)).gap hmargin
  simpa [Row.written, CRemark.line, Content.text] using hrow

/-- A keyword, the expression in parentheses, and what is as `D` says. -/
def HeadedAs (k : Keyword) (e : Expr) (D : List Token → Prop) (ts : List Token) : Prop :=
  ∃ i o xs r ys e', ts = i :: o :: (xs ++ r :: ys) ∧ i.kind = .keyword k ∧ o.kind = .mark .lparen ∧
    IsExpr .disjunction xs e' ∧ bare e' = e ∧ r.kind = .mark .rparen ∧ D ys

lemma writes_heading (line : String) {w : String} {k : Keyword}
    (hw : AlgoLang.Writes w.toList Parted (IsToken (.keyword k)))
    (c : CFormula) (hshort : ∀ ds, .number ds ∈ c.tokens → ds.length ≤ maxDigits) (htext : AlgoLang.Writes text Apart D)
    (hline : line.toList = w.toList ++ ' ' :: '(' :: ((liftExpr c.inner).toList ++ ')' :: text)) (depth : Nat) :
    WritesLines (Row.written (.plain line, depth)) (HeadedAs k (regrouped c.tree) D) := by
  have hspace : AlgoLang.Writes [' '] (fun _ => True) (· = []) := .blank rfl
  have hcondition : WritesLines _ _ := (c.writes hshort).parens
  refine writes_row (.plain line) depth ((hw.append (hspace.behind (hcondition.before htext))
    fun _ _ => parted_cons rfl).reads (by simp [Content.text, hline]) ?_)
  rintro _ ⟨_, _, rfl, ⟨i, rfl, hi⟩, _, ys, rfl, ⟨o, xs, r, rfl, ho, ⟨e, he, hbare⟩, hr⟩, hys⟩
  exact ⟨i, o, xs, r, ys, e, by simp, hi, ho, he, hbare, hr, hys⟩

lemma writes_if (c : CFormula) (hshort : ∀ ds, .number ds ∈ c.tokens → ds.length ≤ maxDigits) (depth : Nat) :
    WritesLines (Row.written (.plain ("IF (" ++ liftExpr c.inner ++ ") THEN"), depth))
      (HeadedAs .if_ (regrouped c.tree) (IsToken (.keyword .then_))) := by
  have hspace : WritesLines [' '] (· = []) := .blank rfl
  have hthen := hspace.behind (Writes.keyword "THEN" .then_ rfl rfl).apart
  exact writes_heading _ (.keyword "IF" .if_ rfl rfl) c hshort hthen (by simp [toList_append]) depth

lemma writes_block {body : List Stmt} (h : WritesLines text (StmtsAs body)) (depth : Nat) :
    WritesLines (Row.written (.begin_, depth) ++ (text ++ Row.written (.end_, depth))) fun ts =>
      ∃ body', IsBlock .resolved false ts body' ∧ bareBlock body' = body := by
  have hbegin : WritesLines (Row.written (.begin_, depth)) _ :=
    writes_row .begin_ depth (Writes.keyword "BEGIN" .begin_ rfl rfl).apart
  refine (hbegin.before (h.before (writes_row .end_ depth (Writes.keyword "END" .end_ rfl rfl).apart))).reads rfl ?_
  rintro _ ⟨_, _, rfl, ⟨o, rfl, ho⟩, ts, _, rfl, ⟨body', hts, hbare⟩, n, rfl, hn⟩
  exact ⟨body', .list ho hts hn, hbare⟩

lemma writes_cons (dangling : Bool) (s : Stmt) {all : List Char} {body : List Stmt} (h : WritesLines text D)
    (hD : ∀ ts, D ts → StmtAs dangling s ts) (h' : WritesLines text' (StmtsAs body)) (hall : all = text ++ text') :
    WritesLines all (StmtsAs (s :: body)) := by
  refine (h.before h').reads hall ?_
  rintro _ ⟨xs, ys, rfl, hxs, body', hbody, rfl⟩
  obtain ⟨s', hs, rfl⟩ := hD xs hxs
  exact ⟨s' :: body', .cons hs hbody, rfl⟩

/-! ## Blocks -/

lemma CBlock.writes (b : CBlock) (h : ∀ e ∈ b.formulas, ∀ ds, .number ds ∈ e.tokens → ds.length ≤ maxDigits)
    (depth : Nat) : WritesLines ((b.rows depth).flatMap Row.written) (StmtsAs b.image) := by
  have hspace : WritesLines [' '] (· = []) := .blank rfl
  induction b generalizing depth with
  | done => exact (Writes.blank rfl).reads rfl fun _ hts => ⟨[], hts ▸ .nil, rfl⟩
  | assign v e b ih =>
    obtain ⟨he, hb⟩ := forall_mem_cons.mp h
    exact writes_cons _ _ (writes_row (.plain _) depth (writes_assign v.writes (e.writes he))) (fun _ h => h) (ih hb depth)
      (by simp [rows])
  | remark r b ih => exact ((writes_remark r depth).behind (ih h depth)).reads (by simp [rows]) fun _ h => h
  | branch c yes b ihYes ih =>
    simp only [formulas, cons_append, forall_mem_cons, forall_mem_append] at h
    have hif := writes_if c h.1 depth
    have hyes := writes_block (ihYes h.2.1 (depth + 1)) depth
    refine writes_cons true (.ifThen none (regrouped c.tree) yes.image none) (hif.before hyes) ?_
      (ih h.2.2 depth) (by simp [rows])
    rintro _ ⟨_, ys, rfl, ⟨i, o, xs, r, _, e, rfl, hi, ho, he, hbare, hr, t, rfl, ht⟩, body, hbody, hbare'⟩
    exact ⟨_, by simpa using .ifThen hi ho he hr ht hbody, by rw [bareStmt, hbare, hbare']⟩
  | choice c yes no b ihYes ihNo ih =>
    simp only [formulas, cons_append, forall_mem_cons, forall_mem_append] at h
    have hif := writes_if c h.1 depth
    have hyes := writes_block (ihYes h.2.1.1 (depth + 1)) depth
    have helse := writes_row (.plain "ELSE") depth (Writes.keyword "ELSE" .else_ rfl rfl).apart
    have hno := helse.before (writes_block (ihNo h.2.1.2 (depth + 1)) depth)
    refine writes_cons false (.ifThen none (regrouped c.tree) yes.image (some no.image))
      (hif.before (hyes.before hno)) ?_ (ih h.2.2 depth) (by simp [rows])
    rintro _ ⟨_, _, rfl, ⟨i, o, xs, r, _, e, rfl, hi, ho, he, hbare, hr, t, rfl, ht⟩, ys, _, rfl,
      ⟨body, hbody, hbare'⟩, _, zs, rfl, ⟨l, rfl, hl⟩, body', hbody', hbare''⟩
    exact ⟨_, by simpa using .ifElse hi ho he hr ht hbody (fun _ => rfl) hl hbody',
      by rw [bareStmt, hbare, hbare', hbare'']⟩
  | loop c body b ihBody ih =>
    simp only [formulas, cons_append, forall_mem_cons, forall_mem_append] at h
    have hwhile := writes_heading ("WHILE (" ++ liftExpr c.inner ++ ") DO")
      (.keyword "WHILE" .while_ rfl rfl) c h.1 (hspace.behind (Writes.keyword "DO" .do_ rfl rfl).apart)
      (by simp [toList_append]) depth
    have hbody := writes_block (ihBody h.2.1 (depth + 1)) depth
    refine writes_cons false (.while none (regrouped c.tree) body.image) (hwhile.before hbody) ?_
      (ih h.2.2 depth) (by simp [rows])
    rintro _ ⟨_, ys, rfl, ⟨w, o, xs, r, _, e, rfl, hw, ho, he, hbare, hr, d, rfl, hd⟩, body, hbody, hbare'⟩
    exact ⟨_, by simpa using .whileDo hw ho he hr hd hbody, by rw [bareStmt, hbare, hbare']⟩
  | «repeat» body c b ihBody ih =>
    simp only [formulas, forall_mem_cons, forall_mem_append] at h
    have hdo := writes_row (.plain "DO") depth (Writes.keyword "DO" .do_ rfl rfl).apart
    have hbody := writes_block (ihBody h.1 (depth + 1)) depth
    have hwhile := writes_heading ("WHILE (" ++ liftExpr c.inner ++ ")") (.keyword "WHILE" .while_ rfl rfl) c h.2.1
      (.blank (show [].all isSpace from rfl)) (by simp [toList_append]) depth
    refine writes_cons false (.doWhile none body.image (regrouped c.tree))
      (hdo.before (hbody.before hwhile)) ?_ (ih h.2.2 depth) (by simp [rows])
    rintro _ ⟨_, _, rfl, ⟨d, rfl, hd⟩, ys, _, rfl, ⟨body, hbody, hbare'⟩, w, o, xs, r, _, e, rfl, hw, ho, he, hbare, hr,
      rfl⟩
    exact ⟨_, by simpa using .doWhile hd hbody hw ho he hr, by rw [bareStmt, hbare, hbare']⟩

/-! ## Programs -/

namespace CProgram

variable (p : CProgram)

def declaredNames : List String :=
  (declaredVariables p.vars).map Variable.name

lemma isName_of_mem_declaredNames : ∀ n ∈ p.declaredNames, IsName n := by
  intro n hn
  obtain ⟨u, hu, rfl⟩ := mem_map.mp hn
  obtain ⟨v, rfl⟩ := exists_of_mem_declaredVariables u hu
  refine ⟨?_, ofName?_safeName v.all_isNameChar⟩
  have hword := v.isWord
  show isWordPiece (safeName v.text).toList
  rw [safeName]
  split
  · obtain ⟨c, cs, hfront, -⟩ := v.exists_front
    rw [hfront, isWordPiece, Bool.and_eq_true] at hword
    rw [toList_append, hfront, cons_append, isWordPiece, hword.1, all_append, hword.2]
    rfl
  · exact hword

lemma writes_declaration : WritesLines (p.declaration.flatMap Line.written) fun ts =>
    ∃ decls, IsDecls ts decls ∧ decls.vars.flatMap VarDecl.names = p.declaredNames := by
  by_cases hnil : declaredVariables p.vars = []
  · rw [declaration, declaredNames, hnil]
    exact (Writes.blank rfl).reads rfl fun _ hts => ⟨{}, hts ▸ .nil, rfl⟩
  · have hintegers : ∀ u ∈ declaredVariables p.vars, u.type = "INTEGER" ∧ u.dimensions = [] := by
      intro u hu
      obtain ⟨v, rfl⟩ := exists_of_mem_declaredVariables u hu
      exact ⟨rfl, rfl⟩
    have hnames : AlgoLang.Writes (", ".intercalate (p.declaredNames.map id)).toList Apart (IsNames · p.declaredNames) := by
      refine .list ?_ ?_ (fun n hn => (p.isName_of_mem_declaredNames n hn).writes.apart) (by simpa [declaredNames])
      · rintro n _ ⟨t, rfl, ht, rfl⟩
        exact .one ht
      · rintro n _ c ys ns ⟨t, rfl, ht, rfl⟩ hc hys
        exact .more ht hc hys
    have hnames : WritesLines _ _ := hnames.spaced ' ' rfl
    have hvar : WritesLines _ _ := (Writes.keyword "VAR" .var rfl rfl).apart.spaced '\n' rfl
    have hmargin : WritesLines "    ".toList (· = []) := .blank rfl
    have hend : WritesLines ['\n'] (· = []) := .blank rfl
    have hcolon : WritesLines _ (IsToken (.mark .colon)) := (Writes.mark (c := ':') fun _ => ⟨rfl, rfl⟩).spaced ' ' rfl
    have htype : WritesLines _ _ := (Writes.keyword "INTEGER" .integer rfl rfl).apart.spaced '\n' rfl
    refine (hend.behind (hvar.before (hmargin.behind (hnames.before (hcolon.before htype))))).reads ?_ ?_
    · rw [declaration, variableLines_of_integers hintegers hnil]
      simp [titled, Line.added, Line.written, toList_append, declaredNames]
    · rintro _ ⟨_, _, rfl, ⟨k, rfl, hk⟩, xs, _, rfl, hxs, _, _, rfl, ⟨c, rfl, hc⟩, t, rfl, ht⟩
      have htype : IsType [t] (.primitive (spanning [t]) .integer) := .primitive (by rw [ht]; exact mem_cons_self)
      have hdecls := IsDecls.vars hk (.cons hxs hc htype .absent .nil) .nil
      exact ⟨_, by simpa using hdecls, by simp⟩

lemma writes_end : WritesLines "END.\n".toList fun ts =>
    ∃ e d, ts = [e, d] ∧ e.kind = .keyword .end_ ∧ d.kind = .mark .dot := by
  have hdot : WritesLines _ (IsToken (.mark .dot)) := (Writes.mark (c := '.') fun _ => ⟨rfl, rfl⟩).spaced '\n' rfl
  refine ((Writes.keyword "END" .end_ rfl rfl).append hdot fun _ _ => parted_cons rfl).reads (by simp) ?_
  rintro _ ⟨_, _, rfl, ⟨e, rfl, he⟩, d, rfl, hd⟩
  exact ⟨e, d, rfl, he, hd⟩

/-- A lifted structured program is read, and its body is the image of the body in C. -/
lemma exists_ofSource {code : String} (hcode : p.IsWrittenAs code) (hshort : p.HasShortNumbers) :
    ∃ q, Program.ofSource (program code).code = .ok (.ok q) ∧ bareBlock q.body = p.body.image ∧
      q.globals.vars.flatMap VarDecl.names = p.declaredNames := by
  have halgorithm : WritesLines _ _ := (Writes.keyword "ALGORITHM" .algorithm rfl rfl).apart.spaced ' ' rfl
  have hname : WritesLines _ _ := (IsName.writes (n := "TranslatedProgram") ⟨rfl, rfl⟩).apart.spaced '\n' rfl
  have hend : WritesLines ['\n'] (· = []) := .blank rfl
  have hbegin : WritesLines _ _ := (Writes.keyword "BEGIN" .begin_ rfl rfl).apart.spaced '\n' rfl
  have hbody := (p.body.writes hshort 0).before writes_end
  have hrest := p.writes_declaration.before (hend.behind (hbegin.before hbody))
  have hall := (halgorithm.before (hname.before hrest)).reads
    (p.toList_code hcode) fun _ h => h
  obtain ⟨hfaults, -, hshort, _, _, heq, ⟨a, rfl, ha⟩, _, _, rfl, ⟨n, rfl, hn, -⟩, xs, _, rfl, ⟨globals, hxs, hnames⟩,
    _, _, rfl, ⟨b, rfl, hb⟩, zs, _, rfl, ⟨body, hzs, hbare⟩, e, d, rfl, he, hd⟩ :=
      (hall.mono (fun _ _ => trivial) fun _ h => h).parses defaultFile
  have hread := IsProgram.mk ha hn hxs .nil hb hzs he hd
  have hread := hread.ofScanned_eq (program code).code (show _ <+: (scan (program code).code).tokens by simp [heq]) hshort
  have hsource (q : Program) (hq : Program.ofScanned (scan (program code).code) (program code).code = .ok (.ok q)) :
      Program.ofSource (program code).code = .ok (.ok q) := by
    rw [Program.ofSource, hfaults, hq]
    rfl
  exact ⟨_, hsource _ hread, hbare, hnames⟩

/-- **A lifted structured program is read.**  Let no number have more than `maxDigits` digits.  The program is
lifted, the warnings name just the statements without counterpart, in their order, and what is read from the
result has the image of its body for a body: without those statements, which are kept as comments. -/
theorem lifted_reads {code : String} (hcode : p.IsWrittenAs code) (hshort : p.HasShortNumbers) :
    (program code).success = true ∧ (program code).warnings = p.body.remarks.map CRemark.warning ∧
      ∃ q, Program.ofSource (program code).code = .ok (.ok q) ∧ bareBlock q.body = p.body.image := by
  obtain ⟨rows, origin, stop, -, hprogram⟩ := p.exists_program hcode
  obtain ⟨q, hq, hbody, -⟩ := p.exists_ofSource hcode hshort
  refine ⟨?_, ?_, q, hq, hbody⟩
  · rw [hprogram]
    rfl
  · rw [hprogram]
    rfl

end CProgram

lemma isUncontrolled_gotoOut : IsUncontrolled ("goto out".toList ++ [';']) := by
  refine .of_words ?_ ?_ ?_ ?_ ?_ ?_ ?_ ?_ <;> decide

lemma hasNoCounterpart_gotoOut : HasNoCounterpart "goto out".toList :=
  .inr (.inr ⟨by decide, by cbv, by decide +kernel⟩)

def gotoOut : CRemark where
  text := "goto out".toList
  inert := by decide
  nested := by decide
  ne_nil := by decide
  trimmed := by decide
  uncontrolled := isUncontrolled_gotoOut
  noCounterpart := hasNoCounterpart_gotoOut

/-- A program with a jump out of its loop, and with a name that the algorithmic language reserves. -/
def jumpingOut : CProgram :=
  let n : CName := ⟨"n", by decide, by decide⟩
  let «end» : CName := ⟨"end", by decide, by decide⟩
  let isName (v : CName) : IsCExpr .primary [.word v.text] (.name none (safeName v.text)) := .access (.name v.isName)
  let ten : IsCExpr .primary [.number "10"] (.integer none 10) := .number (by decide) (by decide)
  let below : CFormula :=
    { tokens := [.word "n", .sign .less, .number "10"]
      tree := .binary none .lt (.name none (safeName "n")) (.integer none 10)
      text := "n < 10".toList
      derives := (IsCExpr.binary (k := .relation) rfl (by decide) ((isName n).ofPrimary _) (ten.ofPrimary _)).loosest
      spells := laid_of_isLaid rfl
      free := by decide }
  let minus : CFormula :=
    { tokens := [.sign .minus, .word "n"]
      tree := .unary none .neg (.name none (safeName "n"))
      text := "-n".toList
      derives := (IsCExpr.sign (by decide) ((isName n).ofPrimary _)).loosest
      spells := laid_of_isLaid rfl
      free := by decide }
  { vars := [n, «end»]
    body := .loop below (.branch «end».formula (.remark gotoOut .done) <| .assign «end» minus .done) .done
    result := some n.formula }

def jumpingOutText : String :=
  "\n".intercalate ["int main() \x7b", "  int n;", "  int end;", "", "  while (n < 10) \x7b", "    if (end) \x7b",
    "      goto out;", "    \x7d", "    end = -n;", "  \x7d", "  return n;", "\x7d"]

theorem lifted_reads_jumpingOut :
    jumpingOut.IsWrittenAs jumpingOutText ∧ jumpingOut.HasShortNumbers ∧ (program jumpingOutText).success = true ∧
      (program jumpingOutText).warnings = ["Unsupported C construct kept as comment: goto out;"] ∧
      ∃ q, Program.ofSource (program jumpingOutText).code = .ok (.ok q) ∧
        bareBlock q.body = jumpingOut.body.image := by
  have hcode : jumpingOut.IsWrittenAs jumpingOutText := by decide +kernel
  have hten : "10".length ≤ maxDigits := by decide
  have hshort : jumpingOut.HasShortNumbers := by
    simpa [CProgram.HasShortNumbers, jumpingOut, CBlock.formulas, CName.formula] using hten
  exact ⟨hcode, hshort, jumpingOut.lifted_reads hcode hshort⟩

/-! ## A name that cannot be read -/

def underscored : String :=
  "int main()\x7bint _x;\x7d"

lemma splitFragments_underscored : splitFragments (expand [] underscored).lines =
      [⟨"int main()\x7b".toList, 0⟩, ⟨"int _x;".toList, 0⟩, ⟨"\x7d".toList, 0⟩] := by
  have hexpand : (expand [] underscored).lines = [(underscored.toList, 0)] := by cbv
  rw [hexpand]
  decide +kernel

lemma program_underscored : (program underscored).success ∧ (program underscored).warnings = [] ∧
    (program underscored).code = "ALGORITHM TranslatedProgram\n\nVAR\n    _x : INTEGER\n\nBEGIN\nEND.\n" := by
  unfold program
  rw [if_neg (by decide +kernel)]
  unfold programLines
  dsimp only
  rw [splitFragments_underscored]
  dsimp only [fragments, startLevel]
  rw [fragment_main _ rfl, (expand_nil underscored).2]
  decide +kernel

/-- Such a name is lifted without a warning, and the result is no program. -/
theorem underscored_not_read : (program underscored).success = true ∧ (program underscored).warnings = [] ∧
    ∀ q, Program.ofSource (program underscored).code ≠ .ok (.ok q) := by
  obtain ⟨hsuccess, hwarnings, hcode⟩ := program_underscored
  refine ⟨hsuccess, hwarnings, fun q hq => ?_⟩
  have hfaults : (Token.scan (program underscored).code).faults.isEmpty = false := by
    rw [hcode]
    decide +kernel
  rw [Program.ofSource, hfaults] at hq
  cases hq

end AlgoLang.Lift
