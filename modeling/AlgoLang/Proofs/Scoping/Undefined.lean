/-
# Where undefined names are reported

A name that stands for nothing is reported where it is mentioned, with one exception: the arguments of a call
are only looked at if the name that is called stands for a function.  If it does not, the call is reported in
their place.
-/
import AlgoLang.Proofs.Scoping.Writes

namespace AlgoLang

open List

variable {span : Option Span} {args : List Expr} {n : String}

namespace Scoping

/-- The name of a call in an expression, and where the call stands. -/
structure Callee where
  span : Option Span
  name : String

/-- A name that is mentioned in an expression, and the calls it is an argument of. -/
structure Mention where
  span : Option Span
  name : String
  calls : List Callee

/-- A mention inside the arguments of one more call. -/
def Mention.within (c : Callee) (m : Mention) : Mention :=
  { m with calls := c :: m.calls }

end Scoping

open Scoping

namespace Expr

mutual

/-- All names that are mentioned in an expression, except those of its calls and fields. -/
def mentions : Expr → List Mention
  | name span n => [⟨span, n, []⟩]
  | binary _ _ l r => mentions l ++ mentions r
  | unary _ _ e | paren _ e | field _ e _ => mentions e
  | index _ a is => mentions a ++ mentionsEach is
  | call span n args => (mentionsEach args).map (Mention.within ⟨span, n⟩)
  | _ => []

def mentionsEach : List Expr → List Mention
  | [] => []
  | e :: es => mentions e ++ mentionsEach es

end

end Expr

namespace Stmt

mutual

/-- The expressions of a statement. -/
def exprs : Stmt → List Expr
  | assign _ t v => [t, v]
  | ifThen _ c yes none => c :: exprsEach yes
  | ifThen _ c yes (some no) => c :: (exprsEach yes ++ exprsEach no)
  | .while _ c body | doWhile _ body c => c :: exprsEach body
  | .for _ _ a b step body => a :: b :: (step.toList ++ exprsEach body)
  | switch _ e cases none => e :: exprsCases cases
  | switch _ e cases (some d) => e :: (exprsCases cases ++ exprsEach d)
  | call _ _ es | scan _ es | print _ es => es
  | .return _ e => [e]
  | block _ body => exprsEach body
  | unknown _ => []

def exprsEach : List Stmt → List Expr
  | [] => []
  | s :: ss => exprs s ++ exprsEach ss

def exprsCases : List CaseClause → List Expr
  | [] => []
  | ⟨_, vs, body⟩ :: cs => vs ++ exprsEach body ++ exprsCases cs

end

end Stmt

/-- One of the findings is an error at the given place. -/
def Refused (ds : List Diagnostic) (span : Option Span) : Prop :=
  ∃ d ∈ ds, d.severity = .error ∧ d.location = findingAt span

instance (ds : List Diagnostic) (span : Option Span) : Decidable (Refused ds span) :=
  inferInstanceAs (Decidable (∃ d ∈ ds, d.severity = .error ∧ d.location = findingAt span))

lemma refused_wrong (message : String) (span : Option Span) : Refused [wrong message span] span :=
  ⟨_, mem_cons_self, rfl, rfl⟩

/-- An undefined mention is among the findings: it is reported itself, or else one of the calls around it
is, whose name stands for no function. -/
def Scoping.Mention.Found (s : Sight) (ds : List Diagnostic) (m : Mention) : Prop :=
  Refused ds m.span ∨ ∃ c ∈ m.calls, ¬(Use.function c.name).Legal s ∧ Refused ds c.span

section

variable {s : Sight} {ds ds' : List Diagnostic} {m : Mention}

lemma Refused.mono (h : Refused ds span) (hds : ds ⊆ ds') : Refused ds' span :=
  h.imp fun _ hd => ⟨hds hd.1, hd.2⟩

namespace Scoping.Mention.Found

lemma mono (h : m.Found s ds) (hds : ds ⊆ ds') : m.Found s ds' :=
  h.imp (·.mono hds) fun ⟨c, hc, hillegal, hrefused⟩ => ⟨c, hc, hillegal, hrefused.mono hds⟩

lemma left (h : m.Found s ds) : m.Found s (ds ++ ds') :=
  h.mono (subset_append_left _ _)

lemma right (h : m.Found s ds') : m.Found s (ds ++ ds') :=
  h.mono (subset_append_right _ _)

lemma within (h : m.Found s ds) (c : Callee) : (m.within c).Found s ds :=
  h.imp_right fun ⟨c', hc', hfound⟩ => ⟨c', mem_cons_of_mem _ hc', hfound⟩

end Scoping.Mention.Found

end

/-! ## Expressions -/

namespace Expr

variable {t : SymbolTable} {s : Sight}

lemma refused_call (h : Stands t s)
    (hillegal : ¬(Use.function n).Legal s) : Refused ((call span n args).typed t).2 span := by
  rw [Use.legal_function, ← h.lookup, SymbolTable.lookup] at hillegal
  rw [typed]
  split
  · exact refused_wrong _ _
  · rename_i b hb
    split
    · rename_i params result htype
      exact absurd ⟨_, params, result, by rw [hb]; rfl, htype⟩ hillegal
    · exact refused_wrong _ _

lemma checkEach_subset_of_function (h : Stands t s)
    (hlegal : (Use.function n).Legal s) : checkEach t args ⊆ ((call span n args).typed t).2 := by
  obtain ⟨e, params, result, he, htype⟩ := hlegal
  rw [← h.lookup, SymbolTable.lookup, Option.map_map, Option.map_eq_some_iff] at he
  obtain ⟨b, hb, rfl⟩ := he
  obtain htype : b.symbol.type = .function params result := htype
  rw [typed, hb]
  dsimp only
  rw [htype]
  exact subset_append_right _ _

mutual

lemma found_of_mem_mentions (h : Stands t s) {m : Mention} (hnone : s.entity? m.name = none) :
    (e : Expr) → m ∈ e.mentions → m.Found s (e.typed t).2
  | .integer .., hm | .real .., hm | .boolean .., hm | .char .., hm | .string .., hm | .unknown _, hm | .missing, hm =>
    absurd hm not_mem_nil
  | .name span n, hm => by
    obtain rfl := mem_singleton.mp hm
    obtain hnone : s.entity? n = none := hnone
    rw [← h.lookup, Option.map_eq_none_iff] at hnone
    rw [typed, hnone]
    exact .inl (refused_wrong _ _)
  | .binary _ op l r, hm => by
    rcases mem_append.mp hm with hl | hr
    · exact (found_of_mem_mentions h hnone l hl).left
    · exact (found_of_mem_mentions h hnone r hr).right
  | .unary _ op e, hm => found_of_mem_mentions h hnone e hm
  | .paren _ e, hm => found_of_mem_mentions h hnone e hm
  | .index _ a is, hm => by
    have hparts : m.Found s ((a.typed t).2 ++ checkEach t is) := by
      rcases mem_append.mp hm with ha | his
      · exact (found_of_mem_mentions h hnone a ha).left
      · exact (found_of_mem_mentionsEach h hnone is his).right
    unfold typed
    dsimp only
    split <;> exact hparts
  | .field _ o f, hm => by
    have ho := found_of_mem_mentions h hnone o hm
    unfold typed
    dsimp only
    split
    · exact ho
    · split
      · exact ho
      · exact ho.left
  | .call span n args, hm => by
    obtain ⟨m', hm', rfl⟩ := mem_map.mp hm
    by_cases hlegal : (Use.function n).Legal s
    · have hargs := found_of_mem_mentionsEach h (m := m') hnone args hm'
      exact (hargs.mono (checkEach_subset_of_function h hlegal)).within _
    · exact .inr ⟨_, mem_cons_self, hlegal, refused_call h hlegal⟩

lemma found_of_mem_mentionsEach (h : Stands t s) {m : Mention} (hnone : s.entity? m.name = none) :
    (es : List Expr) → m ∈ mentionsEach es → m.Found s (checkEach t es)
  | e :: es, hm => by
    rcases mem_append.mp hm with he | hes
    · exact (found_of_mem_mentions h hnone e he).left
    · exact (found_of_mem_mentionsEach h hnone es hes).right

end

/-- The findings tell what is wrong with an expression, taken for its value or as something that is
assigned to. -/
def Checked (t : SymbolTable) (ds : List Diagnostic) (e : Expr) : Prop :=
  e.check t ⊆ ds ∨ e.checkTarget t ⊆ ds

variable {ds ds' : List Diagnostic} {e : Expr}

lemma Checked.left (h : e.Checked t ds) : e.Checked t (ds ++ ds') :=
  h.imp (subset_append_of_subset_left _) (subset_append_of_subset_left _)

lemma Checked.right (h : e.Checked t ds') : e.Checked t (ds ++ ds') :=
  h.imp (subset_append_of_subset_right _) (subset_append_of_subset_right _)

lemma checked_value (e : Expr) : e.Checked t (e.check t) :=
  .inl (List.Subset.refl _)

lemma checked_of_mem {es : List Expr} (he : e ∈ es) : e.Checked t (checkEach t es) := by
  induction es with
  | nil => exact absurd he not_mem_nil
  | cons e' es ih =>
    rcases mem_cons.mp he with rfl | he
    · exact (checked_value _).left
    · exact (ih he).right

lemma Checked.found (hchecked : e.Checked t ds) (h : Stands t s)
    {m : Mention} (hnone : s.entity? m.name = none) (hm : m ∈ e.mentions) : m.Found s ds := by
  rcases hchecked with hvalue | htarget
  · exact (found_of_mem_mentions h hnone e hm).mono hvalue
  · refine .mono ?_ htarget
    cases e with
    | name span n =>
      obtain rfl := mem_singleton.mp hm
      rw [← h.lookup, Option.map_eq_none_iff] at hnone
      rw [checkTarget, hnone]
      exact .inl (refused_wrong _ _)
    | _ => exact found_of_mem_mentions h hnone _ hm

end Expr

/-! ## Statements -/

namespace Stmt

open Expr (checked_value checked_of_mem)

variable {t : SymbolTable} {e : Expr} {procedure : Option String}

mutual

lemma checked_of_mem_exprs : (x : Stmt) → e ∈ x.exprs → e.Checked t (check t procedure x)
  | assign _ target value, he => by
    rcases mem_pair.mp he with rfl | rfl
    · exact .inr (subset_append_of_subset_left _ (subset_append_left _ _))
    · exact (checked_value _).right.left
  | ifThen _ c yes none, he => by
    rcases mem_cons.mp he with rfl | he
    · exact (checked_value _).left
    · exact (checked_of_mem_exprsEach yes he).right
  | ifThen _ c yes (some no), he => by
    rcases mem_cons.mp he with rfl | he
    · exact (checked_value _).left.left
    rcases mem_append.mp he with he | he
    · exact (checked_of_mem_exprsEach yes he).right.left
    · exact (checked_of_mem_exprsEach no he).right
  | .while _ c body, he => by
    rcases mem_cons.mp he with rfl | he
    · exact (checked_value _).left
    · exact (checked_of_mem_exprsEach body he).right
  | doWhile _ body c, he => by
    rcases mem_cons.mp he with rfl | he
    · exact (checked_value _).right
    · exact (checked_of_mem_exprsEach body he).left
  | .for span n a b step body, he => by
    rcases mem_cons.mp he with rfl | he
    · exact (checked_value _).right.left.left.left
    rcases mem_cons.mp he with rfl | he
    · exact (checked_value _).right.left.left
    rcases mem_append.mp he with he | he
    · obtain rfl := Option.mem_toList.mp he
      exact (checked_value _).right.left
    · exact (checked_of_mem_exprsEach body he).right
  | switch _ subject cases none, he => by
    rcases mem_cons.mp he with rfl | he
    · exact (checked_value _).left
    · exact (checked_of_mem_exprsCases cases he).right
  | switch _ subject cases (some d), he => by
    rcases mem_cons.mp he with rfl | he
    · exact (checked_value _).left.left
    rcases mem_append.mp he with he | he
    · exact (checked_of_mem_exprsCases cases he).right.left
    · exact (checked_of_mem_exprsEach d he).right
  | call span n args, he => (checked_of_mem he).right
  | scan _ ts, he => .inr fun _ hd => mem_flatMap.mpr ⟨e, he, hd⟩
  | print _ es, he => checked_of_mem he
  | .return span value, he => by
    obtain rfl := mem_singleton.mp he
    exact (checked_value _).right
  | block _ body, he => checked_of_mem_exprsEach body he

lemma checked_of_mem_exprsEach : (body : List Stmt) → e ∈ exprsEach body → e.Checked t (checkEach t procedure body)
  | x :: body, he => by
    rcases mem_append.mp he with he | he
    · exact (checked_of_mem_exprs x he).left
    · exact (checked_of_mem_exprsEach body he).right

lemma checked_of_mem_exprsCases :
    (cases : List CaseClause) → e ∈ exprsCases cases → e.Checked t (checkCases t procedure cases)
  | ⟨_, vs, body⟩ :: cases, he => by
    rcases mem_append.mp he with he | he
    · rcases mem_append.mp he with he | he
      · exact (checked_of_mem he).left.left
      · exact (checked_of_mem_exprsEach body he).right.left
    · exact (checked_of_mem_exprsCases cases he).right

end

end Stmt

/-! ## Programs -/

namespace Analysis

/-- Each routine is checked in sight of its scope, and what is found stays. -/
lemma checkEach_subset_routines {a : Analysis} {g : Frame} {rs : List Routine} (hs : Stands a.table [g])
    {r : Routine} (hr : r ∈ rs) : ∃ t procedure, Stands t [r.frame g, g] ∧ Stmt.checkEach t procedure r.body ⊆
        ((rs.map fun r => (r, r.params.map fun p => p.type.meaning (Sight.type? [g]))).foldl
          (fun a (r, params) => a.routine r params) a).found := by
  induction rs generalizing a with
  | nil => exact absurd hr not_mem_nil
  | cons r' rs ih =>
    have hroutine := (goes_routine a g r').stands hs
    rcases mem_cons.mp hr with rfl | hr
    · refine ⟨(a.opened g r).table, if r.result.isSome then none else some r.name, (goes_opened a g r).stands hs, ?_⟩
      refine List.Subset.trans ?_ ((goes_routines _ g rs).keeps hroutine)
      dsimp only
      rw [routine_eq]
      exact fun _ hd => mem_append_right _ (mem_append_left _ hd)
    · exact ih hroutine hr

/-- Every body of a program is checked in sight of its scopes, and all that is found in it is among the
findings. -/
lemma checkEach_subset_found {p : Program} {b : Sight × List Stmt} (hb : b ∈ p.bodies) :
    ∃ t procedure, Stands t b.1 ∧ Stmt.checkEach t procedure b.2 ⊆ (ofProgram p).found := by
  have hglobals := (goes_declareAll [] {} {} p.globals).stands stands_empty
  have hsignatures := (goes_declareRoutines [] _ _ p.routines).stands hglobals
  rw [ofProgram_eq, declareRoutines_snd [] hglobals]
  rcases mem_cons.mp hb with rfl | hb
  · exact ⟨_, none, (goes_routines _ p.frame p.routines).stands hsignatures, subset_append_right _ _⟩
  · obtain ⟨r, hr, rfl⟩ := mem_map.mp hb
    obtain ⟨t, procedure, hs, hsubset⟩ := checkEach_subset_routines hsignatures hr
    exact ⟨t, procedure, hs, subset_append_of_subset_left _ hsubset⟩

/-- **Undefined names are reported where they stand.**  In all bodies of every program, a mention of a
name that stands for nothing in sight of the body is refused at its place, unless it is an argument of a
call of what is no function; then such a call around it is refused at the place of the call. -/
theorem reports_undefined {p : Program} {b : Sight × List Stmt} (hb : b ∈ p.bodies) {e : Expr}
    (he : e ∈ Stmt.exprsEach b.2) {m : Mention} (hm : m ∈ e.mentions) (hnone : b.1.entity? m.name = none) :
    Refused (ofProgram p).diagnostics m.span ∨
      ∃ c ∈ m.calls, ¬(Use.function c.name).Legal b.1 ∧ Refused (ofProgram p).diagnostics c.span := by
  obtain ⟨t, procedure, hs, hsubset⟩ := checkEach_subset_found hb
  have hfound : m.Found b.1 (Stmt.checkEach t procedure b.2) :=
    (Stmt.checked_of_mem_exprsEach b.2 he).found hs hnone hm
  exact hfound.mono fun _ hd => mem_diagnostics.mpr (hsubset hd)

/-- `PRINT(SQRT(y))` in a program that declares nothing. -/
def undefinedArgument : Program where
  name := "a"
  body := [.print none [.call none "SQRT" [.name none "y"]]]

/-- The function is there, so its argument is looked at. -/
theorem reports_undefinedArgument :
    Sight.entity? [undefinedArgument.frame] "y" = none ∧ (Use.function "SQRT").Legal [undefinedArgument.frame] ∧
      Refused (ofProgram undefinedArgument).diagnostics none := by
  have hsqrt : (Use.function "SQRT").Legal [undefinedArgument.frame] := ⟨_, [.real], .real, rfl, rfl⟩
  refine ⟨rfl, hsqrt, ?_⟩
  rcases reports_undefined (p := undefinedArgument) mem_cons_self mem_cons_self
    (m := ⟨none, "y", [⟨none, "SQRT"⟩]⟩) mem_cons_self rfl with hy | ⟨c, hc, hillegal, -⟩
  · exact hy
  · obtain rfl := mem_singleton.mp hc
    exact absurd hsqrt hillegal

/-- The exception occurs: neither name of this text is defined, and only the call is reported. -/
theorem misses_undefined_argument : ∃ p, Program.ofScanned (Token.scan "ALGORITHM a BEGIN PRINT(f(y)) END.")
        "ALGORITHM a BEGIN PRINT(f(y)) END." = .ok (.ok p) ∧
      ∃ b ∈ p.bodies, ∃ e ∈ Stmt.exprsEach b.2, ∃ m ∈ e.mentions, b.1.entity? m.name = none ∧
        ¬Refused (ofProgram p).diagnostics m.span :=
  exists_ok_ok (by decide +kernel)

end Analysis

end AlgoLang
