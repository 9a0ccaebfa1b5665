/-
# What is still to be read

All that is still to come in a reading can be written down as a list of items, the agenda.  The first item
and the kind of the next token decide the next move: the token is taken, left or refused.  So the readers
are one machine with a stack that sees one token ahead.  `Follows agenda toks r` says that the outcome `r`
of a reader on `toks` is that of the machine.

* The machine has one way to go (`Step.unique`).
* What is further down on the agenda waits (`Runs.behind`).
* The machine sees no further than the next token (`Runs.foresight`).
-/
import AlgoLang.Program.Parse
import AlgoLang.Proofs.Reading

namespace AlgoLang

open List Relation.ReflTransGen Expr

variable {c d d' : Stage} {f : ParseFault} {kind : TokenKind} {a : List Item} {wanted : Wanted}
variable {toks : List Token} {t : Token}

/-- The kind of the next token; the end of the text stands in for no token. -/
def ahead : List Token → TokenKind
  | [] => .eof
  | t :: _ => t.kind

@[simp] lemma ahead_nil : ahead [] = .eof := rfl

@[simp] lemma ahead_cons (t : Token) (toks : List Token) : ahead (t :: toks) = t.kind := rfl

/-! ## Items and moves -/

/-- Something to be read.  `optional` is a token that may be missing; the items that begin with `more`
or `after` go on with something whose front has been read. -/
inductive Item where
  | token (wanted : Wanted) (kind : TokenKind)
  | optional (kind : TokenKind)
  | moreNames (wanted : Wanted)
  | level (l : Expr.Level)
  | more (l : Expr.Level)
  | power
  | exponent
  | signed
  | primary
  | afterName
  | suffixes
  | exprs
  | moreExprs
  | arguments
  | targets
  | moreTargets
  | constant
  | number
  | dimensions
  | moreDimensions
  | type
  | fields
  | stmt
  | afterTarget
  | branch
  | elsePart
  | stmts
  | cases
  | defaultPart
  | stepPart
  | constants
  | types
  | sections
  | param
  | paramList
  | moreParams
  | params
  | routines

/-- What the first item does with the next token. -/
inductive Move where
  | take (next : List Item)
  | keep (next : List Item)
  | refuse (wanted : Wanted)

/-- The kinds of tokens that are literals. -/
def TokenKind.isLiteral : TokenKind → Bool
  | .integer | .real | .string | .char | .keyword .true_ | .keyword .false_ => true
  | _ => false

namespace Item

abbrev expr : Item := level .disjunction

def operand (l : Expr.Level) : Item :=
  l.tighter.elim power level

abbrev condition (wanted : Wanted) : List Item :=
  [token wanted (.mark .lparen), expr, token .parenAfterCondition (.mark .rparen)]

/-- Local declarations and a body, with the semicolon behind it. -/
abbrev body : List Item :=
  [sections, token .begin_ (.keyword .begin_), stmts, token .end_ (.keyword .end_),
   optional (.mark .semicolon)]

def stmtMove : TokenKind → Move
  | .keyword .if_ => .take (condition .parenAfterIf ++ [token .then_ (.keyword .then_), branch, elsePart])
  | .keyword .while_ => .take (condition .parenAfterWhile ++ [token .do_ (.keyword .do_), branch])
  | .keyword .do_ => .take ([branch, token .whileAfterBody (.keyword .while_)] ++ condition .parenAfterWhile)
  | .keyword .for_ =>
    .take [token .loopVariable .identifier, token .assignAfterVariable (.mark .assign), expr,
      token .to_ (.keyword .to_), expr, stepPart, token .do_ (.keyword .do_), branch]
  | .keyword .switch =>
    .take [expr, token .beginAfterSwitch (.keyword .begin_), cases, defaultPart, token .endAfterCases (.keyword .end_)]
  | .keyword .begin_ => .take [stmts, token .end_ (.keyword .end_)]
  | .keyword .return_ =>
    .take [token .parenAfterReturn (.mark .lparen), expr, token .parenAfterResult (.mark .rparen)]
  | .keyword .scan =>
    .take [token .parenAfterScan (.mark .lparen), targets, token .parenAfterTargets (.mark .rparen)]
  | .keyword .print =>
    .take [token .parenAfterPrint (.mark .lparen), exprs, token .parenAfterValues (.mark .rparen)]
  | .identifier => .take [afterTarget]
  | _ => .refuse .statement

def typeMove : TokenKind → Move
  | .keyword .array =>
    .take [token .bracketAfterArray (.mark .lbracket), dimensions, token .ofAfterDimensions (.keyword .of_), type]
  | .keyword .structure_ =>
    .take [token .beginAfterStructure (.keyword .begin_), fields, token .endAfterFields (.keyword .end_)]
  | .mark .lparen =>
    .take [token .enumValue .identifier, moreNames .enumValue, token .parenAfterEnum (.mark .rparen)]
  | .identifier => .take []
  | kind => if (TypeExpr.primitive? kind).isSome then .take [] else .refuse .type

def sectionsMove : TokenKind → Move
  | .keyword .const_ => .take [constants, sections]
  | .keyword .type_ => .take [types, sections]
  | .keyword .var => .take [fields, sections]
  | _ => .keep []

def routinesMove : TokenKind → Move
  | .keyword .function =>
    .take ([token .functionName .identifier, token .parenAfterFunction (.mark .lparen), params,
      token .colonBeforeResult (.mark .colon), type] ++ body ++ [routines])
  | .keyword .procedure =>
    .take ([token .procedureName .identifier, token .parenAfterProcedure (.mark .lparen), params] ++ body ++ [routines])
  | _ => .keep []

/-- What an item does with a token of the given kind in front. -/
def move (i : Item) (k : TokenKind) : Move :=
  match i with
  | token wanted kind => if k = kind then .take [] else .refuse wanted
  | optional kind => if k = kind then .take [] else .keep []
  | moreNames wanted =>
    if k = .mark .comma then .take [token wanted .identifier, moreNames wanted] else .keep []
  | level l => .keep [operand l, more l]
  | more l => if (l.op? k).isSome then .take [operand l, more l] else .keep []
  | power => .keep [signed, exponent]
  | exponent => if k = .mark .power then .take [power] else .keep []
  | signed => if (sign? k).isSome then .take [signed] else .keep [primary]
  | primary =>
    if k = .mark .lparen then .take [expr, token .parenAfterExpression (.mark .rparen)]
    else if k = .identifier then .take [afterName]
    else if k.isLiteral then .take [] else .refuse .expression
  | afterName => if k = .mark .lparen then .take [arguments, suffixes] else .keep [suffixes]
  | suffixes =>
    if k = .mark .lbracket then .take [exprs, token .bracketAfterIndex (.mark .rbracket), suffixes]
    else if k = .mark .dot then .take [token .fieldName .identifier, suffixes] else .keep []
  | exprs => .keep [expr, moreExprs]
  | moreExprs => if k = .mark .comma then .take [exprs] else .keep []
  | arguments =>
    if k = .mark .rparen then .take [] else .keep [exprs, token .parenAfterArguments (.mark .rparen)]
  | targets => .keep [token .identifier .identifier, suffixes, moreTargets]
  | moreTargets => if k = .mark .comma then .take [targets] else .keep []
  | constant =>
    if k = .mark .minus then .take [number]
    else if k.isLiteral then .take [] else .refuse .literal
  | number => if k = .integer ∨ k = .real then .take [] else .refuse .numberAfterMinus
  | dimensions => .keep [expr, token .bracket (.mark .rbracket), moreDimensions]
  | moreDimensions => if k = .mark .lbracket then .take [dimensions] else .keep []
  | type => typeMove k
  | fields =>
    if k = .identifier then
      .take [moreNames .variableName, token .colonAfterVariables (.mark .colon), type,
        optional (.mark .semicolon), fields]
    else .keep []
  | stmt => stmtMove k
  | afterTarget =>
    if k = .mark .lbracket ∨ k = .mark .dot then .keep [suffixes, token .assign (.mark .assign), expr]
    else if k = .mark .assign then .take [expr]
    else if k = .mark .lparen then .take [arguments] else .keep []
  | branch => if k = .keyword .begin_ then .take [stmts, token .end_ (.keyword .end_)] else .keep [stmt]
  | elsePart => if k = .keyword .else_ then .take [branch] else .keep []
  | stmts =>
    if Stmt.endsList k then .keep []
    else if k = .mark .semicolon then .take [stmts] else .keep [stmt, stmts]
  | cases =>
    if k = .keyword .case_ then .take [exprs, token .colonAfterValues (.mark .colon), branch, cases]
    else .keep []
  | defaultPart =>
    if k = .keyword .default_ then .take [token .colonAfterDefault (.mark .colon), branch] else .keep []
  | stepPart => if k = .keyword .step then .take [expr] else .keep []
  | constants =>
    if k = .identifier then
      .take [token .equalAfterConstant (.mark .equal), constant, optional (.mark .semicolon), constants]
    else .keep []
  | types =>
    if k = .identifier then
      .take [token .equalAfterType (.mark .equal), type, optional (.mark .semicolon), types]
    else .keep []
  | sections => sectionsMove k
  | param =>
    .keep [optional (.keyword .var), token .paramName .identifier, token .colonAfterParam (.mark .colon), type]
  | paramList => .keep [param, moreParams]
  | moreParams => if k = .mark .comma then .take [paramList] else .keep []
  | params =>
    if k = .mark .rparen then .take [] else .keep [paramList, token .parenAfterParams (.mark .rparen)]
  | routines => routinesMove k

end Item

def programAgenda : List Item :=
  [.token .algorithm (.keyword .algorithm), .token .algorithmName .identifier, .sections, .routines,
   .token .begin_ (.keyword .begin_), .stmts, .token .end_ (.keyword .end_), .token .finalDot (.mark .dot)]

/-! ## Steps and runs -/

/-- An agenda, and the tokens that are left. -/
abbrev Stage := List Item × List Token

/-- One move.  A token that is taken has to be readable: no whole number may have too many digits. -/
inductive Step : Stage → Stage → Prop
  | take {i : Item} {next agenda : List Item} {t : Token} {rest : List Token} {e : Option Expr} :
      i.move t.kind = .take next → literal? t = .ok e →
      Step (i :: agenda, t :: rest) (next ++ agenda, rest)
  | keep {i : Item} {next agenda : List Item} {toks : List Token} :
      i.move (ahead toks) = .keep next → Step (i :: agenda, toks) (next ++ agenda, toks)

abbrev Runs : Stage → Stage → Prop := Relation.ReflTransGen Step

/-- No move is possible, and the reason. -/
inductive Stops : Stage → ParseFault → Prop
  | refuse {i : Item} {agenda : List Item} {toks : List Token} {wanted : Wanted} :
      i.move (ahead toks) = .refuse wanted → Stops (i :: agenda, toks) (.unexpected wanted toks.head?)
  | unreadable {i : Item} {next agenda : List Item} {t : Token} {rest : List Token} {f : ParseFault} :
      i.move t.kind = .take next → literal? t = .error f → Stops (i :: agenda, t :: rest) f

lemma Step.unique (h : Step c d) (h' : Step c d') : d = d' := by
  cases h with
  | take hm _ =>
    cases h' with
    | take hm' _ =>
      rw [hm] at hm'
      cases hm'
      rfl
    | keep hm' =>
      rw [ahead_cons, hm] at hm'
      cases hm'
  | keep hm =>
    cases h' with
    | take hm' _ =>
      rw [ahead_cons, hm'] at hm
      cases hm
    | keep hm' =>
      rw [hm] at hm'
      cases hm'
      rfl

lemma Stops.not_step (h : Stops c f) : ¬Step c d := by
  intro hstep
  cases h with
  | refuse hm =>
    cases hstep with
    | take hm' _ =>
      rw [ahead_cons, hm'] at hm
      cases hm
    | keep hm' =>
      rw [hm] at hm'
      cases hm'
  | unreadable hm he =>
    cases hstep with
    | take _ he' =>
      rw [he] at he'
      cases he'
    | keep hm' =>
      rw [ahead_cons, hm] at hm'
      cases hm'

lemma Stops.unique {f' : ParseFault} (h : Stops c f) (h' : Stops c f') : f = f' := by
  cases h with
  | refuse hm =>
    cases h' with
    | refuse hm' =>
      rw [hm] at hm'
      cases hm'
      rfl
    | unreadable hm' _ =>
      rw [ahead_cons, hm'] at hm
      cases hm
  | unreadable hm he =>
    cases h' with
    | refuse hm' =>
      rw [ahead_cons, hm] at hm'
      cases hm'
    | unreadable _ he' =>
      rw [he] at he'
      cases he'
      rfl

lemma not_step_nil : ¬Step ([], toks) c := nofun

lemma Runs.end_unique (h : Runs c d) (h' : Runs c d') (hd : ∀ e, ¬Step d e) (hd' : ∀ e, ¬Step d' e) : d = d' := by
  have hunique : Relator.RightUnique Step := fun _ _ _ => Step.unique
  rcases total_of_right_unique hunique h h' with hrun | hrun
  · rcases hrun.cases_head with rfl | ⟨e, hstep, -⟩
    · rfl
    · exact absurd hstep (hd e)
  · rcases hrun.cases_head with rfl | ⟨e, hstep, -⟩
    · rfl
    · exact absurd hstep (hd' e)

lemma Step.behind {b : List Item} {toks' : List Token} (h : Step (a, toks) (b, toks')) (later : List Item) :
    Step (a ++ later, toks) (b ++ later, toks') := by
  cases h with
  | take hm he =>
    rw [append_assoc]
    exact .take hm he
  | keep hm =>
    rw [append_assoc]
    exact .keep hm

lemma Runs.behind {b : List Item} {toks' : List Token} (h : Runs (a, toks) (b, toks'))
    (later : List Item) : Runs (a ++ later, toks) (b ++ later, toks') :=
  lift (fun c : Stage => (c.1 ++ later, c.2)) (fun _ _ hstep => .behind hstep later) _ _ h

lemma Stops.behind (h : Stops (a, toks) f) (later : List Item) : Stops (a ++ later, toks) f := by
  cases h with
  | refuse hm => exact .refuse hm
  | unreadable hm he => exact .unreadable hm he

/-- The machine sees no further than the next token.  What it has done so far it does again whatever
stands behind that token; and up to the last token taken, not even that one matters. -/
lemma Runs.foresight (h : Runs c d) : ∃ before, c.2 = before ++ d.2 ∧ (∀ t ∈ before, ∃ e, literal? t = .ok e) ∧
      (∃ agenda, ∀ toks, Runs (c.1, before ++ toks) (agenda, toks)) ∧
      ∀ toks, ahead toks = ahead d.2 → Runs (c.1, before ++ toks) (d.1, toks) := by
  induction h using head_induction_on with
  | refl => exact ⟨[], rfl, by simp, ⟨d.1, fun _ => .refl⟩, fun _ _ => .refl⟩
  | head hstep _ ih =>
    obtain ⟨before, heq, hread, ⟨agenda, hagenda⟩, hrun⟩ := ih
    cases hstep with
    | @take i next below t rest e hm he =>
      refine ⟨t :: before, by simpa using heq, ?_, ⟨agenda, fun toks => ?_⟩, fun toks htoks => ?_⟩
      · exact forall_mem_cons.mpr ⟨⟨e, he⟩, hread⟩
      · exact (hagenda toks).head (.take hm he)
      · exact (hrun toks htoks).head (.take hm he)
    | @keep i next below toks₀ hm =>
      subst heq
      cases before with
      | nil =>
        refine ⟨[], rfl, hread, ⟨i :: below, fun _ => .refl⟩, fun toks htoks => ?_⟩
        rw [nil_append, ← htoks] at hm
        exact (hrun toks htoks).head (.keep hm)
      | cons t before =>
        refine ⟨t :: before, rfl, hread, ⟨agenda, fun toks => ?_⟩, fun toks htoks => ?_⟩
        · exact (hagenda toks).head (.keep hm)
        · exact (hrun toks htoks).head (.keep hm)

/-! ## Readers follow the agenda -/

/-- The outcome of a reader is that of the machine: it reads all that is on the agenda and leaves the
same tokens, or it stops for the same reason. -/
def Follows {α : Type} (left : α → List Token) (agenda : List Item) (toks : List Token)
    (r : Except ParseFault α) : Prop :=
  match r with
  | .ok a => Runs (agenda, toks) ([], left a)
  | .error f => ∃ c, Runs (agenda, toks) c ∧ Stops c f

lemma Reading.ahead_ne_of_take? (h : take? kind toks = none) (hk : kind ≠ .eof) : ahead toks ≠ kind := by
  cases toks with
  | nil => exact hk.symm
  | cons t rest => exact ne_of_take?_eq_none h t rfl

namespace Follows

open Reading

variable {α β : Type} {left : β → List Token} {agenda later next : List Item} {toks rest : List Token}
  {i : Item} {r : Except ParseFault β}
variable {left' : α → List Token} {x : Except ParseFault α}

lemma done {b : β} (h : left b = toks) : Follows left [] toks (.ok b) := by
  subst h
  exact .refl

lemma of_runs (hrun : Runs (agenda, toks) (later, rest)) (h : Follows left later rest r) :
    Follows left agenda toks r := by
  cases r with
  | ok b => exact hrun.trans h
  | error f =>
    obtain ⟨c, hc, hstop⟩ := h
    exact ⟨c, hrun.trans hc, hstop⟩

lemma keep (hm : i.move (ahead toks) = .keep next) (h : Follows left (next ++ later) toks r) :
    Follows left (i :: later) toks r :=
  h.of_runs (.single (.keep hm))

lemma pass (hm : i.move (ahead toks) = .keep []) (h : Follows left later toks r) : Follows left (i :: later) toks r :=
  h.of_runs (.single (.keep hm))

/-- The first item takes a token, and then whatever follows; literals are not taken this way. -/
lemma take (hm : i.move t.kind = .take next) (ht : t.kind ≠ .integer)
    (h : Follows left (next ++ later) rest r) : Follows left (i :: later) (t :: rest) r := by
  obtain ⟨e, he⟩ : ∃ e, literal? t = .ok e := by
    unfold literal?
    split
    · contradiction
    all_goals exact ⟨_, rfl⟩
  exact h.of_runs (.single (.take hm he))

lemma taken (hk : t.kind = kind) (h : Follows left (next ++ later) rest r)
    (hm : i.move kind = .take next) (hkind : kind != .integer) : Follows left (i :: later) (t :: rest) r :=
  take (hk ▸ hm) (hk ▸ bne_iff_ne.mp hkind) h

lemma refuse (hm : i.move (ahead toks) = .refuse wanted) :
    Follows left (i :: later) toks (Reading.fail wanted toks) :=
  ⟨_, .refl, .refuse hm⟩

lemma found {last : Token} {hlt : rest.length < toks.length} (htake : take? kind toks = some ⟨t, last, rest, hlt⟩)
    (h : Follows left (next ++ later) rest r) (hm : i.move kind = .take next) (hkind : kind != .integer) :
    Follows left (i :: later) toks r := by
  obtain ⟨rfl, hk, -⟩ := eq_of_take?_eq_some htake
  exact .taken hk h hm hkind

lemma missed {move : Move} (htake : take? kind toks = none) (h : Follows left later toks r)
    (hm : i.move (ahead toks) = if ahead toks = kind then move else .keep []) (hkind : kind != .eof) :
    Follows left (i :: later) toks r :=
  pass (hm.trans (if_neg (ahead_ne_of_take? htake (bne_iff_ne.mp hkind)))) h

/-- A reader that follows, and then what is done with what it gives. -/
lemma bind {f : α → Except ParseFault β} (h : Follows left' agenda toks x)
    (hf : ∀ a, x = .ok a → Follows left later (left' a) (f a)) : Follows left (agenda ++ later) toks (x >>= f) := by
  cases x with
  | ok a => exact (hf a rfl).of_runs (.behind h later)
  | error f =>
    obtain ⟨⟨a, toks'⟩, hc, hstop⟩ := h
    exact ⟨_, hc.behind later, hstop.behind later⟩

/-- What a reader gives is put in another form, and nothing more is read. -/
lemma wrapped {f : α → β} (h : Follows (left ∘ f) agenda toks x) :
    Follows left agenda toks (x >>= fun a => pure (f a)) := by
  cases x with
  | ok a => exact h
  | error e => exact h

lemma andThen {x : Reading α toks} {f : Taken α toks → Except ParseFault β} (h : Follows Taken.rest agenda toks x)
    (hf : ∀ v last rest (hlt : rest.length < toks.length), Follows left later rest (f ⟨v, last, rest, hlt⟩)) :
    Follows left (agenda ++ later) toks (x >>= f) :=
  h.bind fun t _ => hf t.value t.last t.rest t.shorter

lemma andNext {x : Holding α toks} {f : Held α toks → Except ParseFault β} (h : Follows Held.rest agenda toks x)
    (hf : ∀ v last rest (hle : rest.length ≤ toks.length), Follows left later rest (f ⟨v, last, rest, hle⟩)) :
    Follows left (agenda ++ later) toks (x >>= f) :=
  h.bind fun t _ => hf t.value t.last t.rest t.notLonger

end Follows

namespace Reading

variable {α β : Type} {left : β → List Token} {later : List Item} {toks : List Token}

lemma expect_reads (hi : kind != .integer) (he : kind ≠ .eof) :
    Follows Taken.rest [.token wanted kind] toks (expect wanted kind toks) := by
  unfold expect
  split
  · next htake => exact .found htake (.done rfl) (if_pos rfl) hi
  · next htake => exact .refuse (if_neg (ahead_ne_of_take? htake he))

lemma keyword_reads : Follows Taken.rest [.token wanted (.keyword k)] toks (expect wanted (.keyword k) toks) :=
  expect_reads rfl (by simp)

lemma mark_reads : Follows Taken.rest [.token wanted (.mark m)] toks (expect wanted (.mark m) toks) :=
  expect_reads rfl (by simp)

lemma expectName_reads : Follows Taken.rest [.token wanted .identifier] toks (expectName wanted toks) :=
  .wrapped (expect_reads rfl (by simp))

lemma skip_follows (last : Token) {r : Except ParseFault β} (h : Follows left later (skip kind last toks).rest r)
    (hi : kind != .integer) (he : kind != .eof) : Follows left (.optional kind :: later) toks r := by
  unfold skip at h
  split at h
  · next htake => exact .found htake (by exact h) (if_pos rfl) hi
  · next htake => exact .missed htake h rfl he

lemma moreNames_follows (wanted : Wanted) (last : Token) (toks : List Token) :
    Follows Held.rest [.moreNames wanted] toks (moreNames wanted last toks) := by
  rw [moreNames]
  split
  · next htake => exact .missed htake (.done rfl) rfl rfl
  · next toks₁ h₁ htake =>
    refine .found htake ?_ rfl rfl
    refine expectName_reads.andThen ?_
    intro name last₂ toks₂ h₂
    exact .wrapped (moreNames_follows wanted last₂ toks₂)
termination_by toks.length

end Reading

end AlgoLang
