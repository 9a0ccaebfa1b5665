/-
# Reading statements

Statements follow each other with or without semicolons between them.  The branch of a choice and the body of a
loop is a list between `BEGIN` and `END` or a single statement, so an `ELSE` belongs to the nearest choice.
-/
import AlgoLang.Expr.Parse
import AlgoLang.Stmt

namespace AlgoLang.Stmt

open Reading

def endsList : TokenKind → Bool
  | .keyword .end_ | .keyword .else_ | .keyword .case_ | .keyword .default_ | .eof => true
  | _ => false

def parseCondition (wanted : Wanted) (toks : List Token) : Reading Expr toks := do
  let ⟨_, _, toks₁, h₁⟩ ← expect wanted (.mark .lparen) toks
  let ⟨c, _, toks₂, h₂⟩ ← Expr.parse toks₁
  let ⟨_, last, toks₃, h₃⟩ ← expect .parenAfterCondition (.mark .rparen) toks₂
  return (Taken.mk c last toks₃ h₃).since h₂ |>.since h₁

/-- The heading of a counting loop behind its keyword: counter, bounds and step. -/
def parseForHeading (toks : List Token) : Reading (String × Expr × Expr × Option Expr) toks := do
  let ⟨counter, _, toks₁, h₁⟩ ← expectName .loopVariable toks
  let ⟨_, _, toks₂, h₂⟩ ← expect .assignAfterVariable (.mark .assign) toks₁
  let ⟨first, _, toks₃, h₃⟩ ← Expr.parse toks₂
  let ⟨_, _, toks₄, h₄⟩ ← expect .to_ (.keyword .to_) toks₃
  let ⟨bound, _, toks₅, h₅⟩ ← Expr.parse toks₄
  match take? (.keyword .step) toks₅ with
  | none => do
    let ⟨_, last, toks₆, h₆⟩ ← expect .do_ (.keyword .do_) toks₅
    return (Taken.mk (counter, first, bound, none) last toks₆ h₆).since h₅ |>.since h₄ |>.since h₃
      |>.since h₂ |>.since h₁
  | some ⟨_, _, toks₆, h₆⟩ => do
    let ⟨step, _, toks₇, h₇⟩ ← Expr.parse toks₆
    let ⟨_, last, toks₈, h₈⟩ ← expect .do_ (.keyword .do_) toks₇
    return (Taken.mk (counter, first, bound, some step) last toks₈ h₈).since h₇ |>.since h₆ |>.since h₅
      |>.since h₄ |>.since h₃ |>.since h₂ |>.since h₁

def parseReturn (start : Token) (toks : List Token) : Reading Stmt toks := do
  let ⟨_, _, toks₁, h₁⟩ ← expect .parenAfterReturn (.mark .lparen) toks
  let ⟨e, _, toks₂, h₂⟩ ← Expr.parse toks₁
  let ⟨_, last, toks₃, h₃⟩ ← expect .parenAfterResult (.mark .rparen) toks₂
  return (Taken.mk (.return (start.through last) e) last toks₃ h₃).since h₂ |>.since h₁

def parseScan (start : Token) (toks : List Token) : Reading Stmt toks := do
  let ⟨_, _, toks₁, h₁⟩ ← expect .parenAfterScan (.mark .lparen) toks
  let ⟨ts, _, toks₂, h₂⟩ ← Expr.parseTargets toks₁
  let ⟨_, last, toks₃, h₃⟩ ← expect .parenAfterTargets (.mark .rparen) toks₂
  return (Taken.mk (scan (start.through last) ts) last toks₃ h₃).since h₂ |>.since h₁

def parsePrint (start : Token) (toks : List Token) : Reading Stmt toks := do
  let ⟨_, _, toks₁, h₁⟩ ← expect .parenAfterPrint (.mark .lparen) toks
  let ⟨es, _, toks₂, h₂⟩ ← Expr.parseList toks₁
  let ⟨_, last, toks₃, h₃⟩ ← expect .parenAfterValues (.mark .rparen) toks₂
  return (Taken.mk (print (start.through last) es) last toks₃ h₃).since h₂ |>.since h₁

def parseNamed (start : Token) (toks : List Token) : Reading Stmt toks := do
  let ⟨target, last, toks₁, h₁⟩ ← Expr.parseTarget toks
  match take? (.mark .assign) toks₁ with
  | some ⟨_, _, toks₂, h₂⟩ => do
    let ⟨value, last, toks₃, h₃⟩ ← Expr.parse toks₂
    return (Taken.mk (assign (start.through last) target value) last toks₃ h₃).since h₂ |>.since h₁
  | none =>
    match target with
    | .name _ n =>
      match take? (.mark .lparen) toks₁ with
      | some ⟨_, _, toks₂, h₂⟩ => do
        let ⟨args, last, toks₃, h₃⟩ ← Expr.parseArguments toks₂
        return (Taken.mk (call (start.through last) n args) last toks₃ h₃).since h₂ |>.since h₁
      | none => return ⟨call (start.through last) n [], last, toks₁, h₁⟩
    | _ => fail .assign toks₁

mutual

def parse (toks : List Token) : Reading Stmt toks :=
  match toks with
  | [] => fail .statement []
  | t :: rest =>
    match t.kind with
    | .keyword .if_ => do
      let ⟨c, _, toks₁, h₁⟩ ← parseCondition .parenAfterIf rest
      let ⟨_, _, toks₂, h₂⟩ ← expect .then_ (.keyword .then_) toks₁
      let ⟨yes, last, toks₃, h₃⟩ ← parseBranch toks₂
      match take? (.keyword .else_) toks₃ with
      | none => return (Taken.mk (ifThen (t.through last) c yes none) last toks₃ h₃).since h₂ |>.since h₁
        |>.behind t
      | some ⟨_, _, toks₄, h₄⟩ => do
        let ⟨no, last, toks₅, h₅⟩ ← parseBranch toks₄
        return (Taken.mk (ifThen (t.through last) c yes (some no)) last toks₅ h₅).since h₄ |>.since h₃
          |>.since h₂ |>.since h₁ |>.behind t
    | .keyword .while_ => do
      let ⟨c, _, toks₁, h₁⟩ ← parseCondition .parenAfterWhile rest
      let ⟨_, _, toks₂, h₂⟩ ← expect .do_ (.keyword .do_) toks₁
      let ⟨body, last, toks₃, h₃⟩ ← parseBranch toks₂
      return (Taken.mk (.while (t.through last) c body) last toks₃ h₃).since h₂ |>.since h₁ |>.behind t
    | .keyword .do_ => do
      let ⟨body, _, toks₁, h₁⟩ ← parseBranch rest
      let ⟨_, _, toks₂, h₂⟩ ← expect .whileAfterBody (.keyword .while_) toks₁
      let ⟨c, last, toks₃, h₃⟩ ← parseCondition .parenAfterWhile toks₂
      return (Taken.mk (doWhile (t.through last) body c) last toks₃ h₃).since h₂ |>.since h₁ |>.behind t
    | .keyword .for_ => do
      let ⟨(counter, first, bound, step), _, toks₁, h₁⟩ ← parseForHeading rest
      let ⟨body, last, toks₂, h₂⟩ ← parseBranch toks₁
      return (Taken.mk (.for (t.through last) counter first bound step body) last toks₂ h₂).since h₁ |>.behind t
    | .keyword .switch => do
      let ⟨e, _, toks₁, h₁⟩ ← Expr.parse rest
      let ⟨_, last, toks₂, h₂⟩ ← expect .beginAfterSwitch (.keyword .begin_) toks₁
      let ⟨cases, _, toks₃, h₃⟩ ← parseCases last toks₂
      match take? (.keyword .default_) toks₃ with
      | none => do
        let ⟨_, last, toks₄, h₄⟩ ← expect .endAfterCases (.keyword .end_) toks₃
        return (Taken.mk (switch (t.through last) e cases none) last toks₄ h₄).past h₃ |>.since h₂
          |>.since h₁ |>.behind t
      | some ⟨_, _, toks₄, h₄⟩ => do
        let ⟨_, _, toks₅, h₅⟩ ← expect .colonAfterDefault (.mark .colon) toks₄
        let ⟨body, _, toks₆, h₆⟩ ← parseBranch toks₅
        let ⟨_, last, toks₇, h₇⟩ ← expect .endAfterCases (.keyword .end_) toks₆
        return (Taken.mk (switch (t.through last) e cases (some body)) last toks₇ h₇).since h₆ |>.since h₅
          |>.since h₄ |>.past h₃ |>.since h₂ |>.since h₁ |>.behind t
    | .keyword .begin_ => do
      let ⟨body, _, toks₁, h₁⟩ ← parseEach t rest
      let ⟨_, last, toks₂, h₂⟩ ← expect .end_ (.keyword .end_) toks₁
      return (Taken.mk (block (t.through last) body) last toks₂ h₂).past h₁ |>.behind t
    | .keyword .return_ => do
      let ⟨s, last, toks₁, h₁⟩ ← parseReturn t rest
      return (Taken.mk s last toks₁ h₁).behind t
    | .keyword .scan => do
      let ⟨s, last, toks₁, h₁⟩ ← parseScan t rest
      return (Taken.mk s last toks₁ h₁).behind t
    | .keyword .print => do
      let ⟨s, last, toks₁, h₁⟩ ← parsePrint t rest
      return (Taken.mk s last toks₁ h₁).behind t
    | .identifier => parseNamed t (t :: rest)
    | _ => fail .statement (t :: rest)
termination_by 2 * toks.length

def parseBranch (toks : List Token) : Reading (List Stmt) toks :=
  match take? (.keyword .begin_) toks with
  | some ⟨t, _, toks₁, h₁⟩ => do
    let ⟨body, _, toks₂, h₂⟩ ← parseEach t toks₁
    let ⟨_, last, toks₃, h₃⟩ ← expect .end_ (.keyword .end_) toks₂
    return (Taken.mk body last toks₃ h₃).past h₂ |>.since h₁
  | none => do
    let ⟨s, last, toks₁, h₁⟩ ← parse toks
    return ⟨[s], last, toks₁, h₁⟩
termination_by 2 * toks.length + 1

def parseEach (last : Token) (toks : List Token) : Holding (List Stmt) toks :=
  match toks with
  | [] => .ok (Held.stay [] last [])
  | t :: rest =>
    if endsList t.kind then .ok (Held.stay [] last (t :: rest))
    else if t.kind == .mark .semicolon then do
      let ⟨ss, last, toks₁, h₁⟩ ← parseEach t rest
      return (Held.mk ss last toks₁ h₁).behind t |>.held
    else do
      let ⟨s, last, toks₁, h₁⟩ ← parse (t :: rest)
      let ⟨ss, last, toks₂, h₂⟩ ← parseEach last toks₁
      return (Held.mk (s :: ss) last toks₂ h₂).since h₁ |>.held
termination_by 2 * toks.length + 1
decreasing_by
  all_goals simp only [List.length_cons] at *
  all_goals omega

def parseCases (last : Token) (toks : List Token) : Holding (List CaseClause) toks :=
  match take? (.keyword .case_) toks with
  | none => .ok (Held.stay [] last toks)
  | some ⟨start, _, toks₁, h₁⟩ => do
    let ⟨values, _, toks₂, h₂⟩ ← Expr.parseList toks₁
    let ⟨_, _, toks₃, h₃⟩ ← expect .colonAfterValues (.mark .colon) toks₂
    let ⟨body, last, toks₄, h₄⟩ ← parseBranch toks₃
    let ⟨cases, last', toks₅, h₅⟩ ← parseCases last toks₄
    return (Held.mk (⟨start.through last, values, body⟩ :: cases) last' toks₅ h₅).since h₄ |>.since h₃
      |>.since h₂ |>.since h₁ |>.held
termination_by 2 * toks.length + 1

end

end AlgoLang.Stmt
