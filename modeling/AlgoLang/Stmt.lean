/-
# Statements

A branch or a loop body is a list of statements whether it was written between `BEGIN` and `END` or as a single
statement; `block` is a nested `BEGIN … END` that stands in a list by itself.  Reading yields no `unknown`.
-/
import AlgoLang.Expr

namespace AlgoLang

mutual

inductive Stmt where
  | assign (span : Option Span) (target value : Expr)
  | ifThen (span : Option Span) (condition : Expr) (yes : List Stmt) (no : Option (List Stmt))
  | while (span : Option Span) (condition : Expr) (body : List Stmt)
  | doWhile (span : Option Span) (body : List Stmt) (condition : Expr)
  | for (span : Option Span) (counter : String) (first last : Expr) (step : Option Expr)
      (body : List Stmt)
  | switch (span : Option Span) (selector : Expr) (cases : List CaseClause)
      (default : Option (List Stmt))
  | call (span : Option Span) (name : String) (arguments : List Expr)
  | scan (span : Option Span) (targets : List Expr)
  | print (span : Option Span) (values : List Expr)
  | return (span : Option Span) (value : Expr)
  | block (span : Option Span) (body : List Stmt)
  | unknown (span : Option Span)

/-- One clause of a switch: the values it is for, and what is done for them. -/
structure CaseClause where
  span : Option Span
  values : List Expr
  body : List Stmt

end

instance : Inhabited Stmt := ⟨.unknown none⟩

namespace Stmt

def span : Stmt → Option Span
  | assign s _ _ | ifThen s _ _ _ | .while s _ _ | doWhile s _ _ | .for s _ _ _ _ _ | switch s _ _ _
  | call s _ _ | scan s _ | print s _ | .return s _ | block s _ | unknown s => s

def kindName : Stmt → String
  | assign .. => "AssignmentStatement"
  | ifThen .. => "IfStatement"
  | .while .. => "WhileStatement"
  | doWhile .. => "DoWhileStatement"
  | .for .. => "ForStatement"
  | switch .. => "SwitchStatement"
  | call .. => "CallStatement"
  | scan .. => "ScanStatement"
  | print .. => "PrintStatement"
  | .return .. => "ReturnStatement"
  | block .. => "BlockStatement"
  | unknown .. => "Statement"

mutual

/-- The routines called, in the order of the parts of the statement. -/
def calls : Stmt → List String
  | assign _ t v => t.calls ++ v.calls
  | ifThen _ c yes none => c.calls ++ callsEach yes
  | ifThen _ c yes (some no) => c.calls ++ callsEach yes ++ callsEach no
  | .while _ c body => c.calls ++ callsEach body
  | doWhile _ body c => callsEach body ++ c.calls
  | .for _ _ a b step body => a.calls ++ b.calls ++ step.elim [] Expr.calls ++ callsEach body
  | switch _ e cases none => e.calls ++ callsCases cases
  | switch _ e cases (some d) => e.calls ++ callsCases cases ++ callsEach d
  | call _ n args => n :: Expr.callsEach args
  | scan _ ts => Expr.callsEach ts
  | print _ es => Expr.callsEach es
  | .return _ e => e.calls
  | block _ body => callsEach body
  | unknown _ => []

def callsEach : List Stmt → List String
  | [] => []
  | s :: ss => calls s ++ callsEach ss

def callsCases : List CaseClause → List String
  | [] => []
  | ⟨_, vs, body⟩ :: cs => Expr.callsEach vs ++ callsEach body ++ callsCases cs

end

mutual

def returns : Stmt → Bool
  | .return .. => true
  | ifThen _ _ yes none => returnsAny yes
  | ifThen _ _ yes (some no) => returnsAny yes || returnsAny no
  | .while _ _ body | doWhile _ body _ | .for _ _ _ _ _ body | block _ body => returnsAny body
  | switch _ _ cases none => returnsCases cases
  | switch _ _ cases (some d) => returnsCases cases || returnsAny d
  | _ => false

def returnsAny : List Stmt → Bool
  | [] => false
  | s :: ss => returns s || returnsAny ss

def returnsCases : List CaseClause → Bool
  | [] => false
  | ⟨_, _, body⟩ :: cs => returnsAny body || returnsCases cs

end

mutual

def alike : Stmt → Stmt → Bool
  | assign _ t v, assign _ t' v' => t.alike t' && v.alike v'
  | ifThen _ c y none, ifThen _ c' y' none => c.alike c' && alikeEach y y'
  | ifThen _ c y (some n), ifThen _ c' y' (some n') => c.alike c' && alikeEach y y' && alikeEach n n'
  | .while _ c b, .while _ c' b' => c.alike c' && alikeEach b b'
  | doWhile _ b c, doWhile _ b' c' => alikeEach b b' && c.alike c'
  | .for _ v f l none b, .for _ v' f' l' none b' => v == v' && f.alike f' && l.alike l' && alikeEach b b'
  | .for _ v f l (some s) b, .for _ v' f' l' (some s') b' =>
    v == v' && f.alike f' && l.alike l' && s.alike s' && alikeEach b b'
  | switch _ e cs none, switch _ e' cs' none => e.alike e' && alikeCases cs cs'
  | switch _ e cs (some d), switch _ e' cs' (some d') => e.alike e' && alikeCases cs cs' && alikeEach d d'
  | call _ n args, call _ n' args' => n == n' && Expr.alikeEach args args'
  | scan _ ts, scan _ ts' => Expr.alikeEach ts ts'
  | print _ es, print _ es' => Expr.alikeEach es es'
  | .return _ e, .return _ e' => e.alike e'
  | block _ b, block _ b' => alikeEach b b'
  | unknown _, unknown _ => true
  | _, _ => false

def alikeEach : List Stmt → List Stmt → Bool
  | [], [] => true
  | s :: ss, s' :: ss' => alike s s' && alikeEach ss ss'
  | _, _ => false

def alikeCases : List CaseClause → List CaseClause → Bool
  | [], [] => true
  | ⟨_, vs, b⟩ :: cs, ⟨_, vs', b'⟩ :: cs' => Expr.alikeEach vs vs' && alikeEach b b' && alikeCases cs cs'
  | _, _ => false

end

end Stmt

end AlgoLang
