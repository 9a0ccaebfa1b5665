/-
# The grammar of the algorithmic language

Every rule derives a list of tokens together with the tree that it stands for.

    program     ::= ALGORITHM ident decls routine* BEGIN stmts END '.'
    decls       ::= (CONST const* | TYPE typedecl* | VAR vardecl*)*
    const       ::= ident '=' literal ';'?
    typedecl    ::= ident '=' type ';'?
    vardecl     ::= ident (',' ident)* ':' type ';'?
    routine     ::= FUNCTION ident '(' params ')' ':' type decls BEGIN stmts END ';'?
                  | PROCEDURE ident '(' params ')' decls BEGIN stmts END ';'?
    params      ::= [param (',' param)*]
    param       ::= [VAR] ident ':' type
    type        ::= ARRAY ('[' expr ']')+ OF type
                  | STRUCTURE BEGIN vardecl* END
                  | '(' ident (',' ident)* ')'
                  | INTEGER | REAL | BOOLEAN | CHAR | STRING | ident
    block       ::= BEGIN stmts END | statement
    stmts       ::= (statement | ';')*
    statement   ::= IF '(' expr ')' THEN block [ELSE block]
                  | WHILE '(' expr ')' DO block
                  | DO block WHILE '(' expr ')'
                  | FOR ident '<-' expr TO expr [STEP expr] DO block
                  | SWITCH expr BEGIN case* [DEFAULT ':' block] END
                  | RETURN '(' expr ')'
                  | SCAN '(' lvalue (',' lvalue)* ')'
                  | PRINT '(' expr (',' expr)* ')'
                  | BEGIN stmts END
                  | lvalue '<-' expr
                  | ident ['(' args ')']
    case        ::= CASE expr (',' expr)* ':' block

Expressions have eight tiers, from `OR` down to indices and fields.

The grammar is ambiguous in two places: an `ELSE` may belong to any `IF` before it that has none,
and `BEGIN … END` as a branch is the list of the branch or one statement in it.  In the mode
`ambiguous` both readings are derivations; in the mode `resolved` the `ELSE` belongs to the nearest
`IF`, and `BEGIN … END` is the list of the branch.

The tables of operators, signs and types are written out here once more, so that the rules do not
rest on those of the reader.
-/
import AlgoLang.Program
import AlgoLang.Token
import Mathlib

namespace AlgoLang.Grammar

/-- The stretch of source of a phrase, from its first token through its last one.  Every node of a
tree has the stretch of the tokens it is derived from. -/
def spanning (ts : List Token) : Option Span :=
  match ts.head?, ts.getLast? with
  | some a, some b => some (a.through b)
  | _, _ => none

/-! ## Names and optional tokens -/

/-- `ident (',' ident)*` -/
inductive IsNames : List Token → List String → Prop
  | one {n : Token} : n.kind = .identifier → IsNames [n] [n.value]
  | more {n comma : Token} {ts : List Token} {names : List String} :
      n.kind = .identifier → comma.kind = .mark .comma → IsNames ts names →
      IsNames (n :: comma :: ts) (n.value :: names)

/-- A token of the given kind, or nothing. -/
inductive IsOptional (kind : TokenKind) : List Token → Prop
  | absent : IsOptional kind []
  | present {t : Token} : t.kind = kind → IsOptional kind [t]

/-! ## Expressions -/

/-- The tiers of expressions, loosest first.  Powers group to the right and all tiers before them to
the left. -/
inductive Tier where
  | disjunction
  | conjunction
  | relation
  | sum
  | product
  | power
  | sign
  | primary
  deriving DecidableEq

def Tier.tighter : Tier → Option Tier
  | disjunction => some conjunction
  | conjunction => some relation
  | relation => some sum
  | sum => some product
  | product => some power
  | power => some sign
  | sign => some primary
  | primary => none

/-- The operators of a tier that groups to the left. -/
def Tier.operators : Tier → List (TokenKind × BinaryOp)
  | disjunction => [(.keyword .or_, .or)]
  | conjunction => [(.keyword .and_, .and)]
  | relation =>
    [(.mark .equal, .eq), (.mark .notEqual, .ne), (.mark .less, .lt), (.mark .greater, .gt),
     (.mark .lessEqual, .le), (.mark .greaterEqual, .ge)]
  | sum => [(.mark .plus, .add), (.mark .minus, .sub)]
  | product => [(.mark .times, .mul), (.mark .slash, .div), (.keyword .div, .intDiv), (.keyword .mod, .mod)]
  | _ => []

def signs : List (TokenKind × UnaryOp) :=
  [(.mark .minus, .neg), (.keyword .not_, .not)]

/-- The literal that a token is. -/
inductive IsLiteral (t : Token) : Expr → Prop
  | integer : t.kind = .integer → IsLiteral t (.integer (spanning [t]) (Text.decimalValue t.value.toList))
  | real : t.kind = .real → IsLiteral t (.real (spanning [t]) (Binary64.ofLiteral t.value))
  | string : t.kind = .string → IsLiteral t (.string (spanning [t]) t.value)
  | char : t.kind = .char → IsLiteral t (.char (spanning [t]) t.value)
  | yes : t.kind = .keyword .true_ → IsLiteral t (.boolean (spanning [t]) true)
  | no : t.kind = .keyword .false_ → IsLiteral t (.boolean (spanning [t]) false)

mutual

/-- An expression whose operators are of the given tier or tighter. -/
inductive IsExpr : Tier → List Token → Expr → Prop
  | tighten {k k' : Tier} {ts : List Token} {e : Expr} : k.tighter = some k' → IsExpr k' ts e → IsExpr k ts e
  | binary {k k' : Tier} {t : Token} {op : BinaryOp} {xs ys : List Token} {a b : Expr} :
      k.tighter = some k' → (t.kind, op) ∈ k.operators → IsExpr k xs a → IsExpr k' ys b →
      IsExpr k (xs ++ t :: ys) (.binary (spanning (xs ++ t :: ys)) op a b)
  | power {t : Token} {xs ys : List Token} {a b : Expr} :
      t.kind = .mark .power → IsExpr .sign xs a → IsExpr .power ys b →
      IsExpr .power (xs ++ t :: ys) (.binary (spanning (xs ++ t :: ys)) .pow a b)
  | sign {t : Token} {op : UnaryOp} {ts : List Token} {e : Expr} :
      (t.kind, op) ∈ signs → IsExpr .sign ts e →
      IsExpr .sign (t :: ts) (.unary (spanning (t :: ts)) op e)
  | paren {o c : Token} {ts : List Token} {e : Expr} :
      o.kind = .mark .lparen → IsExpr .disjunction ts e → c.kind = .mark .rparen →
      IsExpr .primary (o :: (ts ++ [c])) (.paren (spanning (o :: (ts ++ [c]))) e)
  | literal {t : Token} {e : Expr} : IsLiteral t e → IsExpr .primary [t] e
  | access {called : Bool} {ts : List Token} {e : Expr} : IsAccess called ts e → IsExpr .primary ts e

/-- A name with indices and fields behind it, or a call with them if `called`.  Indices behind
indices belong to the same access. -/
inductive IsAccess : Bool → List Token → Expr → Prop
  | name {n : Token} : n.kind = .identifier → IsAccess false [n] (.name (spanning [n]) n.value)
  | call {n o c : Token} {ts : List Token} {args : List Expr} :
      n.kind = .identifier → o.kind = .mark .lparen → IsArguments ts args → c.kind = .mark .rparen →
      IsAccess true (n :: o :: (ts ++ [c])) (.call (spanning (n :: o :: (ts ++ [c]))) n.value args)
  | index {called : Bool} {o c : Token} {xs ys : List Token} {e : Expr} {is : List Expr} :
      IsAccess called xs e → (∀ s a js, e ≠ .index s a js) → o.kind = .mark .lbracket →
      IsExprs ys is → c.kind = .mark .rbracket →
      IsAccess called (xs ++ o :: (ys ++ [c])) (.index (spanning (xs ++ o :: (ys ++ [c]))) e is)
  | further {called : Bool} {o c : Token} {xs ys : List Token} {s : Option Span} {e : Expr} {is js : List Expr} :
      IsAccess called xs (.index s e is) → o.kind = .mark .lbracket → IsExprs ys js → c.kind = .mark .rbracket →
      IsAccess called (xs ++ o :: (ys ++ [c]))
        (.index (spanning (xs ++ o :: (ys ++ [c]))) e (is ++ js))
  | field {called : Bool} {d f : Token} {xs : List Token} {e : Expr} :
      IsAccess called xs e → d.kind = .mark .dot → f.kind = .identifier →
      IsAccess called (xs ++ [d, f]) (.field (spanning (xs ++ [d, f])) e f.value)

/-- `expr (',' expr)*` -/
inductive IsExprs : List Token → List Expr → Prop
  | one {ts : List Token} {e : Expr} : IsExpr .disjunction ts e → IsExprs ts [e]
  | more {comma : Token} {xs ys : List Token} {e : Expr} {es : List Expr} :
      IsExpr .disjunction xs e → comma.kind = .mark .comma → IsExprs ys es →
      IsExprs (xs ++ comma :: ys) (e :: es)

/-- `[expr (',' expr)*]` -/
inductive IsArguments : List Token → List Expr → Prop
  | none : IsArguments [] []
  | some {ts : List Token} {es : List Expr} : IsExprs ts es → IsArguments ts es

end

lemma IsExpr.loosest {ts : List Token} {e : Expr} (h : IsExpr .sign ts e) : IsExpr .disjunction ts e :=
  .tighten rfl (.tighten rfl (.tighten rfl (.tighten rfl (.tighten rfl (.tighten rfl h)))))

lemma IsExpr.ofPrimary {ts : List Token} {e : Expr} (h : IsExpr .primary ts e) : IsExpr .disjunction ts e :=
  .loosest (.tighten rfl h)

/-- `lvalue (',' lvalue)*` -/
inductive IsTargets : List Token → List Expr → Prop
  | one {ts : List Token} {e : Expr} : IsAccess false ts e → IsTargets ts [e]
  | more {comma : Token} {xs ys : List Token} {e : Expr} {es : List Expr} :
      IsAccess false xs e → comma.kind = .mark .comma → IsTargets ys es → IsTargets (xs ++ comma :: ys) (e :: es)

/-- The value of a constant: a literal, or a minus sign and a number. -/
inductive IsConstant : List Token → Expr → Prop
  | literal {t : Token} {e : Expr} : IsLiteral t e → IsConstant [t] e
  | negInteger {m t : Token} {s : Option Span} {n : Int} : m.kind = .mark .minus → IsLiteral t (.integer s n) →
      IsConstant [m, t] (.integer (spanning [m, t]) (-n))
  | negReal {m t : Token} {s : Option Span} {x : Binary64} : m.kind = .mark .minus → IsLiteral t (.real s x) →
      IsConstant [m, t] (.real (spanning [m, t]) x.negate)

/-! ## Types -/

/-- The primitive types and their keywords. -/
def primitives : List (TokenKind × Primitive) :=
  [(.keyword .integer, .integer), (.keyword .real, .real), (.keyword .boolean, .boolean),
   (.keyword .char, .char), (.keyword .string, .string)]

/-- `('[' expr ']')+` -/
inductive IsDimensions : List Token → List Expr → Prop
  | one {o c : Token} {ts : List Token} {e : Expr} :
      o.kind = .mark .lbracket → IsExpr .disjunction ts e → c.kind = .mark .rbracket →
      IsDimensions (o :: (ts ++ [c])) [e]
  | more {o c : Token} {ts us : List Token} {e : Expr} {es : List Expr} :
      o.kind = .mark .lbracket → IsExpr .disjunction ts e → c.kind = .mark .rbracket →
      IsDimensions us es → IsDimensions (o :: (ts ++ c :: us)) (e :: es)

mutual

inductive IsType : List Token → TypeExpr → Prop
  | primitive {t : Token} {p : Primitive} : (t.kind, p) ∈ primitives → IsType [t] (.primitive (spanning [t]) p)
  | named {t : Token} : t.kind = .identifier → IsType [t] (.named (spanning [t]) t.value)
  | enumeration {o c : Token} {ts : List Token} {names : List String} :
      o.kind = .mark .lparen → IsNames ts names → c.kind = .mark .rparen →
      IsType (o :: (ts ++ [c])) (.enumeration (spanning (o :: (ts ++ [c]))) names)
  | array {a o : Token} {ds ts : List Token} {es : List Expr} {element : TypeExpr} :
      a.kind = .keyword .array → IsDimensions ds es → o.kind = .keyword .of_ → IsType ts element →
      IsType (a :: (ds ++ o :: ts)) (.array (spanning (a :: (ds ++ o :: ts))) es element)
  | record {s b e : Token} {ts : List Token} {fields : List VarDecl} :
      s.kind = .keyword .structure_ → b.kind = .keyword .begin_ → IsVarDecls ts fields →
      e.kind = .keyword .end_ →
      IsType (s :: b :: (ts ++ [e])) (.record (spanning (s :: b :: (ts ++ [e]))) fields)

/-- `(ident (',' ident)* ':' type ';'?)*` -/
inductive IsVarDecls : List Token → List VarDecl → Prop
  | nil : IsVarDecls [] []
  | cons {c : Token} {ns ts us vs : List Token} {names : List String} {type : TypeExpr}
      {decls : List VarDecl} :
      IsNames ns names → c.kind = .mark .colon → IsType ts type →
      IsOptional (.mark .semicolon) us → IsVarDecls vs decls →
      IsVarDecls (ns ++ c :: (ts ++ (us ++ vs)))
        (⟨spanning (ns ++ c :: (ts ++ us)), names, type⟩ :: decls)

end

/-! ## Statements -/

/-- Whether the ambiguities of the grammar are left open or resolved. -/
inductive Mode where
  | ambiguous
  | resolved
  deriving DecidableEq

/-- The heading of a counting loop behind its keyword: `ident '<-' expr TO expr [STEP expr] DO`. -/
inductive IsForHeading : List Token → String → Expr → Expr → Option Expr → Prop
  | plain {n a t d : Token} {xs ys : List Token} {first last : Expr} :
      n.kind = .identifier → a.kind = .mark .assign → IsExpr .disjunction xs first →
      t.kind = .keyword .to_ → IsExpr .disjunction ys last → d.kind = .keyword .do_ →
      IsForHeading (n :: a :: (xs ++ t :: (ys ++ [d]))) n.value first last none
  | stepped {n a t s d : Token} {xs ys zs : List Token} {first last step : Expr} :
      n.kind = .identifier → a.kind = .mark .assign → IsExpr .disjunction xs first →
      t.kind = .keyword .to_ → IsExpr .disjunction ys last → s.kind = .keyword .step →
      IsExpr .disjunction zs step → d.kind = .keyword .do_ →
      IsForHeading (n :: a :: (xs ++ t :: (ys ++ s :: (zs ++ [d])))) n.value first last (some step)

section

variable (m : Mode)

mutual

/-- A statement.  It is `dangling` if it ends in an `IF` without an `ELSE`, so that an `ELSE` behind
it could belong to that `IF`. -/
inductive IsStmt : (dangling : Bool) → List Token → Stmt → Prop
  | ifThen {dangling : Bool} {i o c t : Token} {xs ys : List Token} {e : Expr} {yes : List Stmt} :
      i.kind = .keyword .if_ → o.kind = .mark .lparen → IsExpr .disjunction xs e →
      c.kind = .mark .rparen → t.kind = .keyword .then_ → IsBlock dangling ys yes →
      IsStmt true (i :: o :: (xs ++ c :: t :: ys))
        (.ifThen (spanning (i :: o :: (xs ++ c :: t :: ys))) e yes none)
  | ifElse {inner dangling : Bool} {i o c t l : Token} {xs ys zs : List Token} {e : Expr}
      {yes no : List Stmt} :
      i.kind = .keyword .if_ → o.kind = .mark .lparen → IsExpr .disjunction xs e →
      c.kind = .mark .rparen → t.kind = .keyword .then_ → IsBlock inner ys yes →
      (m = .resolved → inner = false) → l.kind = .keyword .else_ → IsBlock dangling zs no →
      IsStmt dangling (i :: o :: (xs ++ c :: t :: (ys ++ l :: zs)))
        (.ifThen (spanning (i :: o :: (xs ++ c :: t :: (ys ++ l :: zs)))) e yes (some no))
  | whileDo {dangling : Bool} {w o c d : Token} {xs ys : List Token} {e : Expr}
      {body : List Stmt} :
      w.kind = .keyword .while_ → o.kind = .mark .lparen → IsExpr .disjunction xs e →
      c.kind = .mark .rparen → d.kind = .keyword .do_ → IsBlock dangling ys body →
      IsStmt dangling (w :: o :: (xs ++ c :: d :: ys))
        (.while (spanning (w :: o :: (xs ++ c :: d :: ys))) e body)
  | doWhile {inner : Bool} {d w o c : Token} {xs ys : List Token} {body : List Stmt} {e : Expr} :
      d.kind = .keyword .do_ → IsBlock inner xs body → w.kind = .keyword .while_ →
      o.kind = .mark .lparen → IsExpr .disjunction ys e → c.kind = .mark .rparen →
      IsStmt false (d :: (xs ++ w :: o :: (ys ++ [c])))
        (.doWhile (spanning (d :: (xs ++ w :: o :: (ys ++ [c])))) body e)
  | forDo {dangling : Bool} {f : Token} {hs ys : List Token} {counter : String}
      {first last : Expr} {step : Option Expr} {body : List Stmt} :
      f.kind = .keyword .for_ → IsForHeading hs counter first last step →
      IsBlock dangling ys body →
      IsStmt dangling (f :: (hs ++ ys)) (.for (spanning (f :: (hs ++ ys))) counter first last step body)
  | switch {s b n : Token} {xs ys : List Token} {e : Expr} {cases : List CaseClause} :
      s.kind = .keyword .switch → IsExpr .disjunction xs e → b.kind = .keyword .begin_ →
      IsCases ys cases → n.kind = .keyword .end_ →
      IsStmt false (s :: (xs ++ b :: (ys ++ [n])))
        (.switch (spanning (s :: (xs ++ b :: (ys ++ [n])))) e cases none)
  | switchDefault {inner : Bool} {s b d c n : Token} {xs ys zs : List Token} {e : Expr}
      {cases : List CaseClause} {body : List Stmt} :
      s.kind = .keyword .switch → IsExpr .disjunction xs e → b.kind = .keyword .begin_ →
      IsCases ys cases → d.kind = .keyword .default_ → c.kind = .mark .colon →
      IsBlock inner zs body → n.kind = .keyword .end_ →
      IsStmt false (s :: (xs ++ b :: (ys ++ d :: c :: (zs ++ [n]))))
        (.switch (spanning (s :: (xs ++ b :: (ys ++ d :: c :: (zs ++ [n]))))) e cases (some body))
  | return_ {r o c : Token} {xs : List Token} {e : Expr} :
      r.kind = .keyword .return_ → o.kind = .mark .lparen → IsExpr .disjunction xs e →
      c.kind = .mark .rparen →
      IsStmt false (r :: o :: (xs ++ [c])) (.return (spanning (r :: o :: (xs ++ [c]))) e)
  | scan {s o c : Token} {xs : List Token} {targets : List Expr} :
      s.kind = .keyword .scan → o.kind = .mark .lparen → IsTargets xs targets →
      c.kind = .mark .rparen →
      IsStmt false (s :: o :: (xs ++ [c])) (.scan (spanning (s :: o :: (xs ++ [c]))) targets)
  | print {p o c : Token} {xs : List Token} {values : List Expr} :
      p.kind = .keyword .print → o.kind = .mark .lparen → IsExprs xs values →
      c.kind = .mark .rparen →
      IsStmt false (p :: o :: (xs ++ [c])) (.print (spanning (p :: o :: (xs ++ [c]))) values)
  | block {b n : Token} {xs : List Token} {body : List Stmt} :
      b.kind = .keyword .begin_ → IsStmts xs body → n.kind = .keyword .end_ →
      IsStmt false (b :: (xs ++ [n])) (.block (spanning (b :: (xs ++ [n]))) body)
  | assign {a : Token} {xs ys : List Token} {target value : Expr} :
      IsAccess false xs target → a.kind = .mark .assign → IsExpr .disjunction ys value →
      IsStmt false (xs ++ a :: ys) (.assign (spanning (xs ++ a :: ys)) target value)
  | call {n : Token} : n.kind = .identifier → IsStmt false [n] (.call (spanning [n]) n.value [])
  | callWith {n o c : Token} {xs : List Token} {args : List Expr} :
      n.kind = .identifier → o.kind = .mark .lparen → IsArguments xs args → c.kind = .mark .rparen →
      IsStmt false (n :: o :: (xs ++ [c])) (.call (spanning (n :: o :: (xs ++ [c]))) n.value args)

/-- `BEGIN stmts END | statement` -/
inductive IsBlock : (dangling : Bool) → List Token → List Stmt → Prop
  | list {b n : Token} {xs : List Token} {body : List Stmt} :
      b.kind = .keyword .begin_ → IsStmts xs body → n.kind = .keyword .end_ →
      IsBlock false (b :: (xs ++ [n])) body
  | single {dangling : Bool} {xs : List Token} {s : Stmt} :
      IsStmt dangling xs s → (m = .resolved → ∀ span body, s ≠ .block span body) →
      IsBlock dangling xs [s]

/-- `(statement | ';')*` -/
inductive IsStmts : List Token → List Stmt → Prop
  | nil : IsStmts [] []
  | semicolon {t : Token} {xs : List Token} {body : List Stmt} :
      t.kind = .mark .semicolon → IsStmts xs body → IsStmts (t :: xs) body
  | cons {dangling : Bool} {xs ys : List Token} {s : Stmt} {body : List Stmt} :
      IsStmt dangling xs s → IsStmts ys body → IsStmts (xs ++ ys) (s :: body)

/-- `(CASE expr (',' expr)* ':' block)*` -/
inductive IsCases : List Token → List CaseClause → Prop
  | nil : IsCases [] []
  | cons {dangling : Bool} {k c : Token} {xs ys zs : List Token} {values : List Expr}
      {body : List Stmt} {cases : List CaseClause} :
      k.kind = .keyword .case_ → IsExprs xs values → c.kind = .mark .colon →
      IsBlock dangling ys body → IsCases zs cases →
      IsCases (k :: (xs ++ c :: (ys ++ zs)))
        (⟨spanning (k :: (xs ++ c :: ys)), values, body⟩ :: cases)

end

end

/-! ## Declarations -/

/-- `(ident '=' literal ';'?)*` -/
inductive IsConsts : List Token → List ConstDecl → Prop
  | nil : IsConsts [] []
  | cons {n q : Token} {xs us vs : List Token} {e : Expr} {decls : List ConstDecl} :
      n.kind = .identifier → q.kind = .mark .equal → IsConstant xs e →
      IsOptional (.mark .semicolon) us → IsConsts vs decls →
      IsConsts (n :: q :: (xs ++ (us ++ vs)))
        (⟨spanning (n :: q :: (xs ++ us)), n.value, e⟩ :: decls)

/-- `(ident '=' type ';'?)*` -/
inductive IsTypeDecls : List Token → List TypeDecl → Prop
  | nil : IsTypeDecls [] []
  | cons {n q : Token} {xs us vs : List Token} {type : TypeExpr} {decls : List TypeDecl} :
      n.kind = .identifier → q.kind = .mark .equal → IsType xs type →
      IsOptional (.mark .semicolon) us → IsTypeDecls vs decls →
      IsTypeDecls (n :: q :: (xs ++ (us ++ vs)))
        (⟨spanning (n :: q :: (xs ++ us)), n.value, type⟩ :: decls)

/-- `(CONST const* | TYPE typedecl* | VAR vardecl*)*` -/
inductive IsDecls : List Token → Declarations → Prop
  | nil : IsDecls [] {}
  | consts {k : Token} {xs ys : List Token} {decls : List ConstDecl} {d : Declarations} :
      k.kind = .keyword .const_ → IsConsts xs decls → IsDecls ys d →
      IsDecls (k :: (xs ++ ys)) { d with constants := decls ++ d.constants }
  | types {k : Token} {xs ys : List Token} {decls : List TypeDecl} {d : Declarations} :
      k.kind = .keyword .type_ → IsTypeDecls xs decls → IsDecls ys d →
      IsDecls (k :: (xs ++ ys)) { d with types := decls ++ d.types }
  | vars {k : Token} {xs ys : List Token} {decls : List VarDecl} {d : Declarations} :
      k.kind = .keyword .var → IsVarDecls xs decls → IsDecls ys d →
      IsDecls (k :: (xs ++ ys)) { d with vars := decls ++ d.vars }

/-- `[VAR] ident ':' type` -/
inductive IsParam : List Token → Param → Prop
  | byValue {n c : Token} {xs : List Token} {type : TypeExpr} :
      n.kind = .identifier → c.kind = .mark .colon → IsType xs type →
      IsParam (n :: c :: xs) ⟨spanning (n :: c :: xs), n.value, type, false⟩
  | byReference {v n c : Token} {xs : List Token} {type : TypeExpr} :
      v.kind = .keyword .var → n.kind = .identifier → c.kind = .mark .colon → IsType xs type →
      IsParam (v :: n :: c :: xs) ⟨spanning (v :: n :: c :: xs), n.value, type, true⟩

/-- `param (',' param)*` -/
inductive IsParamList : List Token → List Param → Prop
  | one {xs : List Token} {p : Param} : IsParam xs p → IsParamList xs [p]
  | more {comma : Token} {xs ys : List Token} {p : Param} {ps : List Param} :
      IsParam xs p → comma.kind = .mark .comma → IsParamList ys ps →
      IsParamList (xs ++ comma :: ys) (p :: ps)

/-- `[param (',' param)*]` -/
inductive IsParams : List Token → List Param → Prop
  | none : IsParams [] []
  | some {xs : List Token} {ps : List Param} : IsParamList xs ps → IsParams xs ps

/-! ## Routines and programs -/

section

variable (m : Mode)

/-- `decls BEGIN stmts END ';'?` -/
inductive IsBody : List Token → Declarations → List Stmt → Prop
  | mk {b n : Token} {xs ys us : List Token} {decls : Declarations} {body : List Stmt} :
      IsDecls xs decls → b.kind = .keyword .begin_ → IsStmts m ys body →
      n.kind = .keyword .end_ → IsOptional (.mark .semicolon) us →
      IsBody (xs ++ b :: (ys ++ n :: us)) decls body

/-- Functions and procedures in any order, each kind in a list of its own. -/
inductive IsRoutines : List Token → List Routine → List Routine → Prop
  | nil : IsRoutines [] [] []
  | function {f n o c d : Token} {ps ts xs ys : List Token} {params : List Param}
      {result : TypeExpr} {locals : Declarations} {body : List Stmt} {functions procedures : List Routine} :
      f.kind = .keyword .function → n.kind = .identifier → o.kind = .mark .lparen →
      IsParams ps params → c.kind = .mark .rparen → d.kind = .mark .colon → IsType ts result →
      IsBody m xs locals body → IsRoutines ys functions procedures →
      IsRoutines (f :: n :: o :: (ps ++ c :: d :: (ts ++ (xs ++ ys))))
        (⟨spanning (f :: n :: o :: (ps ++ c :: d :: (ts ++ xs))), n.value, params, some result,
          locals, body⟩ :: functions) procedures
  | procedure {p n o c : Token} {ps xs ys : List Token} {params : List Param}
      {locals : Declarations} {body : List Stmt} {functions procedures : List Routine} :
      p.kind = .keyword .procedure → n.kind = .identifier → o.kind = .mark .lparen →
      IsParams ps params → c.kind = .mark .rparen → IsBody m xs locals body →
      IsRoutines ys functions procedures →
      IsRoutines (p :: n :: o :: (ps ++ c :: (xs ++ ys))) functions
        (⟨spanning (p :: n :: o :: (ps ++ c :: xs)), n.value, params, none, locals, body⟩ ::
          procedures)

/-- `ALGORITHM ident decls routine* BEGIN stmts END '.'` -/
inductive IsProgram : List Token → Program → Prop
  | mk {a n b e d : Token} {xs ys zs : List Token} {globals : Declarations}
      {functions procedures : List Routine} {body : List Stmt} :
      a.kind = .keyword .algorithm → n.kind = .identifier → IsDecls xs globals →
      IsRoutines m ys functions procedures → b.kind = .keyword .begin_ → IsStmts m zs body →
      e.kind = .keyword .end_ → d.kind = .mark .dot →
      IsProgram (a :: n :: (xs ++ (ys ++ b :: (zs ++ [e, d]))))
        ⟨spanning (a :: n :: (xs ++ (ys ++ b :: (zs ++ [e, d])))), n.value, globals, functions,
          procedures, body⟩

end

end AlgoLang.Grammar
