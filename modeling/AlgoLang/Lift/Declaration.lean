/-
# Declarations and parameters of C

A declarator that has no counterpart is skipped with a warning and the others stay.  A single star makes
characters a string and anything else a pointer, which variables cannot be and parameters are by reference.
-/
import AlgoLang.Lift.Expr
import AlgoLang.Lift.Type

namespace AlgoLang.Lift

open Text CSource

/-! ## Declarators -/

/-- Sizes in brackets at the front of a text, blanks after each, and what follows them. -/
def dimensions (cs : List Char) : List (List Char) × List Char :=
  match cs with
  | '[' :: r =>
    match h : r.dropWhile (· != ']') with
    | _ :: after =>
      have : (trimStart after).length < r.length + 1 := by
        have h₁ := trimStart_length_le after
        have h₂ := (List.dropWhile_suffix (l := r) (· != ']')).length_le
        simp only [h, List.length_cons] at h₂
        omega
      let (ds, rest) := dimensions (trimStart after)
      (trim (r.takeWhile (· != ']')) :: ds, rest)
    | [] => ([], cs)
  | _ => ([], cs)
termination_by cs.length

/-- A declared name with its stars, its sizes and its initial value. -/
structure Declarator where
  stars : Nat
  name : String
  dimensions : List (List Char)
  initial : Option (List Char)
  deriving DecidableEq

def declarator? (cs : List Char) : Option Declarator :=
  let stars := (cs.takeWhile (· == '*')).length
  match takeWord? (trimStart (cs.dropWhile (· == '*'))) with
  | none => none
  | some (w, r) =>
    let (ds, rest) := dimensions (trimStart r)
    match rest with
    | [] => some ⟨stars, String.ofList w, ds, none⟩
    | '=' :: r =>
      match trimStart r with
      | [] => none
      | initial => some ⟨stars, String.ofList w, ds, some initial⟩
    | _ => none

/-! ## Variables -/

structure Variable where
  name : String
  type : String
  dimensions : List String := []
  deriving DecidableEq

def sizes (ds : List String) : String :=
  String.join (ds.map fun d => "[" ++ d ++ "]")

def Variable.typeText (v : Variable) : String :=
  match v.dimensions with
  | [] => v.type
  | ds => "ARRAY" ++ sizes ds ++ " OF " ++ v.type

/-- What came of declarators: the variables, the assignments of initial values, and the warnings. -/
structure Declared where
  vars : List Variable := []
  initials : List String := []
  warnings : List String := []

def Declared.append (a b : Declared) : Declared :=
  ⟨a.vars ++ b.vars, a.initials ++ b.initials, a.warnings ++ b.warnings⟩

def Declared.skipped (warning : String) : Declared :=
  { warnings := [warning] }

def inner (cs : List Char) : List Char :=
  (cs.drop 1).dropLast

def initialiser (name : String) (ds : List (List Char)) (initial : List Char) : Declared :=
  let skipped := Declared.skipped ("Initialiser of '" ++ name ++ "' not supported, skipped")
  if initial.head? == some '\x7b' then
    if ds.length == 1 then
      let elements := (splitTopLevel ',' (inner initial)).filter (!allBlank ·)
      { initials := elements.zipIdx.map fun (e, i) => name ++ "[" ++ toString i ++ "] <- " ++ liftExpr e }
    else skipped
  else if isLiftable initial then { initials := [name ++ " <- " ++ liftExpr initial] }
  else skipped

/-- The type and the sizes of a declared name; none if it is a pointer. -/
def shape? (type : String) (d : Declarator) : Option (String × List (List Char)) :=
  if d.stars > 0 then
    if type == "CHAR" && d.stars == 1 && d.dimensions.isEmpty then some ("STRING", []) else none
  else if type == "CHAR" && d.dimensions.length == 1 then some ("STRING", [])
  else some (type, d.dimensions)

/-- A first size that was left open is the number of initial values. -/
def completeSizes (ds : List (List Char)) (initial : Option (List Char)) : List (List Char) :=
  match ds, initial with
  | [] :: more, some cs =>
    if cs.head? == some '\x7b' then
      (toString (splitTopLevel ',' (inner (trim cs))).length).toList :: more
    else ds
  | _, _ => ds

/-- The variable that a declarator is; its initial value is looked at only if `initials` says so. -/
def declare (initials : Bool) (type : String) (d : Declarator) : Declared :=
  let name := safeName d.name
  match shape? type d with
  | none => .skipped ("Pointer '" ++ name ++ "' not supported, skipped")
  | some (type, ds) =>
    let ds := completeSizes ds d.initial
    if ds.any List.isEmpty then .skipped ("Array '" ++ name ++ "' without a size not supported, skipped")
    else
      let plain : Declared := { vars := [⟨name, type, ds.map liftExpr⟩] }
      match d.initial.filter fun _ => initials with
      | some initial => plain.append (initialiser name ds (trim initial))
      | none => plain

def declareItem (initials : Bool) (type : String) (item : List Char) : Declared :=
  match trim item with
  | [] => {}
  | item =>
    match declarator? item with
    | some d => declare initials type d
    | none => .skipped ("Unsupported declarator skipped: " ++ String.ofList item)

def declareList (initials : Bool) (type : String) (cs : List Char) : Declared :=
  ((splitTopLevel ',' cs).map (declareItem initials type)).foldl Declared.append {}

inductive Declaration where
  | constant (name value : String)
  | vars (d : Declared)

def named? (cs : List Char) : Option (String × List Char) :=
  match takeWord? cs with
  | some (w, r) =>
    match trimStart r with
    | '=' :: value => if value.isEmpty then none else some (String.ofList w, trimStart value)
    | _ => none
  | none => none

def constant? (cs : List Char) : Except NumeralFault (Option (String × String)) :=
  match named? cs with
  | none => .ok none
  | some (name, value) => (literal? value).map fun v => v.map fun v => (safeName name, v)

def declaration (type : String) (rest : List Char) (isConst : Bool) :
    Except NumeralFault Declaration := do
  if type == "VOID" then
    return .vars (.skipped ("Unsupported declaration skipped: void " ++ String.ofList rest))
  match ← (if isConst then constant? rest else .ok none) with
  | some (name, value) => return .constant name value
  | none => return .vars (declareList true type rest)

/-- Adds variables whose names are new, whatever their case. -/
def addVariables (known new : List Variable) : List Variable :=
  new.foldl (fun vs v => if vs.any fun u => lower u.name == lower v.name then vs else vs ++ [v]) known

/-! ## Parameters -/

def param? (names : Keyed String) (item : List Char) : Option (String × Declarator) :=
  match typed? names (trim item) with
  | none => none
  | some t =>
    match declarator? t.rest with
    | some d => if d.initial.isNone then some (t.type, d) else none
    | none => none

/-- The items of a list of parameters; nothing and `void` stand for none. -/
def paramItems (cs : List Char) : List (List Char) :=
  let text := trim cs
  if text.isEmpty || text == "void".toList then [] else splitTopLevel ',' text

def liftParam (names : Keyed String) (item : List Char) : Except String String :=
  match param? names item with
  | none => .error ("Unsupported parameter skipped: " ++ String.ofList (trim item))
  | some (type, d) =>
    let name := safeName d.name
    if type == "CHAR" && (d.stars == 1 || d.dimensions.length == 1) then .ok (name ++ " : STRING")
    else if !d.dimensions.isEmpty then
      if d.dimensions.any List.isEmpty then
        .error ("Array parameter '" ++ name ++ "' without a size not supported, skipped")
      else .ok ("VAR " ++ name ++ " : ARRAY" ++ sizes (d.dimensions.map liftExpr) ++ " OF " ++ type)
    else if d.stars > 0 then .ok ("VAR " ++ name ++ " : " ++ type)
    else .ok (name ++ " : " ++ type)

/-- The parameters of a routine, and the warnings about those that were skipped. -/
def liftParams (names : Keyed String) (cs : List Char) : List String × List String :=
  let lifted := (paramItems cs).map (liftParam names)
  (lifted.filterMap Except.toOption, lifted.filterMap fun
    | .error w => some w
    | .ok _ => none)

/-- For each parameter its name in C if it is a plain pointer, which becomes one by reference. -/
def pointerParams (names : Keyed String) (cs : List Char) : List (Option String) :=
  (paramItems cs).map fun item =>
    match param? names item with
    | some (type, d) => if d.stars > 0 && d.dimensions.isEmpty && type != "CHAR" then some d.name else none
    | none => none

end AlgoLang.Lift
