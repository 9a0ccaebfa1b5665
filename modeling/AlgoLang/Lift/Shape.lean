/-
# The shapes of simple C statements

Each function here recognises one shape in a text without blanks around it and gives its parts as
they stand, without judging them.
-/
import AlgoLang.CSource.Bracket
import AlgoLang.Text.Word

namespace AlgoLang.Lift

open Text CSource

/-- What follows the indices at the front of a text; blanks may stand before each. -/
def afterIndices (cs : List Char) : List Char :=
  match h : trimStart cs with
  | '[' :: r =>
    match h' : r.dropWhile (· != ']') with
    | _ :: after =>
      have : after.length < cs.length := by
        have h₁ := trimStart_length_le cs
        have h₂ := (List.dropWhile_suffix (l := r) (· != ']')).length_le
        simp only [h, h', List.length_cons] at h₁ h₂
        omega
      afterIndices after
    | [] => cs
  | _ => cs
termination_by cs.length

theorem afterIndices_length_le (cs : List Char) : (afterIndices cs).length ≤ cs.length := by
  fun_induction afterIndices cs with
  | case1 => omega
  | case2 => omega
  | case3 => omega

/-- What follows the fields, with their indices, at the front of a text. -/
def afterFields (cs : List Char) : List Char :=
  match h : trimStart cs with
  | '.' :: r =>
    match h' : takeWord? (trimStart r) with
    | some (_, rest) =>
      have : (afterIndices rest).length < cs.length := by
        have h₁ := trimStart_length_le cs
        have h₂ := trimStart_length_le r
        have h₃ := takeWord?_length h'
        have h₄ := afterIndices_length_le rest
        simp only [h, List.length_cons] at h₁
        omega
      afterFields (afterIndices rest)
    | none => cs
  | _ => cs
termination_by cs.length

/-- What follows something that can be assigned to: a name, its indices and its fields. -/
def afterTarget? (cs : List Char) : Option (List Char) :=
  (takeWord? cs).map fun r => afterFields (afterIndices r.2)

def isTarget (cs : List Char) : Bool :=
  afterTarget? cs == some []

structure Assignment where
  target : List Char
  op : Option Char
  value : List Char
  deriving DecidableEq

/-- What stands behind an equals sign; it is no comparison and something follows. -/
def valueAfterEquals? : List Char → Option (List Char)
  | '=' :: '=' :: _ => none
  | '=' :: r => if r.isEmpty then none else some (trimStart r)
  | _ => none

def assignment? (cs : List Char) : Option Assignment :=
  match afterTarget? cs with
  | none => none
  | some rest =>
    let target := cs.take (cs.length - rest.length)
    match trimStart rest with
    | [] => none
    | c :: r =>
      if "-+*/%".toList.contains c then (valueAfterEquals? r).map fun v => ⟨target, some c, v⟩
      else (valueAfterEquals? (c :: r)).map fun v => ⟨target, none, v⟩

/-- The step by one that a text is: the sign, and what is changed. -/
def increment? (cs : List Char) : Option (Char × List Char) :=
  match cs with
  | '+' :: '+' :: c :: r => some ('+', trimStart (c :: r))
  | '-' :: '-' :: c :: r => some ('-', trimStart (c :: r))
  | _ =>
    match cs.reverse with
    | '+' :: '+' :: c :: r => some ('+', trimEnd (c :: r).reverse)
    | '-' :: '-' :: c :: r => some ('-', trimEnd (c :: r).reverse)
    | _ => none

structure Call where
  name : String
  args : List Char
  closed : Bool
  deriving DecidableEq

/-- The call that a text is, judged by its first parenthesis and its last character. -/
def call? (cs : List Char) : Option Call :=
  match takeWord? cs with
  | none => none
  | some (w, r) =>
    match trimStart r with
    | '(' :: inside =>
      if inside.getLast? == some ')' then
        let closed := match parenthesised? inside with
          | some (_, []) => true
          | _ => false
        some ⟨String.ofList w, inside.dropLast, closed⟩
      else none
    | _ => none

/-- Whether the text starts with the word and does not go on in it. -/
def startsWithWord (word : String) (cs : List Char) : Bool :=
  word.toList.isPrefixOf cs && !(cs.drop word.length).head?.any isWordChar

/-- Whether the text starts with the keyword and a parenthesis, with blanks between them or not. -/
def startsWithHeader (keyword : String) (cs : List Char) : Bool :=
  keyword.toList.isPrefixOf cs && (trimStart (cs.drop keyword.length)).head? == some '('

/-- Something in parentheses behind the keyword, and the rest behind that. -/
def headerOf? (keyword : String) (cs : List Char) : Option (List Char × List Char) :=
  if startsWithHeader keyword cs then header? (cs.drop keyword.length) else none

/-- What follows the colon of a label, without blanks around it; a double colon is none. -/
def afterColon? (cs : List Char) : Option (List Char) :=
  match trimStart cs with
  | ':' :: ':' :: _ => none
  | ':' :: r => some (trim r)
  | _ => none

/-- A character literal at the front of a label, and what follows its colon. -/
def charLabel? (cs : List Char) : Option (List Char × List Char) :=
  let escaped := match cs with
    | '\'' :: '\\' :: c :: '\'' :: r => (afterColon? r).map fun rest => (['\'', '\\', c, '\''], rest)
    | _ => none
  escaped <|> match cs with
    | '\'' :: c :: '\'' :: r =>
      if c == '\'' then none else (afterColon? r).map fun rest => (['\'', c, '\''], rest)
    | _ => none

/-- The value of a label up to its colon, and what follows.  If there is nothing but blanks, one of
several counts as the value. -/
def plainLabel? (blanks cs : List Char) : Option (List Char × List Char) :=
  let value := trimEnd (cs.takeWhile (· != ':'))
  match value, afterColon? (cs.dropWhile (· != ':')) with
  | _, none => none
  | [], some rest =>
    match blanks.reverse with
    | b :: _ :: _ => some ([b], rest)
    | _ => none
  | value, some rest => some (value, rest)

def caseLabel? (cs : List Char) : Option (List Char × List Char) :=
  if "case".toList.isPrefixOf cs then
    let blanks := (cs.drop 4).takeWhile isBlank
    let body := trimStart (cs.drop 4)
    if blanks.isEmpty then none else charLabel? body <|> plainLabel? blanks body
  else none

/-- A `default` label: what follows it.  Nothing forbids a double colon here. -/
def defaultLabel? (cs : List Char) : Option (List Char) :=
  if "default".toList.isPrefixOf cs then
    match trimStart (cs.drop 7) with
    | ':' :: r => some (trim r)
    | _ => none
  else none

end AlgoLang.Lift
