/-
# Which characters of C text stand inside literals

C text is never parsed here, only scanned, and what stands between quotes is left alone.  A backslash inside a
literal keeps the next character from closing it, and a literal that is not closed reaches to the end.
-/

namespace AlgoLang.CSource

/-- Where a scan stands: in code, inside a literal, or just after a backslash inside one. -/
inductive Mode where
  | code
  | literal (quote : Char)
  | escaped (quote : Char)
  deriving DecidableEq

/-- Where a character stands: in code, at the front of a literal, or further inside it. -/
inductive Spot where
  | code
  | opening
  | inside
  deriving DecidableEq

def isQuote (c : Char) : Bool :=
  c == '"' || c == '\''

def Mode.next (m : Mode) (c : Char) : Mode :=
  match m with
  | code => if isQuote c then literal c else code
  | literal q => if c == '\\' then escaped q else if c == q then code else literal q
  | escaped q => literal q

def Mode.spot (m : Mode) (c : Char) : Spot :=
  match m with
  | code => if isQuote c then .opening else .code
  | _ => .inside

/-- The characters of a text, each with where it stands, for a scan that begins in the given mode. -/
def markedFrom (m : Mode) : List Char → List (Char × Spot)
  | [] => []
  | c :: cs => (c, m.spot c) :: markedFrom (m.next c) cs

def marked (cs : List Char) : List (Char × Spot) :=
  markedFrom .code cs

/-- A literal with its quotes, or code between two literals. -/
inductive Segment where
  | code (cs : List Char)
  | literal (cs : List Char)
  deriving DecidableEq

def Segment.text : Segment → List Char
  | code cs | literal cs => cs

/-- Puts one more character before segments; `inside` is the tail of a literal whose front has not
been met yet. -/
def Segment.prepend (c : Char × Spot) (acc : List Char × List Segment) : List Char × List Segment :=
  match c.2, acc with
  | .inside, (inside, ss) => (c.1 :: inside, ss)
  | .opening, (inside, ss) => ([], literal (c.1 :: inside) :: ss)
  | .code, (_, code cs :: ss) => ([], code (c.1 :: cs) :: ss)
  | .code, (_, ss) => ([], code [c.1] :: ss)

def segments (cs : List Char) : List Segment :=
  ((marked cs).foldr Segment.prepend ([], [])).2

def codeOnly (cs : List Char) : List Char :=
  (segments cs).flatMap fun
    | .code cs => cs
    | .literal _ => ['"', '"']

/-- Whether the character at an index stands inside a literal, its quotes included. -/
def inLiteral (cs : List Char) (index : Nat) : Bool :=
  ((marked cs)[index]?).any fun c => c.2 != .code

/-- The text without a comment that runs to the end of the line, and without blanks around it. -/
def cutLineComment : List Segment → List Char
  | [] => []
  | .literal cs :: ss => cs ++ cutLineComment ss
  | .code cs :: ss =>
    match beforeSlashes cs with
    | some kept => kept
    | none => cs ++ cutLineComment ss
where
  beforeSlashes : List Char → Option (List Char)
    | [] => none
    | '/' :: '/' :: _ => some []
    | c :: cs => (beforeSlashes cs).map (c :: ·)

theorem map_fst_markedFrom (m : Mode) (cs : List Char) : (markedFrom m cs).map Prod.fst = cs := by
  induction cs generalizing m with
  | nil => rfl
  | cons c cs ih => simp [markedFrom, ih]

theorem map_fst_marked (cs : List Char) : (marked cs).map Prod.fst = cs :=
  map_fst_markedFrom .code cs

end AlgoLang.CSource
