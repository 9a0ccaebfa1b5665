/-
# A core of C and its image

The core has whole numbers, names and operations in parentheses for expressions, and assignments, branches
and loops in braces for statements.  `CoreProgram.lines` says how a program is written and `CoreBlock.image`
which statements it stands for.  Every program of the core is lifted without a warning, and what is read from
the result is its image, unless a number has more than `maxDigits` digits.
-/
import AlgoLang.Proofs.Lift.Structured.Reading

namespace AlgoLang.Lift

open Program Text CSource Token List CBlock
open String (toList toList_append)

variable {code : String} {cs : List Char} {sep : Char} {ts : List (List Char)}

/-! ## Expressions -/

/-- An ASCII letter, then ASCII letters and digits. -/
def isCoreWord : List Char → Bool
  | c :: cs => c.isAlpha && cs.all Char.isAlphanum
  | [] => false

/-- A name that is reserved neither in C nor in the algorithmic language. -/
structure CoreName where
  text : String
  isWord : isCoreWord text.toList = true
  free : text ∉ cKeywords
  notKeyword : Keyword.ofName? text = none

inductive CoreOp where
  | add | sub | mul | div | lt | gt | le | ge | eq | ne | and | or

namespace CoreOp

def text : CoreOp → String
  | add => "+" | sub => "-" | mul => "*" | div => "/" | lt => "<" | gt => ">" | le => "<=" | ge => ">="
  | eq => "==" | ne => "!=" | and => "&&" | or => "||"

def image : CoreOp → BinaryOp
  | add => .add | sub => .sub | mul => .mul | div => .div | lt => .lt | gt => .gt | le => .le | ge => .ge
  | eq => .eq | ne => .ne | and => .and | or => .or

def sign : CoreOp → Sign
  | add => .plus | sub => .minus | mul => .times | div => .slash | lt => .less | gt => .greater | le => .lessEqual
  | ge => .greaterEqual | eq => .equal | ne => .notEqual | and => .and | or => .or

def level : CoreOp → CLevel
  | add | sub => .sum
  | mul | div => .product
  | lt | gt | le | ge => .relation
  | eq | ne => .equality
  | and => .conjunction
  | or => .disjunction

lemma text_sign (o : CoreOp) : o.sign.text = o.text := by
  cases o <;> rfl

lemma exists_tighter (o : CoreOp) : ∃ k, o.level.tighter = some k ∧ (o.sign, o.image) ∈ o.level.operators := by
  cases o <;> exact ⟨_, rfl, by decide⟩

end CoreOp

/-- Expressions of the core. -/
inductive CoreExpr where
  | number (n : Nat)
  | name (v : CoreName)
  | binary (op : CoreOp) (left right : CoreExpr)

namespace CoreExpr

def text : CoreExpr → String
  | number n => toString n
  | name v => v.text
  | binary op l r => "(" ++ l.text ++ " " ++ op.text ++ " " ++ r.text ++ ")"

def image : CoreExpr → Expr
  | number n => .integer none n
  | name v => .name none v.text
  | binary op l r => .paren none (.binary none op.image l.image r.image)

def numbers : CoreExpr → List Nat
  | number n => [n]
  | name _ => []
  | binary _ l r => l.numbers ++ r.numbers

end CoreExpr

/-! ## Statements -/

/-- A list of statements, in the order of the source. -/
inductive CoreBlock where
  | done
  | assign (target : CoreName) (value : CoreExpr) (rest : CoreBlock)
  | branch (condition : CoreExpr) (yes rest : CoreBlock)
  | choice (condition : CoreExpr) (yes no rest : CoreBlock)
  | loop (condition : CoreExpr) (body rest : CoreBlock)
  | repeat (body : CoreBlock) (condition : CoreExpr) (rest : CoreBlock)

namespace CoreBlock

def lines : CoreBlock → List String
  | done => []
  | assign v e rest => (v.text ++ " = " ++ e.text ++ ";") :: rest.lines
  | branch c yes rest => ("if (" ++ c.text ++ ") \x7b") :: yes.lines ++ "\x7d" :: rest.lines
  | choice c yes no rest =>
    ("if (" ++ c.text ++ ") \x7b") :: yes.lines ++ "\x7d" :: "else \x7b" :: no.lines ++ "\x7d" :: rest.lines
  | loop c body rest => ("while (" ++ c.text ++ ") \x7b") :: body.lines ++ "\x7d" :: rest.lines
  | .repeat body c rest => "do \x7b" :: body.lines ++ ("\x7d while (" ++ c.text ++ ");") :: rest.lines

/-- The statements of the algorithmic language, without the stretches of source. -/
def image : CoreBlock → List Stmt
  | done => []
  | assign v e rest => .assign none (.name none v.text) e.image :: rest.image
  | branch c yes rest => .ifThen none c.image yes.image none :: rest.image
  | choice c yes no rest => .ifThen none c.image yes.image (some no.image) :: rest.image
  | loop c body rest => .while none c.image body.image :: rest.image
  | .repeat body c rest => .doWhile none body.image c.image :: rest.image

def exprs : CoreBlock → List CoreExpr
  | done => []
  | assign _ e rest => e :: rest.exprs
  | branch c yes rest => c :: yes.exprs ++ rest.exprs
  | choice c yes no rest => c :: yes.exprs ++ no.exprs ++ rest.exprs
  | loop c body rest => c :: body.exprs ++ rest.exprs
  | .repeat body c rest => body.exprs ++ c :: rest.exprs

def numbers (b : CoreBlock) : List Nat :=
  b.exprs.flatMap CoreExpr.numbers

end CoreBlock

/-- A program of the core; no two names differ only in case. -/
structure CoreProgram where
  vars : List CoreName
  body : CoreBlock
  distinct : vars.Pairwise fun v w => lower v.text ≠ lower w.text

namespace CoreProgram

def lines (p : CoreProgram) : List String :=
  "int main() \x7b" :: p.vars.map (fun v => "int " ++ v.text ++ ";") ++ p.body.lines ++ ["\x7d"]

/-- A text of C in which the program is written, indented in whatever way. -/
def IsWrittenAs (p : CoreProgram) (code : String) : Prop :=
  writtenLines code = p.lines.map String.toList

/-- No number has more digits than can be read. -/
def HasShortNumbers (p : CoreProgram) : Prop :=
  ∀ n ∈ p.body.numbers, (toString n).length ≤ maxDigits

end CoreProgram

/-! ## Expressions of the core are expressions of C -/

lemma CoreName.isWordPiece (v : CoreName) : isWordPiece v.text.toList := by
  have hword := v.isWord
  cases htext : v.text.toList with
  | nil =>
    rw [htext] at hword
    cases hword
  | cons c cs =>
    rw [htext, isCoreWord, Bool.and_eq_true, all_eq_true] at hword
    rw [Lift.isWordPiece, hword.1, Bool.true_and, all_eq_true]
    intro d hd
    simp [isNameChar, hword.2 d hd]

def CoreName.toName (v : CoreName) : CName :=
  ⟨v.text, v.isWordPiece, v.free⟩

lemma CoreName.safeName_text (v : CoreName) : safeName v.text = v.text := by
  rw [safeName, v.notKeyword]
  rfl

namespace CoreExpr

def tokens : CoreExpr → List CToken
  | number n => [.number (toString n)]
  | name v => [.word v.text]
  | binary op l r => .sign .lparen :: ((l.tokens ++ .sign op.sign :: r.tokens) ++ [.sign .rparen])

lemma derives (e : CoreExpr) : IsCExpr .primary e.tokens e.image := by
  induction e with
  | number n =>
    have h := IsCExpr.number (toString_ne_empty n) (all_isDigit_toString n)
    rwa [decimalValue_toString] at h
  | name v =>
    have h := IsCExpr.access (.name v.toName.isName)
    rwa [show v.toName.text = v.text from rfl, v.safeName_text] at h
  | binary op l r ihl ihr =>
    obtain ⟨k, hk, hop⟩ := op.exists_tighter
    exact .paren (IsCExpr.binary hk hop (ihl.ofPrimary _) (ihr.ofPrimary _)).loosest

/-- A text goes on with a blank or with a closing parenthesis, or not at all. -/
def Ends (rest : List Char) : Prop :=
  ∀ c, rest.head? = some c → c = ' ' ∨ c = ')'

lemma Ends.laid {t rest : List Char} (hrest : Ends rest) (ht : IsPiece t)
    (h : Laid isBlank ts rest) : Laid isBlank (t :: ts) (t ++ rest) := by
  have hfits : Fits t rest := by
    intro c hc
    rcases hrest c hc with rfl | rfl
    · exact ht.joins_eq_false rfl rfl
    · exact ht.joins_eq_false rfl rfl
  show Laid isBlank (t :: ts) ([] ++ (t ++ rest))
  exact .piece rfl hfits h

/-- The tokens of an expression stand in its text, whatever comes behind it. -/
lemma laid (e : CoreExpr) {rest : List Char} (hrest : Ends rest)
    (h : Laid isBlank ts rest) : Laid isBlank (e.tokens.map CToken.text ++ ts) (e.text.toList ++ rest) := by
  induction e generalizing ts rest with
  | number n =>
    have hne : (toString n).toList ≠ [] := fun heq => toString_ne_empty n (String.toList_injective heq)
    exact hrest.laid (.number hne (all_isDigit_toString n)) h
  | name v => exact hrest.laid (.word v.isWordPiece) h
  | binary op l r ihl ihr =>
    have hspace : ∀ cs, Ends (' ' :: cs) := by
      rintro cs c ⟨⟩
      exact .inl rfl
    have hparen : Ends (')' :: rest) := by
      rintro c ⟨⟩
      exact .inr rfl
    have hsign : IsPiece op.text.toList := by
      rw [← op.text_sign]
      cases op <;> exact .sign (by decide)
    have hclose : Laid isBlank ([')'] :: ts) (')' :: rest) := hrest.laid (.sign (by decide)) h
    have hright := (ihr hparen hclose).append (show [' '].all isBlank by decide)
    have hop := (hspace _).laid hsign hright
    have hleft := ihl (hspace _) (hop.append (show [' '].all isBlank by decide))
    have hopen : Fits ['('] (l.text.toList ++ ' ' :: (op.text.toList ++ ' ' :: (r.text.toList ++ ')' :: rest))) := by
      intro c _
      rfl
    have hall := Laid.piece (show [].all isBlank from rfl) hopen hleft
    have htext : (binary op l r).text.toList ++ rest =
        [] ++ (['('] ++ (l.text.toList ++ ' ' :: (op.text.toList ++ ' ' :: (r.text.toList ++ ')' :: rest)))) := by
      simp [text]
    have htokens : (binary op l r).tokens.map CToken.text ++ ts =
        ['('] :: (l.tokens.map CToken.text ++ op.text.toList :: (r.tokens.map CToken.text ++ [')'] :: ts)) := by
      have hparens : Sign.lparen.text.toList = ['('] ∧ Sign.rparen.text.toList = [')'] := by decide
      simp [tokens, CToken.text, op.text_sign, hparens.1, hparens.2]
    rw [htext, htokens]
    exact hall

lemma isFreeOfKeywords (e : CoreExpr) : IsFreeOfKeywords e.tokens := by
  have hfree : ∀ w, .word w ∈ e.tokens → w ∉ cKeywords := by
    intro w hw
    induction e with
    | number n => simp [tokens] at hw
    | name v =>
      obtain rfl : w = v.text := by simpa [tokens] using hw
      exact v.free
    | binary op l r ihl ihr =>
      have hw' : .word w ∈ l.tokens ∨ .word w ∈ r.tokens := by simpa [tokens] using hw
      exact hw'.elim ihl ihr
  exact fun w hkey hw => absurd hkey (hfree w hw)

def formula (e : CoreExpr) : CFormula where
  tokens := e.tokens
  tree := e.image
  text := e.text.toList
  derives := e.derives.ofPrimary .disjunction
  spells := by
    have hends : Ends [] := by rintro c ⟨⟩
    have h := e.laid hends (.done rfl)
    rwa [append_nil, append_nil] at h
  free := e.isFreeOfKeywords

/-- An operation in parentheses is regrouped with nothing. -/
lemma regrouped_tree (e : CoreExpr) : regrouped e.formula.tree = e.image := by
  show regrouped e.image = e.image
  induction e with
  | number n => rfl
  | name v => rfl
  | binary op l r ihl ihr =>
    have hgraft : graft l.image op.image r.image = .binary none op.image l.image r.image := by cases r <;> rfl
    rw [image, regrouped, regrouped, ihl, ihr, hgraft, ite_self]

lemma mem_numbers {e : CoreExpr} {ds : String} (h : .number ds ∈ e.tokens) : ∃ n ∈ e.numbers, ds = toString n := by
  induction e with
  | number n => exact ⟨n, mem_singleton_self n, by simpa [tokens] using h⟩
  | name v => simp [tokens] at h
  | binary op l r ihl ihr =>
    have h' : .number ds ∈ l.tokens ∨ .number ds ∈ r.tokens := by simpa [tokens] using h
    rw [numbers]
    rcases h' with h | h
    · obtain ⟨n, hn, hds⟩ := ihl h
      exact ⟨n, mem_append_left _ hn, hds⟩
    · obtain ⟨n, hn, hds⟩ := ihr h
      exact ⟨n, mem_append_right _ hn, hds⟩

end CoreExpr

/-! ## Programs of the core are structured -/

namespace CoreBlock

def toBlock : CoreBlock → CBlock
  | done => .done
  | assign v e rest => .assign v.toName e.formula rest.toBlock
  | branch c yes rest => .branch c.formula yes.toBlock rest.toBlock
  | choice c yes no rest => .choice c.formula yes.toBlock no.toBlock rest.toBlock
  | loop c body rest => .loop c.formula body.toBlock rest.toBlock
  | .repeat body c rest => .repeat body.toBlock c.formula rest.toBlock

lemma text_assign (v : CoreName) (e : CoreExpr) :
    (CLine.assign v.toName e.formula).text = (v.text ++ " = " ++ e.text ++ ";").toList := by
  show v.text.toList ++ " = ".toList ++ e.text.toList ++ [';'] = _
  simp

lemma text_branch (c : CoreExpr) : (CLine.branch c.formula).text = ("if (" ++ c.text ++ ") \x7b").toList := by
  show c.formula.heading "if" ++ [' '] ++ ['\x7b'] = _
  rw [append_assoc, c.formula.heading_append, toList_append, toList_append, append_assoc]
  rfl

lemma text_loop (c : CoreExpr) : (CLine.loop c.formula).text = ("while (" ++ c.text ++ ") \x7b").toList := by
  show c.formula.heading "while" ++ [' '] ++ ['\x7b'] = _
  rw [append_assoc, c.formula.heading_append, toList_append, toList_append, append_assoc]
  rfl

lemma text_closeRepeat (c : CoreExpr) :
    (CLine.closeRepeat c.formula).text = ("\x7d while (" ++ c.text ++ ");").toList := by
  show ['\x7d', ' '] ++ (c.formula.heading "while" ++ [';']) = _
  rw [c.formula.heading_append, toList_append, toList_append, append_assoc]
  rfl

variable (b : CoreBlock)

lemma lines_toBlock : b.toBlock.lines.map CLine.text = b.lines.map toList := by
  have hclose : CLine.close.text = "\x7d".toList := by decide
  have hotherwise : CLine.otherwise.text = "else \x7b".toList := by decide
  have hrepeat : CLine.repeat.text = "do \x7b".toList := by decide
  induction b with
  | done => rfl
  | assign v e b ih => simp [toBlock, CBlock.lines, lines, text_assign, ih]
  | branch c yes b ihYes ih =>
    simp [toBlock, CBlock.lines, lines, text_branch, hclose, ihYes, ih]
  | choice c yes no b ihYes ihNo ih =>
    simp [toBlock, CBlock.lines, lines, text_branch, hclose, hotherwise, ihYes, ihNo, ih]
  | loop c body b ihBody ih =>
    simp [toBlock, CBlock.lines, lines, text_loop, hclose, ihBody, ih]
  | «repeat» body c b ihBody ih =>
    simp [toBlock, CBlock.lines, lines, text_closeRepeat, hrepeat, ihBody, ih]

lemma image_toBlock : b.toBlock.image = b.image := by
  induction b with
  | done => rfl
  | assign v e b ih =>
    rw [toBlock, CBlock.image, image, ih, e.regrouped_tree, show v.toName.text = v.text from rfl, v.safeName_text]
  | branch c yes b ihYes ih => rw [toBlock, CBlock.image, image, ih, ihYes, c.regrouped_tree]
  | choice c yes no b ihYes ihNo ih => rw [toBlock, CBlock.image, image, ih, ihYes, ihNo, c.regrouped_tree]
  | loop c body b ihBody ih => rw [toBlock, CBlock.image, image, ih, ihBody, c.regrouped_tree]
  | «repeat» body c b ihBody ih => rw [toBlock, CBlock.image, image, ih, ihBody, c.regrouped_tree]

lemma remarks_toBlock : b.toBlock.remarks = [] := by
  induction b with
  | done => rfl
  | assign _ _ _ ih => exact ih
  | branch _ _ _ ihYes ih | loop _ _ _ ihYes ih | «repeat» _ _ _ ihYes ih => simp [toBlock, remarks, ihYes, ih]
  | choice _ _ _ _ ihYes ihNo ih => simp [toBlock, remarks, ihYes, ihNo, ih]

lemma formulas_toBlock : b.toBlock.formulas = b.exprs.map CoreExpr.formula := by
  induction b with
  | done => rfl
  | assign _ _ _ ih => simp [toBlock, formulas, exprs, ih]
  | branch _ _ _ ihYes ih | loop _ _ _ ihYes ih | «repeat» _ _ _ ihYes ih =>
    simp [toBlock, formulas, exprs, ihYes, ih]
  | choice _ _ _ _ ihYes ihNo ih => simp [toBlock, formulas, exprs, ihYes, ihNo, ih]

end CoreBlock

/-- Names that do not differ only in case are all declared, in their order. -/
lemma declaredVariables_of_distinct {names : List CoreName}
    (h : names.Pairwise fun v w => lower v.text ≠ lower w.text) :
    (declaredVariables (names.map CoreName.toName)).map Variable.name = names.map CoreName.text := by
  have hfold : ∀ (names : List CoreName) (known : List Variable),
      (∀ u ∈ known, ∀ v ∈ names, lower u.name ≠ lower v.text) →
      (names.Pairwise fun v w => lower v.text ≠ lower w.text) →
      ((names.map CoreName.toName).foldl (fun known v => addVariables known [⟨safeName v.text, "INTEGER", []⟩]) known).map
        Variable.name = known.map Variable.name ++ names.map CoreName.text := by
    intro names
    induction names with
    | nil =>
      intro known _ _
      simp
    | cons v names ih =>
      intro known hknown hnames
      rw [pairwise_cons] at hnames
      have hnew : (known.any fun u => lower u.name == lower v.text) = false := by
        rw [any_eq_false]
        exact fun u hu heq => hknown u hu v mem_cons_self (beq_iff_eq.mp heq)
      have hadd : addVariables known [⟨safeName v.toName.text, "INTEGER", []⟩] = known ++ [⟨v.text, "INTEGER", []⟩] := by
        rw [show v.toName.text = v.text from rfl, v.safeName_text, addVariables, foldl_cons, foldl_nil, hnew]
        rfl
      rw [map_cons, foldl_cons, hadd, ih _ ?_ hnames.2]
      · simp
      · intro u hu w hw
        rcases mem_append.mp hu with hu | hu
        · exact hknown u hu w (mem_cons_of_mem v hw)
        · obtain rfl := mem_singleton.mp hu
          exact hnames.1 w hw
  have hdeclared := hfold names [] (by rintro u ⟨⟩) h
  rwa [map_nil, nil_append] at hdeclared

namespace CoreProgram

variable (p : CoreProgram)

def toProgram : CProgram where
  vars := p.vars.map CoreName.toName
  body := p.body.toBlock

lemma isWrittenAs_toProgram (h : p.IsWrittenAs code) : p.toProgram.IsWrittenAs code := by
  have hmain : CLine.main.text = "int main() \x7b".toList := by decide
  have hclose : CLine.close.text = "\x7d".toList := by decide
  have hdeclare : ∀ v : CoreName, (CLine.declare v.toName).text = ("int " ++ v.text ++ ";").toList := by
    intro v
    show "int ".toList ++ v.text.toList ++ [';'] = _
    simp
  have hlines : p.toProgram.lines.map CLine.text = p.lines.map toList := by
    simp [CProgram.lines, toProgram, lines, CoreBlock.lines_toBlock, hmain, hclose, hdeclare, Function.comp_def]
  exact .trans h hlines.symm

lemma hasShortNumbers_toProgram (h : p.HasShortNumbers) : p.toProgram.HasShortNumbers := by
  intro f hf ds hds
  have hf' : f ∈ p.body.exprs.map CoreExpr.formula := CoreBlock.formulas_toBlock p.body ▸ hf
  obtain ⟨e, he, rfl⟩ := mem_map.mp hf'
  obtain ⟨n, hn, rfl⟩ := CoreExpr.mem_numbers hds
  exact h n (mem_flatMap.mpr ⟨e, he, hn⟩)

end CoreProgram

/-! ## The texts of programs -/

lemma splitAt_of_not_mem (h : sep ∉ cs) : splitAt sep cs = [cs] := by
  induction cs with
  | nil => rfl
  | cons c cs ih =>
    rw [mem_cons, not_or] at h
    rw [Text.splitAt, ih h.2]
    exact if_neg (by simpa using Ne.symm h.1)

lemma splitAt_append (h : sep ∉ cs) (rest : List Char) :
    splitAt sep (cs ++ sep :: rest) = cs :: splitAt sep rest := by
  induction cs with
  | nil =>
    obtain ⟨first, others, hsplit⟩ := exists_cons_of_ne_nil (splitAt_ne_nil sep rest)
    rw [nil_append, Text.splitAt, hsplit]
    exact if_pos (beq_self_eq_true sep)
  | cons c cs ih =>
    rw [mem_cons, not_or] at h
    rw [cons_append, Text.splitAt, ih h.2]
    exact if_neg (by simpa using Ne.symm h.1)

/-- A line that says something, without blanks around it. -/
structure IsWhole (cs : List Char) : Prop where
  oneLine : '\n' ∉ cs
  trimmed : trim cs = cs
  ne_nil : cs ≠ []

lemma IsWhole.of_ends {c d : Char} {mid : List Char} (hc : isBlank c = false) (hd : isBlank d = false)
    (hmid : '\n' ∉ mid) : IsWhole (c :: (mid ++ [d])) where
  oneLine := by
    have hne : ∀ e, isBlank e = false → '\n' ≠ e := fun e he => ne_of_class rfl he
    simp [hne c hc, hne d hd, hmid]
  trimmed := by
    rw [trim, trimStart_of_not_blank hc]
    exact trimEnd_cons hd (c :: mid) []
  ne_nil := cons_ne_nil _ _

lemma writtenLines_intercalate {ls : List String} (h : ∀ l ∈ ls, IsWhole l.toList) :
    writtenLines ("\n".intercalate ls) = ls.map toList := by
  have hone : ∀ {cs : List Char}, IsWhole cs → ∀ ts, ((cs :: ts).map trim).filter (!·.isEmpty) =
      cs :: (ts.map trim).filter (!·.isEmpty) := by
    intro cs hcs ts
    rw [map_cons, hcs.trimmed, filter_cons_of_pos (by simpa using hcs.ne_nil)]
  induction ls with
  | nil => rfl
  | cons l ls ih =>
    have hl := h l mem_cons_self
    cases ls with
    | nil =>
      rw [String.intercalate_singleton, writtenLines, splitAt_of_not_mem hl.oneLine, hone hl]
      rfl
    | cons m ls =>
      have htext : ("\n".intercalate (l :: m :: ls)).toList = l.toList ++ '\n' :: ("\n".intercalate (m :: ls)).toList := by
        rw [String.intercalate_cons_cons]
        simp
      rw [writtenLines, htext, splitAt_append hl.oneLine, hone hl, map_cons]
      exact congrArg _ (ih fun m hm => h m (mem_cons_of_mem l hm))

lemma CoreExpr.newline_not_mem (e : CoreExpr) : '\n' ∉ e.text.toList := by
  induction e with
  | number n =>
    intro hmem
    exact absurd (all_eq_true.mp (all_isDigit_toString n) _ hmem) (by decide)
  | name v =>
    intro hmem
    exact absurd (v.toName.isNameChar_of_mem hmem) (by decide)
  | binary op l r ihl ihr =>
    have hop : '\n' ∉ op.text.toList := by cases op <;> decide
    simp [text, ihl, ihr, hop]

/-- The ends of a line, which are on it and not blank. -/
def isFrame (front back : List Char) : Bool :=
  front.head?.any (!isBlank ·) && back.getLast?.any (!isBlank ·) && '\n' ∉ front ++ back

lemma IsWhole.framed {front back : String} {mid : List Char} (hmid : '\n' ∉ mid)
    (h : isFrame front.toList back.toList) : IsWhole (front.toList ++ mid ++ back.toList) := by
  cases hfront : front.toList with
  | nil => simp [isFrame, hfront] at h
  | cons c cs =>
    rcases eq_nil_or_concat back.toList with hback | ⟨ds, d, hback⟩
    · simp [isFrame, hback] at h
    · simp only [isFrame, hfront, hback, head?_cons, getLast?_concat, concat_eq_append, Option.any_some,
        Bool.and_eq_true, Bool.not_eq_true', decide_eq_true_eq, mem_append, mem_cons, not_or] at h
      simpa [hback] using of_ends h.1.1 h.1.2 (show '\n' ∉ cs ++ (mid ++ ds) by simp [h, hmid])

lemma CoreExpr.isWhole (e : CoreExpr) (front back : String) (h : isFrame front.toList back.toList) :
    IsWhole (front ++ e.text ++ back).toList := by
  simpa using IsWhole.framed e.newline_not_mem h

lemma CoreName.isFrame (v : CoreName) : Lift.isFrame (v.text ++ " = ").toList [';'] := by
  obtain ⟨c, cs, hfront, -⟩ := v.toName.exists_front
  have hname : ∀ d ∈ c :: cs, isNameChar d := fun d hd => v.toName.isNameChar_of_mem (hfront ▸ hd)
  have hline : '\n' ∉ c :: cs := fun hmem => absurd (hname _ hmem) (by decide)
  have hfront : v.text.toList = c :: cs := hfront
  simp [Lift.isFrame, hfront, isBlank_of_isNameChar (hname c mem_cons_self), ne_and_not_mem_of_not_mem_cons hline]
  decide

lemma CoreBlock.isWhole {b : CoreBlock} {l : String} (h : l ∈ b.lines) : IsWhole l.toList := by
  have hword : ∀ l ∈ ["\x7d", "else \x7b", "do \x7b"], IsWhole l.toList := by
    simp only [forall_mem_cons, not_mem_nil, false_implies, implies_true, and_true]
    exact ⟨⟨by decide, by decide, by decide⟩, ⟨by decide, by decide, by decide⟩, ⟨by decide, by decide, by decide⟩⟩
  induction b with
  | done => cases h
  | assign v e b ih =>
    rcases mem_cons.mp h with rfl | h
    · exact e.isWhole (v.text ++ " = ") ";" v.isFrame
    · exact ih h
  | branch c | loop c | «repeat» _ c | choice c =>
    simp only [lines, cons_append, mem_cons, mem_append] at h
    grind [c.isWhole "if (" ") \x7b" rfl, c.isWhole "while (" ") \x7b" rfl, c.isWhole "\x7d while (" ");" rfl]

/-- Every program of the core is written in the text of its lines. -/
lemma CoreProgram.isWrittenAs_lines (p : CoreProgram) : p.IsWrittenAs ("\n".intercalate p.lines) := by
  refine writtenLines_intercalate fun l hl => ?_
  simp only [lines, cons_append, mem_cons, mem_append, mem_map, not_mem_nil, or_false] at hl
  rcases hl with rfl | (⟨v, -, rfl⟩ | h) | rfl
  · exact ⟨by decide, by decide, by decide⟩
  · exact (CoreExpr.name v).isWhole "int " ";" rfl
  · exact CoreBlock.isWhole h
  · exact ⟨by decide, by decide, by decide⟩

/-! ## Programs of the core are read as their images -/

/-- **A program of the core is read as its image.**  Let no number have more than `maxDigits` digits.  The
program is lifted without a warning, and what is read from the result declares its names in their order and
has the image of its body for a body. -/
theorem CoreProgram.reads_image (p : CoreProgram) {code : String} (hcode : p.IsWrittenAs code) (hshort : p.HasShortNumbers) :
    (program code).success = true ∧ (program code).warnings = [] ∧
      ∃ q, Program.ofSource (program code).code = .ok (.ok q) ∧ bareBlock q.body = p.body.image ∧
        q.globals.vars.flatMap VarDecl.names = p.vars.map CoreName.text := by
  have hwritten := p.isWrittenAs_toProgram hcode
  obtain ⟨rows, origin, stop, -, hprogram⟩ := p.toProgram.exists_program hwritten
  obtain ⟨q, hq, hbody, hnames⟩ := p.toProgram.exists_ofSource hwritten (p.hasShortNumbers_toProgram hshort)
  refine ⟨by rw [hprogram]; rfl, ?_, q, hq, ?_, ?_⟩
  · rw [hprogram]
    show p.body.toBlock.remarks.map CRemark.warning = []
    rw [p.body.remarks_toBlock, List.map_nil]
  · exact hbody.trans p.body.image_toBlock
  · exact hnames.trans (declaredVariables_of_distinct p.distinct)

lemma n_notMem_cKeywords : "n" ∉ cKeywords := by decide

/-- A program of the core in which all of its statements are nested. -/
def countdown : CoreProgram :=
  let n : CoreName := ⟨"n", by decide, n_notMem_cKeywords, by decide +kernel⟩
  let sum : CoreName := ⟨"sum", by decide, by decide, by decide +kernel⟩
  { vars := [n, sum]
    body := .assign n (.number 10) <|
      .loop (.binary .gt (.name n) (.number 0))
        (.choice (.binary .eq (.binary .sub (.name n) (.number 1)) (.name sum))
          (.assign sum (.binary .add (.name sum) (.name n)) .done)
          (.repeat (.assign sum (.binary .mul (.name sum) (.number 2)) .done)
            (.binary .lt (.name sum) (.number 7)) .done) <|
        .assign n (.binary .sub (.name n) (.number 1)) .done)
      .done
    distinct := by decide +kernel }

example : countdown.lines =
    ["int main() \x7b", "int n;", "int sum;", "n = 10;", "while ((n > 0)) \x7b", "if (((n - 1) == sum)) \x7b",
     "sum = (sum + n);", "\x7d", "else \x7b", "do \x7b", "sum = (sum * 2);", "\x7d while ((sum < 7));", "\x7d",
     "n = (n - 1);", "\x7d", "\x7d"] := by
  decide +kernel

theorem reads_image_countdown :
    countdown.IsWrittenAs ("\n".intercalate countdown.lines) ∧ countdown.HasShortNumbers ∧
      (program ("\n".intercalate countdown.lines)).success = true ∧
      (program ("\n".intercalate countdown.lines)).warnings = [] ∧
      ∃ q, Program.ofSource (program ("\n".intercalate countdown.lines)).code = .ok (.ok q) ∧
        bareBlock q.body = countdown.body.image ∧
        q.globals.vars.flatMap VarDecl.names = countdown.vars.map CoreName.text := by
  have hshort : countdown.HasShortNumbers := by
    unfold CoreProgram.HasShortNumbers
    decide +kernel
  exact ⟨countdown.isWrittenAs_lines, hshort, countdown.reads_image countdown.isWrittenAs_lines hshort⟩

/-! ## Numbers that cannot be read -/

/-- A program does not reach beyond a number of too many digits. -/
lemma parse_ne_ok {front rest : List Token} {t : Token} (hfront : ∀ u ∈ front, u.kind ≠ .mark .dot)
    (ht : t.kind = .integer) (hlong : maxDigits < t.value.length) (taken : Taken Program (front ++ t :: rest)) :
    parse (front ++ t :: rest) ≠ .ok taken := by
  intro h
  obtain ⟨ts, heq, hshort, hprogram⟩ := Grammar.exists_isProgram_of_parse h
  obtain ⟨d, hlast, hd⟩ := hprogram.getLast?
  rcases append_eq_append_iff.mp heq with ⟨more, rfl, hmore⟩ | ⟨more, rfl, -⟩
  · cases more with
    | nil =>
      rw [append_nil] at hlast
      exact hfront d (mem_of_getLast? hlast) hd
    | cons u more =>
      obtain rfl : t = u := (cons.inj hmore).1
      exact absurd (hshort t (by simp) ht) (by omega)
  · exact hfront d (mem_append_left more (mem_of_getLast? hlast)) hd

/-- A program of the core that is one empty loop over a number. -/
def emptyLoop (n : Nat) : CoreProgram where
  vars := []
  body := .loop (.number n) .done .done
  distinct := .nil

lemma spelled_emptyLoop {n : Nat} (hcode : (emptyLoop n).IsWrittenAs code) :
    ∃ ws, Spelled ((.keyword .algorithm, "ALGORITHM") :: (.identifier, "TranslatedProgram") ::
      (.keyword .begin_, "BEGIN") :: (.keyword .while_, "WHILE") :: (.mark .lparen, "(") ::
        liftedWord (.number (toString n)) :: ws) (program code).code.toList := by
  have hclose : WritesLines [')'] (IsToken (.mark .rparen)) := .mark fun _ => ⟨rfl, rfl⟩
  have hspace : WritesLines [' '] (· = []) := .blank rfl
  have hdo : WritesLines _ _ := (hspace.behind (Writes.keyword "DO" .do_ rfl rfl).apart).spaced '\n' rfl
  have hbody := writes_block (done.writes nofun 1) 0
  obtain ⟨ws, hback, -⟩ := hclose.before (hdo.before (hbody.before CProgram.writes_end))
  have hnumber := Spelled.lifted (CoreExpr.number n).formula.regular.proper (CoreExpr.number n).formula.lifted_inner
    (apart_cons rfl) (hback [] [] trivial .done)
  have hrows : (emptyLoop n).toProgram.body.rows 0 = [(.plain ("WHILE (" ++
      liftExpr (CoreExpr.number n).formula.inner ++ ") DO"), 0), (.begin_, 0), (.end_, 0)] := rfl
  have hnone : (emptyLoop n).toProgram.declaration = [] := rfl
  refine ⟨ws ++ [], ?_⟩
  rw [(emptyLoop n).toProgram.toList_code ((emptyLoop n).isWrittenAs_toProgram hcode), hrows, hnone]
  generalize liftExpr (CoreExpr.number n).formula.inner = number at hnumber ⊢
  have hall : Spelled ((.keyword .algorithm, "ALGORITHM") :: (.identifier, "TranslatedProgram") ::
      (.keyword .begin_, "BEGIN") :: (.keyword .while_, "WHILE") :: (.mark .lparen, "(") :: _)
      ("ALGORITHM".toList ++ ' ' :: ("TranslatedProgram".toList ++ '\n' :: '\n' :: ("BEGIN".toList ++ '\n' ::
        ("    ".toList ++ ("WHILE".toList ++ ' ' :: '(' :: _))))) :=
    .spaced (by rfl) (by rfl) (.name (by rfl) (by rfl) (Apart.fits (apart_cons (by rfl)) _)
      (.space rfl (.space rfl (.name (by rfl) (by rfl) (Apart.fits (apart_cons (by rfl)) _) (.space rfl
        (.gap rfl (.spaced (by rfl) (by rfl) (.one rfl rfl hnumber))))))))
  convert hall using 1
  · rfl
  · simp [Row.written, Content.text, rows]

lemma ofSource_emptyLoop {n : Nat} (hlong : maxDigits < (toString n).length)
    (hcode : (emptyLoop n).IsWrittenAs code) (q : Program) : ofSource (program code).code ≠ .ok (.ok q) := by
  obtain ⟨ws, hspelled⟩ := spelled_emptyLoop hcode
  obtain ⟨tokens, eof, hscan, -, hwords⟩ := hspelled.scanFrom defaultFile {}
  have hscan' : scan (program code).code = ⟨tokens, eof, []⟩ := hscan
  obtain ⟨front, _, rfl, hfront, hwords⟩ := map_eq_append_iff.mp (show _ = [_, _, _, _, _] ++ _ from hwords)
  obtain ⟨t, rest, rfl, ht, -⟩ := map_eq_cons_iff.mp hwords
  have hdots : ∀ w ∈ front.map word, w.1 ≠ .mark .dot := by
    rw [hfront]
    decide
  have hvalue : t.value = toString n := (congrArg Prod.snd ht).trans String.ofList_toList
  rw [ofSource, hscan', ofScanned]
  cases hparse : parse (front ++ t :: rest) with
  | ok taken =>
    exact absurd hparse (parse_ne_ok (fun u hu => hdots _ (mem_map_of_mem hu)) (congrArg Prod.fst ht) (hvalue ▸ hlong) taken)
  | error fault => cases fault <;> simp [Except.map, Except.mapError]

lemma lt_length_toString_pow {k : Nat} (hk : 0 < k) : k < (toString (10 ^ k)).length := by
  have htext : (toString (10 ^ k)).toList = Nat.toDigits 10 (10 ^ k) := Nat.toList_repr
  rw [← String.length_toList, htext, ← not_le, Nat.length_toDigits_le_iff (by decide) hk]
  exact Nat.lt_irrefl _

/-- A number of more digits than can be read is lifted all the same, and the result is no program. -/
theorem emptyLoop_too_many_digits :
    (emptyLoop (10 ^ maxDigits)).IsWrittenAs ("\n".intercalate (emptyLoop (10 ^ maxDigits)).lines) ∧
      (program ("\n".intercalate (emptyLoop (10 ^ maxDigits)).lines)).success = true ∧
      ∀ q, Program.ofSource (program ("\n".intercalate (emptyLoop (10 ^ maxDigits)).lines)).code ≠ .ok (.ok q) := by
  have hcode := (emptyLoop (10 ^ maxDigits)).isWrittenAs_lines
  generalize "\n".intercalate (emptyLoop (10 ^ maxDigits)).lines = code at hcode ⊢
  have hlong : maxDigits < (toString (10 ^ maxDigits)).length := lt_length_toString_pow (by decide)
  obtain ⟨rows, origin, stop, -, hprogram⟩ :=
    (emptyLoop (10 ^ maxDigits)).toProgram.exists_program ((emptyLoop (10 ^ maxDigits)).isWrittenAs_toProgram hcode)
  exact ⟨hcode, by rw [hprogram]; rfl, ofSource_emptyLoop hlong hcode⟩

end AlgoLang.Lift
