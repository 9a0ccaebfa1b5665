/-
# Structured programs cut into pieces

Every line of a structured program is one piece; only the end of a `do` loop is two, a brace and a
condition.  The machine that reads lines is followed from one place between pieces to the next.
-/
import AlgoLang.Proofs.CSource.Origins
import AlgoLang.Proofs.Lift.Structured.Formula

namespace AlgoLang.CSource

open Text Lift List

namespace Cutting

variable {c : Char} {cs body : List Char} {s : Cutting} {ps : List (List Char)}

/-! ## Characters of a piece -/

/-- A character that can end no piece and opens no literal. -/
def isSafe (c : Char) : Bool :=
  !isQuote c && c != ';' && c != '\x7b' && c != '\x7d'

lemma isSafe_of_class {p : Char → Bool} (h : p c)
    (hp : ∀ d ∈ ['"', '\'', ';', '\x7b', '\x7d'], p d = false) : isSafe c := by
  have hne : ∀ d ∈ ['"', '\'', ';', '\x7b', '\x7d'], c ≠ d := fun d hd => ne_of_class h (hp d hd)
  simp [isSafe, isQuote, hne]

lemma isSafe_of_isBlank (h : isBlank c) : isSafe c :=
  isSafe_of_class h (forall_mem_of_all rfl)

def collected (s : Cutting) (origin : Nat) (cs : List Char) : Cutting :=
  cs.foldl (fun s c => (s.parens c).push origin c) s

lemma code_safe (h : isSafe c) (s : Cutting) (origin : Nat) (ahead : List Char) :
    s.code origin c ahead = ((s.parens c).push origin c, .code) := by
  simp only [isSafe, Bool.and_eq_true, bne_iff_ne, ne_eq] at h
  obtain ⟨⟨⟨-, hsemicolon⟩, hopen⟩, hclose⟩ := h
  exact code_of_not_endsPiece (by simp [endsPiece, hsemicolon, hopen, hclose]) origin ahead

lemma chars_collected {rest : List Char} (h : cs.all isSafe)
    (hcomment : IsUncommented (cs ++ rest.take 1)) (s : Cutting) (origin : Nat) :
    s.chars origin .code (cs ++ rest) = (s.collected origin cs).chars origin .code rest := by
  induction cs generalizing s with
  | nil => rfl
  | cons c cs ih =>
    rw [all_cons, Bool.and_eq_true] at h
    obtain ⟨hnext, hcomment'⟩ := isChain_cons.mp hcomment
    have hquote : isQuote c = false := by
      have hc := h.1
      simp only [isSafe, Bool.and_eq_true, Bool.not_eq_true'] at hc
      exact hc.1.1.1
    have hhead : (cs ++ rest).head? = (cs ++ rest.take 1).head? := by
      cases cs with
      | nil => cases rest <;> rfl
      | cons => rfl
    rw [cons_append, chars_code hquote fun hc d hd => hnext d (hhead ▸ hd) hc, code_safe h.1]
    exact ih h.2 hcomment' ((s.parens c).push origin c)

lemma buffer_collected (s : Cutting) (origin : Nat) (cs : List Char) :
    (s.collected origin cs).buffer = s.buffer ++ cs ∧ (s.collected origin cs).done = s.done ∧
      (s.collected origin cs).inComment = s.inComment := by
  induction cs generalizing s with
  | nil => simp [collected]
  | cons c cs ih =>
    obtain ⟨hbuffer, hdone, hcomment⟩ := ih ((s.parens c).push origin c)
    have hstep : s.collected origin (c :: cs) = ((s.parens c).push origin c).collected origin cs := rfl
    rw [hstep, hbuffer, hdone, hcomment]
    simp [push, parens_eq]

lemma nestFrom_openAfter {depth d : Nat} (h : nestFrom depth (c :: cs) = some d) :
    nestFrom (openAfter depth c) cs = some d := by
  unfold nestFrom at h
  unfold openAfter
  grind

lemma depth_collected {d : Nat} (h : nestFrom s.depth cs = some d) (origin : Nat) :
    (s.collected origin cs).depth = d := by
  induction cs generalizing s with
  | nil => exact Option.some.inj h
  | cons c cs ih =>
    refine ih (s := (s.parens c).push origin c) ?_
    rw [push, parens_eq]
    exact nestFrom_openAfter h

/-! ## Between pieces -/

/-- Nothing but blanks has been collected. -/
structure IsReady (s : Cutting) : Prop where
  buffer : allBlank s.buffer = true
  depth : s.depth = 0
  inComment : s.inComment = false

def texts (s : Cutting) : List (List Char) :=
  s.done.map Fragment.text

lemma trim_cons {gap : List Char} (hgap : allBlank gap) (hc : isBlank c = false) (back : List Char) :
    trim (gap ++ c :: back) = c :: trimEnd back := by
  rw [trim, trimStart_append hgap (by simpa using hc)]
  exact trimEnd_cons hc [] back

/-- The machine passes a text from one place between pieces to another and finds the given pieces. -/
def Cuts (cs : List Char) (ps : List (List Char)) : Prop :=
  ∀ (s : Cutting) (origin : Nat) (rest : List Char), s.IsReady → ∃ s' : Cutting, s'.IsReady ∧ s'.texts = s.texts ++ ps ∧
      s.chars origin .code (cs ++ rest) = s'.chars origin .code rest

lemma Cuts.append {ds : List Char} {qs : List (List Char)} (h : Cuts cs ps) (h' : Cuts ds qs) :
    Cuts (cs ++ ds) (ps ++ qs) := by
  intro s origin rest hs
  obtain ⟨s₁, hs₁, htexts₁, hchars₁⟩ := h s origin (ds ++ rest) hs
  obtain ⟨s₂, hs₂, htexts₂, hchars₂⟩ := h' s₁ origin rest hs₁
  refine ⟨s₂, hs₂, ?_, ?_⟩
  · rw [htexts₂, htexts₁, append_assoc]
  · rw [append_assoc, hchars₁, hchars₂]

lemma Cuts.gap {gap : List Char} (hgap : allBlank gap) : Cuts gap [] := by
  intro s origin rest hs
  have hall := all_eq_true.mp hgap
  have hsafe : gap.all isSafe := all_eq_true.mpr fun c hc => isSafe_of_isBlank (hall c hc)
  have hcomment : IsUncommented (gap ++ rest.take 1) := by
    refine .append (fun hmem => absurd (hall _ hmem) (by decide)) ?_
    cases rest with
    | nil => exact .nil
    | cons d rest => exact .singleton d
  obtain ⟨hbuffer, hdone, hnone⟩ := s.buffer_collected origin gap
  refine ⟨s.collected origin gap, ⟨?_, ?_, hnone.trans hs.inComment⟩, ?_, chars_collected hsafe hcomment s origin⟩
  · rw [hbuffer, allBlank, all_append, Bool.and_eq_true]
    exact ⟨hs.buffer, hgap⟩
  · exact depth_collected (by rw [hs.depth]; exact nestFrom_gap hgap 0) origin
  · rw [texts, hdone, append_nil]
    rfl

/-- A text that is one piece together with the semicolon or the opening brace behind it. -/
structure IsStatement (body : List Char) (last : Char) : Prop where
  safe : body.all isSafe = true
  uncommented : IsUncommented body
  nested : nestFrom 0 body = some 0
  front : ∃ c cs, body = c :: cs ∧ isBlank c = false ∧ c ≠ '#'
  last : last = ';' ∨ last = '\x7b' ∧ (trimEnd body).getLast? ≠ some '='

lemma IsStatement.initialiserLength? (h : IsStatement body c)
    {gap : List Char} (hbuffer : s.buffer = gap ++ body) (ahead : List Char) : s.initialiserLength? c ahead = none := by
  rcases h.last with rfl | ⟨rfl, hlast⟩
  · rfl
  · obtain ⟨d, ds, rfl, hd, -⟩ := h.front
    have hbody : trimEnd (d :: ds) = d :: trimEnd ds := trimEnd_cons hd [] ds
    rw [hbody] at hlast
    rw [Cutting.initialiserLength?, hbuffer, trimEnd_cons hd gap ds, getLast?_append_of_ne_nil _ (by simp), if_neg]
    simpa using hlast

lemma flush_texts {text : List Char} (h : trim s.buffer = text) (hne : text ≠ []) :
    s.flush.texts = s.texts ++ [text] ∧ s.flush.buffer = [] ∧ s.flush.depth = s.depth ∧
      s.flush.inComment = s.inComment := by
  rw [flush, h]
  cases text with
  | nil => exact absurd rfl hne
  | cons c cs => exact ⟨by simp [texts], rfl, rfl, rfl⟩

lemma Cuts.statement (h : IsStatement body c) : Cuts (body ++ [c]) [body ++ [c]] := by
  intro s origin rest hs
  have hc : c ∈ [';', '\x7b'] := by rcases h.last with rfl | ⟨rfl, -⟩ <;> simp
  have hfacts : ∀ c ∈ [';', '\x7b'], isQuote c = false ∧ isBlank c = false ∧ c ≠ '/' ∧ c ≠ '*' ∧
      c ≠ '\x7d' ∧ endsPiece c := forall_mem_of_all rfl
  obtain ⟨hquote, hblank, hslash, hstar, hbrace, hend⟩ := hfacts c hc
  have hcomment : IsUncommented (body ++ (c :: rest).take 1) := h.uncommented.concat ⟨hslash, hstar⟩
  obtain ⟨hbuffer, hdone, hnone⟩ := s.buffer_collected origin body
  have hdepth : (s.collected origin body).depth = 0 := depth_collected (by rw [hs.depth]; exact h.nested) origin
  have hcode : (s.collected origin body).code origin c rest = (((s.collected origin body).push origin c).flush, .code) := by
    rw [code_of_endsPiece hend hdepth, h.initialiserLength? hbuffer]
    rw [if_neg (by simpa using hbrace)]
  have htrim : trim ((s.collected origin body).push origin c).buffer = body ++ [c] := by
    obtain ⟨d, ds, rfl, hd, -⟩ := h.front
    rw [push, hbuffer]
    show trim (s.buffer ++ (d :: ds) ++ [c]) = d :: ds ++ [c]
    rw [append_assoc, cons_append, trim_cons hs.buffer hd, trimEnd_eq_self (by simpa using hblank)]
  obtain ⟨htexts, hempty, hdepth', hnone'⟩ := flush_texts htrim (by simp)
  refine ⟨((s.collected origin body).push origin c).flush, ⟨?_, ?_, ?_⟩, ?_, ?_⟩
  · rw [hempty]
    rfl
  · rw [hdepth']
    exact hdepth
  · rw [hnone']
    exact hnone.trans hs.inComment
  · rw [htexts, texts, texts]
    show (s.collected origin body).done.map Fragment.text ++ _ = _
    rw [hdone]
  · rw [append_assoc, singleton_append, chars_collected h.safe hcomment, chars_code hquote (absurd · hslash), hcode]

lemma Cuts.brace : Cuts ['\x7d'] [['\x7d']] := by
  intro s origin rest hs
  have hflush := flush_of_allBlank hs.buffer
  have hcode : s.code origin '\x7d' rest = (s.closeBrace origin, .code) := code_of_endsPiece rfl hs.depth origin rest
  refine ⟨s.closeBrace origin, ⟨?_, ?_, ?_⟩, ?_, ?_⟩
  · rw [closeBrace, hflush]
    rfl
  · rw [closeBrace, hflush]
    exact hs.depth
  · rw [closeBrace, hflush]
    exact hs.inComment
  · rw [closeBrace, hflush, texts, texts, map_append]
    rfl
  · rw [singleton_append, chars_code rfl (absurd · (by decide)), hcode]

lemma endLine_ready (hs : s.IsReady) : s.endLine.IsReady ∧ s.endLine.texts = s.texts := by
  have hflush := flush_of_allBlank hs.buffer
  rw [endLine, hs.depth]
  show s.flush.IsReady ∧ s.flush.texts = s.texts
  rw [hflush]
  exact ⟨⟨rfl, hs.depth, hs.inComment⟩, rfl⟩

lemma line_ready (hs : s.IsReady) {l : List Char} (hcuts : Cuts l ps) (hdirective : (trim l).head? ≠ some '#')
    (origin : Nat) : (s.line (l, origin)).IsReady ∧ (s.line (l, origin)).texts = s.texts ++ ps := by
  obtain ⟨s', hs', htexts, hchars⟩ := hcuts s origin [] hs
  have hend : s.chars origin .code l = s' := by
    rw [append_nil] at hchars
    exact hchars
  have hline : s.line (l, origin) = s'.endLine := by
    have hstart : s.uncommented? l = some l := by rw [uncommented?, hs.inComment]; rfl
    have hsame : { s with inComment := false } = s := by rw [← hs.inComment]
    have hno : s.isDirective l = false := by
      rw [isDirective, beq_eq_false_iff_ne.mpr hdirective, Bool.and_false]
    simp only [line]
    rw [hstart]
    simp only [hsame, hno, hend]
    rfl
  rw [hline, ← htexts]
  exact endLine_ready hs'

end Cutting

end AlgoLang.CSource

namespace AlgoLang.Lift

open Text CSource Cutting List

/-! ## Lines -/

def CLine.pieces : CLine → List (List Char)
  | closeRepeat c => [['\x7d'], c.heading "while" ++ [';']]
  | l => [l.text]

lemma isSafe_of_isNameChar (h : Token.isNameChar c) : isSafe c :=
  isSafe_of_class h (forall_mem_of_all rfl)

namespace CFormula

variable (e : CFormula)

lemma all_isSafe : e.text.all isSafe := by
  refine all_eq_true.mpr fun c hc => ?_
  rcases (e.spells.char hc).imp_right fun ⟨t, ht, hct⟩ => (e.pieces t ht).char hct with hblank | hname | hsign
  · exact isSafe_of_isBlank hblank
  · exact isSafe_of_isNameChar hname
  · have hall : ∀ c ∈ signChars, isSafe c := forall_mem_of_all rfl
    exact hall c hsign

lemma heading_facts {keyword : String} (h : keyword ∈ ["if", "while"]) :
    (e.heading keyword).all isSafe ∧ IsUncommented (e.heading keyword) ∧ nestFrom 0 (e.heading keyword) = some 0 ∧
      ∃ c cs, e.heading keyword = c :: cs ∧ isBlank c = false ∧ c ≠ '#' := by
  have hword : ∀ keyword ∈ ["if", "while"], (keyword.toList ++ " (".toList).all isSafe ∧
      '/' ∉ keyword.toList ++ " (".toList ∧ nestFrom 0 (keyword.toList ++ " (".toList) = some 1 := by decide
  obtain ⟨hsafe, hslash, hnest⟩ := hword keyword h
  have hfront : ∃ c cs, keyword.toList = c :: cs ∧ isBlank c = false ∧ c ≠ '#' := by
    simp only [mem_cons, not_mem_nil, or_false] at h
    rcases h with rfl | rfl
    · exact ⟨'i', _, rfl, by decide⟩
    · exact ⟨'w', _, rfl, by decide⟩
  refine ⟨?_, ?_, ?_, ?_⟩
  · rw [heading, all_append, all_append, hsafe, e.all_isSafe]
    rfl
  · rw [heading, append_assoc]
    exact .append hslash (e.uncommented.concat (by decide))
  · rw [heading, append_assoc, nestFrom_append, hnest, Option.bind_some, nestFrom_append, e.nestFrom_text]
    rfl
  · obtain ⟨c, cs, hcs, hfront⟩ := hfront
    exact ⟨c, _, by rw [heading, hcs]; rfl, hfront⟩

lemma isStatement_semicolon : IsStatement (e.heading "while") ';' := by
  obtain ⟨hsafe, hcomment, hnest, hfront⟩ := e.heading_facts (show "while" ∈ ["if", "while"] by simp)
  exact ⟨hsafe, hcomment, hnest, hfront, .inl rfl⟩

lemma isStatement_brace {keyword : String} (h : keyword ∈ ["if", "while"]) :
    IsStatement (e.heading keyword ++ [' ']) '\x7b' := by
  obtain ⟨hsafe, hcomment, hnest, c, cs, hcs, hfront⟩ := e.heading_facts h
  refine ⟨?_, hcomment.concat (by decide), ?_, ⟨c, cs ++ [' '], by rw [hcs]; rfl, hfront⟩, .inr ⟨rfl, ?_⟩⟩
  · rw [all_append, hsafe]
    rfl
  · rw [nestFrom_append, hnest]
    rfl
  · have htrim : trimEnd (e.heading keyword ++ [' ']) = e.heading keyword := by
      rw [heading, append_assoc]
      exact trimEnd_cons rfl _ [' ']
    rw [htrim, heading, getLast?_concat]
    decide

end CFormula

namespace CName

variable (v : CName)

lemma all_isNameChar : v.text.toList.all Token.isNameChar :=
  all_isNameChar_of_isWordPiece v.isWord

lemma all_isSafe : v.text.toList.all isSafe :=
  all_eq_true.mpr fun c hc => isSafe_of_isNameChar (all_eq_true.mp v.all_isNameChar c hc)

lemma slash_not_mem : '/' ∉ v.text.toList := fun hmem =>
  absurd (all_eq_true.mp v.all_isNameChar _ hmem) (by decide)

lemma exists_front : ∃ c cs, v.text.toList = c :: cs ∧ c.isAlpha := by
  have hword := v.isWord
  cases htext : v.text.toList with
  | nil =>
    rw [htext] at hword
    cases hword
  | cons c cs =>
    rw [htext, isWordPiece, Bool.and_eq_true] at hword
    exact ⟨c, cs, rfl, hword.1⟩

end CName

namespace CLine

lemma isStatement_declare (v : CName) : IsStatement ("int ".toList ++ v.text.toList) ';' where
  safe := by
    rw [all_append, v.all_isSafe]
    decide
  uncommented := .append (by decide) (.of_not_mem v.slash_not_mem)
  nested := by
    exact nestFrom_word v.all_isNameChar 0
  front := ⟨'i', _, rfl, by decide⟩
  last := .inl rfl

lemma isStatement_assign (v : CName) (e : CFormula) : IsStatement (v.text.toList ++ " = ".toList ++ e.text) ';' where
  safe := by
    rw [all_append, all_append, v.all_isSafe, e.all_isSafe]
    decide
  uncommented := by
    refine .append (fun hmem => ?_) e.uncommented
    rcases mem_append.mp hmem with hmem | hmem
    · exact v.slash_not_mem hmem
    · exact absurd hmem (by decide)
  nested := by
    rw [nestFrom_append, nestFrom_append, nestFrom_word v.all_isNameChar 0]
    exact e.nestFrom_text 0
  front := by
    obtain ⟨c, cs, hcs, halpha⟩ := v.exists_front
    have hplain := isPlain_of_isNameChar (isNameChar_of_isAlpha halpha)
    exact ⟨c, _, by rw [hcs]; rfl, isBlank_of_isPlain hplain, ne_of_class halpha rfl⟩
  last := .inl rfl

lemma isStatement_return (e : CFormula) : IsStatement ("return ".toList ++ e.text) ';' where
  safe := by
    rw [all_append, e.all_isSafe]
    decide
  uncommented := .append (by decide) e.uncommented
  nested := by
    exact e.nestFrom_text 0
  front := ⟨'r', _, rfl, by decide⟩
  last := .inl rfl

lemma isStatement_remark (r : CRemark) : IsStatement r.text ';' where
  safe := all_eq_true.mpr fun c hc => by
    have hinert := all_eq_true.mp r.inert c hc
    simp only [isInert, Bool.and_eq_true] at hinert
    obtain ⟨⟨⟨⟨⟨⟨hquote, hsemicolon⟩, hopen⟩, hclose⟩, -⟩, -⟩, -⟩ := hinert
    rw [isSafe, hquote, hsemicolon, hopen, hclose]
    rfl
  uncommented := .of_not_mem fun hmem => absurd (all_eq_true.mp r.inert _ hmem) (by decide)
  nested := r.nested
  front := by
    cases htext : r.text with
    | nil => exact absurd htext r.ne_nil
    | cons c cs =>
      refine ⟨c, cs, rfl, ?_, ?_⟩
      · refine Bool.eq_false_iff.mpr fun hblank => ?_
        have htrim : (trim r.text).length ≤ cs.length := by
          rw [htext, trim, trimStart, dropWhile_cons_of_pos hblank]
          exact Nat.le_trans (trimEnd_length_le _) (trimStart_length_le cs)
        rw [r.trimmed, htext, length_cons] at htrim
        omega
      · rintro rfl
        have hmem : '#' ∈ r.text := by rw [htext]; exact mem_cons_self
        exact absurd (all_eq_true.mp r.inert _ hmem) (by decide)
  last := .inl rfl

lemma isStatement_bare (h : body ∈ ["int main() ".toList, "else ".toList, "do ".toList]) :
    IsStatement body '\x7b' := by
  have hall : ∀ body ∈ ["int main() ".toList, "else ".toList, "do ".toList], body.all isSafe ∧ '/' ∉ body ∧
      nestFrom 0 body = some 0 ∧ (trimEnd body).getLast? ≠ some '=' := by decide
  obtain ⟨hsafe, hslash, hnest, hlast⟩ := hall body h
  have hfront : ∃ c cs, body = c :: cs ∧ isBlank c = false ∧ c ≠ '#' := by
    simp only [mem_cons, not_mem_nil, or_false] at h
    rcases h with rfl | rfl | rfl
    · exact ⟨'i', _, rfl, by decide⟩
    · exact ⟨'e', _, rfl, by decide⟩
    · exact ⟨'d', _, rfl, by decide⟩
  exact ⟨hsafe, .of_not_mem hslash, hnest, hfront, .inr ⟨rfl, hlast⟩⟩

/-- Every line is one piece, but for the closing braces. -/
lemma eq_statement (l : CLine) :
    (∃ body last, l.text = body ++ [last] ∧ l.pieces = [body ++ [last]] ∧ IsStatement body last) ∨ l = .close ∨
      ∃ c, l = .closeRepeat c := by
  cases l with
  | main => exact .inl ⟨_, '\x7b', rfl, rfl, isStatement_bare (by simp)⟩
  | declare v => exact .inl ⟨_, ';', rfl, rfl, isStatement_declare v⟩
  | assign v e => exact .inl ⟨_, ';', rfl, rfl, isStatement_assign v e⟩
  | remark r => exact .inl ⟨_, ';', rfl, rfl, isStatement_remark r⟩
  | branch c => exact .inl ⟨_, '\x7b', rfl, rfl, c.isStatement_brace (by simp)⟩
  | otherwise => exact .inl ⟨_, '\x7b', rfl, rfl, isStatement_bare (by simp)⟩
  | loop c => exact .inl ⟨_, '\x7b', rfl, rfl, c.isStatement_brace (by simp)⟩
  | «repeat» => exact .inl ⟨_, '\x7b', rfl, rfl, isStatement_bare (by simp)⟩
  | close => exact .inr (.inl rfl)
  | closeRepeat c => exact .inr (.inr ⟨c, rfl⟩)
  | «return» e => exact .inl ⟨_, ';', rfl, rfl, isStatement_return e⟩

lemma cuts (l : CLine) : Cuts l.text l.pieces := by
  rcases l.eq_statement with ⟨body, last, htext, hpieces, hbody⟩ | rfl | ⟨c, rfl⟩
  · rw [htext, hpieces]
    exact .statement hbody
  · exact .brace
  · have hgap : Cuts [' '] [] := .gap rfl
    have hcuts := Cuts.brace.append (hgap.append (.statement c.isStatement_semicolon))
    exact hcuts

lemma exists_front (l : CLine) : ∃ c cs, l.text = c :: cs ∧ isBlank c = false ∧ c ≠ '#' := by
  rcases l.eq_statement with ⟨body, last, htext, -, hbody⟩ | rfl | ⟨c, rfl⟩
  · obtain ⟨c, cs, rfl, hfront⟩ := hbody.front
    exact ⟨c, _, htext, hfront⟩
  · exact ⟨'\x7d', [], rfl, by decide⟩
  · exact ⟨'\x7d', _, rfl, by decide⟩

end CLine

/-- Lines as they are laid out: each with blanks around it, and with blank lines between them. -/
inductive LaidOut : List CLine → List (List Char) → Prop
  | done : LaidOut [] []
  | blank {ls : List CLine} {gap : List Char} {ts : List (List Char)} :
      allBlank gap = true → LaidOut ls ts → LaidOut ls (gap :: ts)
  | line {l : CLine} {ls : List CLine} {gap gap' : List Char} {ts : List (List Char)} :
      allBlank gap = true → allBlank gap' = true → LaidOut ls ts → LaidOut (l :: ls) ((gap ++ l.text ++ gap') :: ts)

lemma LaidOut.cut {ls : List CLine} {ts : List (List Char)} (h : LaidOut ls ts) {lines : List (List Char × Nat)}
    (hlines : lines.map Prod.fst = ts) {s : Cutting} (hs : s.IsReady) : (lines.foldl .line s).IsReady ∧
      (lines.foldl .line s).texts = s.texts ++ ls.flatMap CLine.pieces := by
  induction h generalizing lines s with
  | done =>
    obtain rfl := map_eq_nil_iff.mp hlines
    exact ⟨hs, by simp⟩
  | @blank ls gap ts hgap _ ih =>
    obtain ⟨⟨l, n⟩, lines, rfl, rfl, hrest⟩ := map_eq_cons_iff.mp hlines
    have hhash : (trim l).head? ≠ some '#' := by
      rw [trim_of_allBlank hgap]
      simp
    obtain ⟨hs', htexts⟩ := line_ready hs (.gap hgap) hhash n
    obtain ⟨hready, hall⟩ := ih hrest hs'
    exact ⟨hready, by rw [foldl_cons, hall, htexts, append_nil]⟩
  | @line l ls gap gap' ts hgap hgap' _ ih =>
    obtain ⟨⟨text, n⟩, lines, rfl, rfl, hrest⟩ := map_eq_cons_iff.mp hlines
    have hhash : (trim (gap ++ l.text ++ gap')).head? ≠ some '#' := by
      obtain ⟨c, cs, hcs, hblank, hne⟩ := l.exists_front
      rw [hcs, append_assoc, cons_append, trim_cons hgap hblank]
      simpa using hne
    have hcuts : Cuts (gap ++ l.text ++ gap') l.pieces := by
      have hcuts := ((Cuts.gap hgap).append l.cuts).append (.gap hgap')
      rwa [nil_append, append_nil] at hcuts
    obtain ⟨hs', htexts⟩ := line_ready hs hcuts hhash n
    obtain ⟨hready, hall⟩ := ih hrest hs'
    refine ⟨hready, ?_⟩
    rw [foldl_cons, hall, htexts, flatMap_cons, append_assoc]

/-! ## Includes -/

lemma expandLine_nil (s : Inlined) (line : List Char) :
    (expandLine [] s line).lines = [line] ∧ (expandLine [] s line).stop = s := by
  rw [expandLine]
  split
  · exact ⟨rfl, rfl⟩
  · exact ⟨rfl, rfl⟩

lemma expandFrom_nil (s : Inlined) (index : Nat) (lines : List (List Char)) :
    (expandFrom [] s index lines).lines.map Prod.fst = lines ∧
      (expandFrom [] s index lines).warnings = s.warnings := by
  induction lines generalizing index with
  | nil => exact ⟨rfl, rfl⟩
  | cons line lines ih =>
    obtain ⟨hline, hstop⟩ := expandLine_nil s line
    obtain ⟨hlines, hwarnings⟩ := ih (index + 1)
    simp only [expandFrom]
    rw [hline, hstop]
    exact ⟨congrArg (line :: ·) hlines, hwarnings⟩

lemma expand_nil (code : String) :
    (expand [] code).lines.map Prod.fst = splitAt '\n' code.toList ∧ (expand [] code).warnings = [] :=
  expandFrom_nil {} 0 (splitAt '\n' code.toList)

end AlgoLang.Lift
