/-
# What each line of a structured program does

Between two lines all open blocks are in braces and none of them is a switch: the scene is `Steady`.  Each line
takes a steady scene to a steady one.
-/
import AlgoLang.Proofs.Lift.Structured.Shape

namespace AlgoLang.Lift

open Scene CLine Text CSource List Except
open String (ofList)

variable {kind : BlockKind} {s' : Scene}

/-! ## Steady routines -/

/-- All open blocks are in braces, and there is no switch among them. -/
def OpenRoutine.Steady (r : OpenRoutine) : Prop :=
  ∀ b ∈ r.blocks, b.extent = .braced ∧ b.kind ≠ .switch

namespace OpenRoutine

variable {r : OpenRoutine}

lemma Steady.fillInnermost (h : r.Steady) : r.fillInnermost = r := by
  unfold OpenRoutine.fillInnermost
  split
  · next b bs hblocks =>
    have hkind := (h b (by rw [hblocks]; exact mem_cons_self)).2
    rw [if_neg (by simpa using hkind)]
  · rfl

lemma Steady.afterStatement (h : r.Steady) (elseNext : Bool) : r.afterStatement elseNext = r := by
  rw [OpenRoutine.afterStatement]
  cases hblocks : r.blocks with
  | nil => rw [closeSingles, ← hblocks]
  | cons b bs =>
    have hextent := (h b (by rw [hblocks]; exact mem_cons_self)).1
    rw [closeSingles, if_neg (by rw [hextent]; decide), ← hblocks]

lemma Steady.settle (h : r.Steady) (extent : Extent) : r.settle extent = r := by
  unfold OpenRoutine.settle
  split
  · next b bs hblocks =>
    have hextent := (h b (by rw [hblocks]; exact mem_cons_self)).1
    rw [if_neg (by rw [hextent]; decide)]
  · rfl

lemma Steady.closeUnbraced (h : r.Steady) : r.closeUnbraced r.blocks = r := by
  cases hblocks : r.blocks with
  | nil => rw [OpenRoutine.closeUnbraced, ← hblocks]
  | cons b bs =>
    have hextent := (h b (by rw [hblocks]; exact mem_cons_self)).1
    rw [OpenRoutine.closeUnbraced, if_pos (by rw [hextent]; decide), ← hblocks]

lemma Steady.breakSwitch? (h : r.Steady) : breakSwitch? r.blocks = none := by
  have hnone : ∀ {bs : List Block}, (∀ b ∈ bs, b.kind ≠ .switch) → OpenRoutine.breakSwitch? bs = none := by
    intro bs hbs
    induction bs with
    | nil => rfl
    | cons b bs ih =>
      have hkind := hbs b mem_cons_self
      have ih := ih fun b' hb' => hbs b' (mem_cons_of_mem b hb')
      rw [OpenRoutine.breakSwitch?]
      split
      · next heq => exact absurd heq hkind
      · rfl
      · rfl
      · rfl
      · rw [ih]; rfl
  exact hnone fun b hb => (h b hb).2

lemma Steady.emitLines (h : r.Steady) (line : String) (origin : Nat) :
    r.emitLines [line] origin = r.emit (.plain line) (some origin) := by
  show r.fillInnermost.emit (.plain line) (some origin) = _
  rw [h.fillInnermost]

def opened (r : OpenRoutine) (kind : BlockKind) : OpenRoutine :=
  { r with blocks := { kind, extent := .braced } :: r.blocks, depth := r.depth + 1 }

lemma Steady.opened (h : r.Steady) (hkind : kind ≠ .switch) : (r.opened kind).Steady := by
  intro b hb
  rcases mem_cons.mp hb with rfl | hb
  · exact ⟨rfl, hkind⟩
  · exact h b hb

def extended (r : OpenRoutine) (rows : List Row) : OpenRoutine :=
  { r with draft := { r.draft with body := r.draft.body ++ rows } }

lemma extended_extended (rows rows' : List Row) : (r.extended rows).extended rows' = r.extended (rows ++ rows') := by
  simp [extended]

lemma Steady.openBlock (h : r.Steady) (kind : BlockKind) (head : String) (origin : Nat) (elseNext : Bool) :
    r.openBlock kind [.plain head] [] ['\x7b'] origin elseNext =
      ((r.extended [⟨.plain head, r.depth, some origin⟩, ⟨.begin_, r.depth, none⟩]).opened kind, []) := by
  have hemit : r.emitStatement [.plain head] origin = r.emit (.plain head) (some origin) := h.emitLines head origin
  unfold OpenRoutine.openBlock
  rw [hemit]
  simp [OpenRoutine.emit, emitBegin, deeper, OpenRoutine.extended, OpenRoutine.opened]

lemma openBlock_bare (kind : BlockKind) (origin : Nat) (elseNext : Bool) :
    r.openBlock kind [] [] ['\x7b'] origin elseNext = ((r.extended [⟨.begin_, r.depth, none⟩]).opened kind, []) := rfl

lemma closeBrace_opened (hkind : kind ≠ .switch) (origin : Nat) (elseNext : Bool) :
    (r.opened kind).closeBrace origin elseNext =
      .inside ((r.extended [⟨.end_, r.depth, some origin⟩]).afterBlock { kind, extent := .braced } elseNext) := by
  show AfterBrace.inside _ = _
  unfold closeBlock
  rw [if_neg (by simpa using hkind)]
  rfl

lemma Steady.afterBlock (h : r.Steady) (hkind : kind ≠ .do) (elseNext : Bool) :
    r.afterBlock { kind, extent := .braced } elseNext = r := by
  unfold OpenRoutine.afterBlock
  rw [if_neg (by simpa using hkind)]
  split
  · rfl
  · exact h.afterStatement elseNext

end OpenRoutine

/-! ## Steady scenes -/

/-- In `main`, with nothing declared but variables, and between two statements. -/
structure Scene.Steady (s : Scene) : Prop where
  typeNames : s.sketch.typeNames = []
  byPointer : s.sketch.byPointer = []
  pointers : s.routine.pointers = []
  isMain : s.routine.isMain = true
  awaiting : s.routine.awaiting = false
  pendingDo : s.routine.pendingDo = false
  blocks : s.routine.Steady

namespace Scene

variable {s : Scene}

def extended (s : Scene) (rows : List Row) (warnings : List String) : Scene :=
  ⟨s.sketch.warn warnings, s.routine.extended rows⟩

def opened (s : Scene) (kind : BlockKind) : Scene :=
  ⟨s.sketch, s.routine.opened kind⟩

abbrev headed (s : Scene) (head : String) (origin : Nat) (kind : BlockKind) : Scene :=
  (s.extended [⟨.plain head, s.routine.depth, some origin⟩, ⟨.begin_, s.routine.depth, none⟩] []).opened kind

def pending (s : Scene) : Scene :=
  ⟨s.sketch, { s.routine with pendingDo := true }⟩

/-- One more variable, unless there is one like it. -/
def declared (s : Scene) (v : CName) : Scene :=
  ⟨{ s.sketch with vars := addVariables s.sketch.vars [⟨safeName v.text, "INTEGER", []⟩] }, s.routine⟩

lemma Steady.declared (h : s.Steady) (v : CName) : (s.declared v).Steady :=
  ⟨h.typeNames, h.byPointer, h.pointers, h.isMain, h.awaiting, h.pendingDo, h.blocks⟩

lemma Steady.extended (h : s.Steady) (rows : List Row) (warnings : List String) : (s.extended rows warnings).Steady :=
  ⟨h.typeNames, h.byPointer, h.pointers, h.isMain, h.awaiting, h.pendingDo, h.blocks⟩

lemma Steady.opened (h : s.Steady) (hkind : kind ≠ .switch) : (s.opened kind).Steady :=
  ⟨h.typeNames, h.byPointer, h.pointers, h.isMain, h.awaiting, h.pendingDo, h.blocks.opened hkind⟩

lemma extended_extended (rows rows' : List Row) (warnings warnings' : List String) :
    (s.extended rows warnings).extended rows' warnings' = s.extended (rows ++ rows') (warnings ++ warnings') := by
  simp [extended, Sketch.warn, OpenRoutine.extended_extended]

lemma extended_opened (rows : List Row) (warnings : List String) (kind : BlockKind) :
    (s.opened kind).extended rows warnings = (s.extended rows warnings).opened kind := rfl

lemma extended_nil (rows : List Row) : s.extended rows [] = ⟨s.sketch, s.routine.extended rows⟩ := by
  simp [extended, Sketch.warn]

end Scene

/-! ## Lines -/

section

variable {s : Scene} {text : List Char} {origin : Nat} {elseNext : Bool}

lemma fragment_of_step (h : step s text origin elseNext = .ok (.inside s' [])) :
    fragment s text origin elseNext = .ok (.inside s' []) := by
  show fragmentWith (2 * text.length + 1 + 1) s text origin elseNext = _
  rw [fragmentWith, h]
  rfl

lemma Scene.Steady.step_text (hs : s.Steady) :
    stripDereferences s.routine.pointers (stripAddressOf s.sketch.byPointer text) = text := by
  rw [hs.byPointer, hs.pointers, stripAddressOf_nil, stripDereferences_nil]

lemma Scene.Steady.step (hs : s.Steady) (hopen : text ≠ ['\x7b']) (hclose : text ≠ ['\x7d']) :
    step s text origin elseNext = controlOrSimple s text origin elseNext := by
  have hsettled : s.update (fun r => r.settle .single) = s := by rw [update, hs.blocks.settle]
  simp [Lift.step, hs.step_text, hopen, hclose, hs.awaiting, hsettled, hs.pendingDo]

lemma Scene.Steady.simple_line (hs : s.Steady) {line : String}
    (h : statement s (trim (dropEnd (· == ';') text)) = .ok (s, some [line])) :
    simple s text origin elseNext = .ok (s.extended [⟨.plain line, s.routine.depth, some origin⟩] []) := by
  have hsteady : (s.routine.emit (.plain line) (some origin)).Steady := hs.blocks
  rw [simple, h]
  show ok (update (update s _) _) = _
  rw [extended_nil, update, update, hs.blocks.emitLines, hsteady.afterStatement]
  rfl

lemma Scene.Steady.simple_comment (hs : s.Steady)
    (h : statement s (trim (dropEnd (· == ';') text)) = .ok (s, none)) : simple s text origin elseNext =
      .ok (s.extended [⟨.plain ("// " ++ ofList text),
        s.routine.depth, some origin⟩] ["Unsupported C construct kept as comment: " ++ ofList text]) := by
  have hsteady : (s.routine.emit (.plain ("// " ++ ofList text)) (some origin)).Steady := hs.blocks
  have hwarning : "Unsupported C construct kept as comment" ++ ": " ++ ofList text =
      "Unsupported C construct kept as comment: " ++ ofList text := by
    congr 1
  have hroutine : (s.keepAsComment text origin).routine =
      s.routine.emit (.plain ("// " ++ ofList text)) (some origin) :=
    hs.blocks.emitLines _ origin
  have hsketch : (s.keepAsComment text origin).sketch =
      s.sketch.warn ["Unsupported C construct kept as comment" ++ ": " ++ ofList text] := rfl
  rw [simple, h]
  show ok (Scene.mk (s.keepAsComment text origin).sketch
    ((s.keepAsComment text origin).routine.afterStatement elseNext)) = _
  rw [hroutine, hsketch, hsteady.afterStatement, hwarning]
  rfl

lemma controlOrSimple_of_uncontrolled (h : IsUncontrolled text) (hsimple : simple s text origin elseNext = .ok s') :
    controlOrSimple s text origin elseNext = .ok (.inside s' []) := by
  obtain ⟨hcase, hdefault, hheader, hword⟩ := h
  have hcontrol : control s text origin elseNext = .ok (s, none) := by
    simp only [control, hcase, hdefault, hheader "if" (by simp), hheader "while" (by simp), hheader "for" (by simp),
      hheader "switch" (by simp), hword "else" (by simp), hword "do" (by simp)]
    rfl
  rw [controlOrSimple, hcontrol]
  show (simple s text origin elseNext >>= fun s => ok (Progress.inside s [])) = _
  rw [hsimple]
  rfl

lemma Scene.Steady.fragment_of_simple (hs : s.Steady) (hne : ∀ c, text ≠ [c]) (h : IsUncontrolled text)
    (hsimple : simple s text origin elseNext = .ok s') : fragment s text origin elseNext = .ok (.inside s' []) := by
  refine fragment_of_step ?_
  rw [hs.step (hne _) (hne _)]
  exact controlOrSimple_of_uncontrolled h hsimple

lemma Scene.Steady.fragment_of_control (hs : s.Steady) (hne : ∀ c, text ≠ [c])
    (h : control s text origin elseNext = .ok (s', some [])) :
    fragment s text origin elseNext = .ok (.inside s' []) := by
  refine fragment_of_step ?_
  rw [hs.step (hne _) (hne _), controlOrSimple, h]
  rfl

lemma CLine.text_assign (v : CName) (e : CFormula) :
    (assign v e).text = v.text.toList ++ ' ' :: '=' :: ' ' :: (e.text ++ [';']) := by
  show v.text.toList ++ " = ".toList ++ e.text ++ [';'] = _
  simp

lemma Scene.Steady.fragment_assign (hs : s.Steady) (v : CName) (e : CFormula) :
    fragment s (assign v e).text origin elseNext = .ok (.inside (s.extended
        [⟨.plain (liftExpr v.text.toList ++ " <- " ++ liftExpr e.inner), s.routine.depth, some origin⟩] []) []) := by
  have hsemicolon : ';' ∉ v.text.toList ++ " = ".toList := by
    rw [mem_append, not_or]
    exact ⟨fun hmem => absurd (v.isNameChar_of_mem hmem) (by decide), by decide⟩
  obtain ⟨gap, hgap, htrim⟩ := e.exists_gap hsemicolon (by rw [append_assoc, v.trimStart_append])
  rw [append_assoc v.text.toList " = ".toList (gap ++ e.inner)] at htrim
  have hstop := CName.stops_space ('=' :: ' ' :: (gap ++ e.inner))
  have hstatement : statement s (v.text.toList ++ ' ' :: '=' :: ' ' :: (gap ++ e.inner)) =
      .ok (s, some [liftExpr v.text.toList ++ " <- " ++ liftExpr e.inner]) := by
    have hempty : (v.text.toList ++ ' ' :: '=' :: ' ' :: (gap ++ e.inner)).isEmpty = false := by simp
    have hbreak := v.ne_keyword (show "break" ∈ cKeywords by decide) hstop
    have hcontinue := v.ne_keyword (show "continue" ∈ cKeywords by decide) hstop
    simp only [statement, hempty, v.isReturn_eq_false hstop, beq_iff_eq, hbreak, hcontinue, hs.typeNames,
      v.typed?_eq_none hstop, actionLines_assign v e hgap, Bool.false_eq_true, if_false]
  have hne : ∀ c, (assign v e).text ≠ [c] := by
    intro c heq
    have hlength := congrArg List.length ((text_assign v e).symm.trans heq)
    simp at hlength
    omega
  exact hs.fragment_of_simple hne (by rw [text_assign]; exact v.isUncontrolled (CName.stops_space _))
    (hs.simple_line ((congrArg (statement s) htrim).trans hstatement))

lemma Scene.Steady.fragment_remark (hs : s.Steady) (r : CRemark) : fragment s (remark r).text origin elseNext =
      .ok (.inside (s.extended [⟨.plain ("// " ++ ofList (r.text ++ [';'])), s.routine.depth, some origin⟩]
        ["Unsupported C construct kept as comment: " ++ ofList (r.text ++ [';'])]) []) := by
  have htrim : trim (dropEnd (· == ';') (r.text ++ [';'])) = r.text := by
    rw [dropEnd_semicolon fun hc => absurd (all_eq_true.mp r.inert _ hc) (by decide), r.trimmed]
  have hstatement : statement s r.text = .ok (s, none) := by
    have hempty : r.text.isEmpty = false := by simpa using r.ne_nil
    have hbreak : breakLines s = (s, none) := by rw [breakLines, hs.blocks.breakSwitch?]
    have hreturn : isReturn r.text = false := by
      rcases r.noCounterpart with heq | heq | ⟨h, -, -⟩
      · rw [heq]; decide
      · rw [heq]; decide
      · exact h
    rw [statement, hempty, hreturn, hbreak]
    by_cases h₁ : r.text = "break".toList
    · simp [h₁]
    · by_cases h₂ : r.text = "continue".toList
      · simp [h₂]
      · obtain ⟨-, htyped, haction⟩ := (r.noCounterpart.resolve_left h₁).resolve_left h₂
        simp only [beq_iff_eq, h₁, h₂, hs.typeNames, htyped, haction, Bool.false_eq_true, if_false]
  have hne : ∀ c, (remark r).text ≠ [c] := by
    intro c heq
    rcases append_eq_singleton_iff.mp heq with ⟨hnil, -⟩ | ⟨-, hnil⟩
    · exact r.ne_nil hnil
    · cases hnil
  exact hs.fragment_of_simple hne r.uncontrolled (hs.simple_comment ((congrArg (statement s) htrim).trans hstatement))

lemma Scene.Steady.conditional (hs : s.Steady) (kind : BlockKind) (head : String → String) (c : CFormula) :
    conditional s kind head (some (c.inner, ['\x7b'])) origin elseNext =
      (s.headed (head (liftExpr c.inner)) origin kind, some []) := by
  rw [Lift.conditional, if_pos c.isLiftable_inner, hs.blocks.openBlock, headed, extended_nil]
  rfl

lemma Scene.Steady.fragment_branch (hs : s.Steady) (c : CFormula) : fragment s (branch c).text origin elseNext =
      .ok (.inside (s.headed ("IF (" ++ liftExpr c.inner ++ ") THEN") origin .branch) []) := by
  have htext : (branch c).text = c.heading "if" ++ [' ', '\x7b'] := append_assoc _ _ _
  have hcase : caseLabel? (branch c).text = none := rfl
  have hdefault : defaultLabel? (branch c).text = none := rfl
  have hheader : startsWithHeader "if" (branch c).text := by
    rw [htext]
    exact c.startsWithHeader_heading "if" _
  have hcondition : headerOf? "if" (branch c).text = some (c.inner, ['\x7b']) := by
    rw [htext, c.headerOf?_heading]
    rfl
  refine hs.fragment_of_control nofun ?_
  simp [control, hcase, hdefault, hheader, hcondition, hs.conditional]

lemma Scene.Steady.fragment_loop (hs : s.Steady) (c : CFormula) : fragment s (loop c).text origin elseNext =
      .ok (.inside (s.headed ("WHILE (" ++ liftExpr c.inner ++ ") DO") origin .while) []) := by
  have htext : (loop c).text = c.heading "while" ++ [' ', '\x7b'] := append_assoc _ _ _
  have hcase : caseLabel? (loop c).text = none := rfl
  have hdefault : defaultLabel? (loop c).text = none := rfl
  have hif : startsWithHeader "if" (loop c).text = false := rfl
  have helse : startsWithWord "else" (loop c).text = false := rfl
  have hheader : startsWithHeader "while" (loop c).text := by
    rw [htext]
    exact c.startsWithHeader_heading "while" _
  have hcondition : headerOf? "while" (loop c).text = some (c.inner, ['\x7b']) := by
    rw [htext, c.headerOf?_heading]
    rfl
  refine hs.fragment_of_control nofun ?_
  simp [control, hcase, hdefault, hif, helse, hheader, hcondition, hs.conditional]

lemma Scene.Steady.fragment_otherwise (hs : s.Steady) : fragment s CLine.otherwise.text origin elseNext =
      .ok (.inside (s.headed "ELSE" origin .otherwise) []) := by
  have hcase : caseLabel? CLine.otherwise.text = none := by decide
  have hdefault : defaultLabel? CLine.otherwise.text = none := by decide
  have hif : startsWithHeader "if" CLine.otherwise.text = false := by decide
  have helse : startsWithWord "else" CLine.otherwise.text := by decide
  have hrest : trim (CLine.otherwise.text.drop 4) = ['\x7b'] := by decide
  have hif' : startsWithHeader "if" ['\x7b'] = false := by decide
  refine hs.fragment_of_control (fun c heq => by cases heq) ?_
  simp only [control, hcase, hdefault, hif, helse, if_true, Bool.false_eq_true, if_false, hrest, otherwise, hif']
  rw [hs.blocks.emitLines, OpenRoutine.openBlock_bare, headed, extended_nil]
  have hrows := OpenRoutine.extended_extended (r := s.routine) [⟨.plain "ELSE", s.routine.depth, some origin⟩]
    [⟨.begin_, s.routine.depth, none⟩]
  rw [singleton_append] at hrows
  rw [← hrows]
  rfl

lemma Scene.Steady.fragment_repeat (hs : s.Steady) : fragment s repeat.text origin elseNext =
      .ok (.inside (s.headed "DO" origin .do) []) := by
  have hcase : caseLabel? repeat.text = none := by decide
  have hdefault : defaultLabel? repeat.text = none := by decide
  have hheader : ∀ k ∈ ["if", "while", "for"], startsWithHeader k repeat.text = false := by decide
  have helse : startsWithWord "else" repeat.text = false := by decide
  have hdo : startsWithWord "do" repeat.text := by decide
  have hrest : trim (repeat.text.drop 2) = ['\x7b'] := by decide
  refine hs.fragment_of_control (fun c heq => by cases heq) ?_
  simp only [control, hcase, hdefault, hheader "if" (by simp), hheader "while" (by simp), hheader "for" (by simp),
    helse, hdo, if_true, Bool.false_eq_true, if_false, hrest, hs.blocks.openBlock]
  rw [headed, extended_nil]
  rfl

lemma Scene.step_close : Lift.step s close.text origin elseNext = match s.routine.closeBrace origin elseNext with
      | .inside routine => .ok (.inside { s with routine } [])
      | .outside draft => .ok (.outside (s.sketch.store s.routine.isMain draft)) := rfl

lemma Scene.fragment_brace (hkind : kind ≠ .switch) :
    fragment (s.opened kind) close.text origin elseNext = .ok (.inside ⟨s.sketch,
      (s.routine.extended [⟨.end_, s.routine.depth, some origin⟩]).afterBlock { kind, extent := .braced } elseNext⟩ []) := by
  refine fragment_of_step ?_
  rw [step_close, opened, OpenRoutine.closeBrace_opened hkind]

lemma Scene.Steady.fragment_close (hs : s.Steady) (hkind : kind ≠ .switch) (hdo : kind ≠ .do) :
    fragment (s.opened kind) close.text origin elseNext =
      .ok (.inside (s.extended [⟨.end_, s.routine.depth, some origin⟩] []) []) := by
  have hsteady : (s.routine.extended [⟨.end_, s.routine.depth, some origin⟩]).Steady := hs.blocks
  rw [fragment_brace hkind, hsteady.afterBlock hdo, extended_nil]

/-- A closing brace, at the end of a block that waits for its condition. -/
lemma Scene.fragment_close_do (s : Scene) : fragment (s.opened .do) close.text origin elseNext =
      .ok (.inside (s.extended [⟨.end_, s.routine.depth, some origin⟩] []).pending []) := by
  rw [fragment_brace (by decide), extended_nil]
  rfl

lemma Scene.Steady.fragment_condition (hs : s.Steady) (c : CFormula) :
    fragment s.pending (c.heading "while" ++ [';']) origin elseNext = .ok (.inside (s.extended
        [⟨.plain ("WHILE (" ++ liftExpr c.inner ++ ")"), s.routine.depth, some origin⟩] []) []) := by
  have hopen : c.heading "while" ++ [';'] ≠ ['\x7b'] := nofun
  have hclose : c.heading "while" ++ [';'] ≠ ['\x7d'] := nofun
  have hsteady : s.pending.routine.Steady := hs.blocks
  have hsettled : s.pending.update (fun r => r.settle .single) = s.pending := by
    rw [update, hsteady.settle]
  have htext : stripDereferences s.pending.routine.pointers
      (stripAddressOf s.pending.sketch.byPointer (c.heading "while" ++ [';'])) = c.heading "while" ++ [';'] :=
    hs.step_text
  have hawaiting : s.pending.routine.awaiting = false := hs.awaiting
  have hpending : s.pending.routine.pendingDo := rfl
  have hback : s.pending.update (fun r => { r with pendingDo := false }) = s := by
    show .mk s.sketch { s.routine with pendingDo := false } = s
    rw [← hs.pendingDo]
  have hcondition : header? ((c.heading "while" ++ [';']).drop 5) = some (c.inner, [';']) := by
    have hdrop := c.drop_heading "while" [';']
    rw [show (c.heading "while" ++ [';']).drop 5 = _ from hdrop, c.header?_eq]
    rfl
  have hemitted : (s.routine.emit (.plain ("WHILE (" ++ liftExpr c.inner ++ ")")) (some origin)).Steady := hs.blocks
  refine fragment_of_step ?_
  simp only [Lift.step, htext, beq_iff_eq, hopen, hclose, hawaiting, hsettled, hpending, Bool.and_false,
    Bool.false_eq_true, if_false, if_true, closeDo, hback, c.startsWithWord_heading, hcondition]
  rw [update, hemitted.afterStatement, extended_nil]
  rfl

lemma Scene.Steady.fragment_end (hs : s.Steady) (hblocks : s.routine.blocks = []) :
    fragment s close.text origin elseNext =
      .ok (.outside { s.sketch with main := some (s.routine.finish (some origin)) }) := by
  have hbrace : s.routine.closeBrace origin elseNext = .outside (s.routine.finish (some origin)) := by
    unfold OpenRoutine.closeBrace
    rw [hs.blocks.closeUnbraced]
    simp only [hblocks]
  show fragmentWith (2 * close.text.length + 1 + 1) s close.text origin elseNext = _
  rw [fragmentWith, step_close, hbrace, hs.isMain]
  rfl

lemma IsUncontrolled.of_words {cs : List Char} (hcase : caseLabel? cs = none) (hdefault : defaultLabel? cs = none)
    (hif : startsWithHeader "if" cs = false) (hwhile : startsWithHeader "while" cs = false)
    (hfor : startsWithHeader "for" cs = false) (hswitch : startsWithHeader "switch" cs = false)
    (helse : startsWithWord "else" cs = false) (hdo : startsWithWord "do" cs = false) : IsUncontrolled cs := by
  refine ⟨hcase, hdefault, ?_, ?_⟩
  · simpa using ⟨hif, hwhile, hfor, hswitch⟩
  · simpa using ⟨helse, hdo⟩

lemma CLine.isUncontrolled_return (e : CFormula) : IsUncontrolled (CLine.return e).text :=
  .of_words rfl rfl rfl rfl rfl rfl rfl rfl

lemma Scene.Steady.fragment_return (hs : s.Steady) (hblocks : s.routine.blocks = []) (e : CFormula) :
    fragment s (CLine.return e).text origin elseNext = .ok (.inside s []) := by
  obtain ⟨gap, -, htrim⟩ := e.exists_gap (show ';' ∉ "return ".toList by decide) rfl
  have hstatement : statement s ("return ".toList ++ (gap ++ e.inner)) = .ok (s, some []) := by
    have hempty : ("return ".toList ++ (gap ++ e.inner)).isEmpty = false := rfl
    have hreturn : isReturn ("return ".toList ++ (gap ++ e.inner)) := rfl
    simp only [statement, hempty, hreturn, returnLines, hs.isMain, hblocks, isEmpty_nil, Bool.or_true, if_true,
      Bool.false_eq_true, if_false]
  refine hs.fragment_of_simple nofun (isUncontrolled_return e) ?_
  have hline : statement s (trim (dropEnd (· == ';') (CLine.return e).text)) = .ok (s, some []) :=
    (congrArg (statement s) htrim).trans hstatement
  rw [simple, hline]
  show ok (Scene.mk s.sketch (s.routine.afterStatement elseNext)) = _
  rw [hs.blocks.afterStatement]

lemma Scene.Steady.fragment_declare (hs : s.Steady) (v : CName) :
    fragment s (CLine.declare v).text origin elseNext = .ok (.inside (s.declared v) []) := by
  have htrim : trim (dropEnd (· == ';') (CLine.declare v).text) = "int ".toList ++ v.text.toList := by
    have hdrop : dropEnd (· == ';') (CLine.declare v).text = "int ".toList ++ v.text.toList := by
      refine dropEnd_semicolon fun hc => ?_
      rcases mem_append.mp hc with hc | hc
      · exact absurd hc (by decide)
      · exact absurd (v.isNameChar_of_mem hc) (by decide)
    have hstart : trimStart ("int ".toList ++ v.text.toList) = "int ".toList ++ v.text.toList := rfl
    rw [hdrop, trim, hstart, v.trimEnd_append]
  have hstatement : statement s ("int ".toList ++ v.text.toList) = .ok (s.declared v, some []) := by
    have hempty : ("int ".toList ++ v.text.toList).isEmpty = false := rfl
    have hreturn : isReturn ("int ".toList ++ v.text.toList) = false := rfl
    have hbreak : ("int ".toList ++ v.text.toList == "break".toList) = false := rfl
    have hcontinue : ("int ".toList ++ v.text.toList == "continue".toList) = false := rfl
    simp only [statement, hempty, hreturn, hbreak, hcontinue, hs.typeNames, typed?_declare, declaration_name,
      Bool.false_eq_true, if_false]
    show ok ((s.declare _).1, some (s.declare _).2) = _
    rw [Scene.declare, hs.isMain, Scene.declared]
    simp [Sketch.declare, Sketch.warn]
  refine hs.fragment_of_simple (by rintro _ ⟨⟩) (.of_words rfl rfl rfl rfl rfl rfl rfl rfl) ?_
  rw [simple, htrim, hstatement]
  show ok (Scene.mk (s.declared v).sketch (s.routine.afterStatement elseNext)) = _
  rw [hs.blocks.afterStatement]
  rfl

end

end AlgoLang.Lift
