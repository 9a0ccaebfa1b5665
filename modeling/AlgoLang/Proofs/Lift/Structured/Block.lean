/-
# Structured programs on their way through the machine

`CBlock.rows` says which rows a block becomes.  The machine adds just these rows when it reads the block: by
induction on the block, whatever is read behind it, for no block begins with an `else`.
-/
import AlgoLang.Proofs.Lift.Balance
import AlgoLang.Proofs.Lift.Structured.Scene

namespace AlgoLang.Lift

open Row Scene Text CSource List Fragment

variable {f : Fragment} {kind : BlockKind} {ls : List CLine} {ts : List (List Char)}
variable {s : Scene} {fs : List Fragment}

/-! ## Rows -/

/-- What a row says, wherever it came from. -/
def Row.shape (r : Row) : Content × Nat :=
  (r.content, r.depth)

def CRemark.line (r : CRemark) : String :=
  String.ofList (r.text ++ [';'])

def CRemark.warning (r : CRemark) : String :=
  "Unsupported C construct kept as comment: " ++ r.line

namespace CBlock

/-- The rows of a block that stands at the given depth. -/
def rows (depth : Nat) : CBlock → List (Content × Nat)
  | done => []
  | assign v e rest =>
    (.plain (liftExpr v.text.toList ++ " <- " ++ liftExpr e.inner), depth) :: rest.rows depth
  | remark r rest => (.plain ("// " ++ r.line), depth) :: rest.rows depth
  | branch c yes rest =>
    (.plain ("IF (" ++ liftExpr c.inner ++ ") THEN"), depth) :: (.begin_, depth) ::
      (yes.rows (depth + 1) ++ (.end_, depth) :: rest.rows depth)
  | choice c yes no rest =>
    (.plain ("IF (" ++ liftExpr c.inner ++ ") THEN"), depth) :: (.begin_, depth) ::
      (yes.rows (depth + 1) ++ (.end_, depth) :: (.plain "ELSE", depth) :: (.begin_, depth) ::
        (no.rows (depth + 1) ++ (.end_, depth) :: rest.rows depth))
  | loop c body rest =>
    (.plain ("WHILE (" ++ liftExpr c.inner ++ ") DO"), depth) :: (.begin_, depth) ::
      (body.rows (depth + 1) ++ (.end_, depth) :: rest.rows depth)
  | .repeat body c rest =>
    (.plain "DO", depth) :: (.begin_, depth) ::
      (body.rows (depth + 1) ++ (.end_, depth) :: (.plain ("WHILE (" ++ liftExpr c.inner ++ ")"), depth) ::
        rest.rows depth)

def warnings (b : CBlock) : List String :=
  b.remarks.map CRemark.warning

def pieces (b : CBlock) : List (List Char) :=
  b.lines.flatMap CLine.pieces

end CBlock

/-! ## What comes next -/

lemma fragments_cons {s' : Scene} (f : Fragment) (fs : List Fragment)
    (h : fragment s f.text f.origin (elseNext fs) = .ok (.inside s' [])) :
    fragments (.routine s) (f :: fs) = fragments (.routine s') fs := by
  rw [fragments, h]
  rfl

/-! ## Blocks -/

/-- The machine reads a block, whatever it reads then, and adds the rows of the block. -/
def CBlock.Runs (b : CBlock) : Prop :=
  ∀ {s : Scene}, s.Steady → ∀ {fs rest : List Fragment}, fs.map text = b.pieces → elseNext rest = false →
    ∃ rows : List Row, rows.map Row.shape = b.rows s.routine.depth ∧
      fragments (.routine s) (fs ++ rest) = fragments (.routine (s.extended rows b.warnings)) rest

section

variable {b : CBlock} {s : Scene} {fs : List Fragment} {g : Fragment}

lemma elseNext_close (hg : g.text = CLine.close.text) (rest : List Fragment) : elseNext (g :: rest) = false := by
  show startsWithWord "else" g.text = false
  rw [hg]
  decide

lemma CBlock.Runs.braced (hb : b.Runs) (hs : s.Steady) (hkind : kind ≠ .switch) (hdo : kind ≠ .do)
    (hfs : fs.map text = b.pieces) (hg : g.text = CLine.close.text) (rest : List Fragment) :
    ∃ rows : List Row, rows.map shape = b.rows (s.routine.depth + 1) ++ [(.end_, s.routine.depth)] ∧
      fragments (.routine (s.opened kind)) (fs ++ g :: rest) = fragments (.routine (s.extended rows b.warnings)) rest := by
  obtain ⟨rows, hrows, hrun⟩ := hb (hs.opened hkind) hfs (elseNext_close hg rest)
  have hclose := fragments_cons g rest (hg ▸ (hs.extended rows b.warnings).fragment_close hkind hdo)
  refine ⟨rows ++ [⟨.end_, s.routine.depth, some g.origin⟩], ?_, ?_⟩
  · rw [map_append, hrows]
    rfl
  · rw [hrun, extended_opened, hclose, extended_extended, append_nil]
    rfl

lemma CBlock.Runs.onward (hb : b.Runs) (hs : s.Steady) {past rest : List Fragment} {rows : List Row}
    {warnings : List String}
    (hpast : fragments (.routine s) past = fragments (.routine (s.extended rows warnings)) (fs ++ rest))
    (hfs : fs.map text = b.pieces) (hrest : elseNext rest = false) :
    ∃ rows' : List Row, rows'.map shape = rows.map shape ++ b.rows s.routine.depth ∧
      fragments (.routine s) past = fragments (.routine (s.extended rows' (warnings ++ b.warnings))) rest := by
  obtain ⟨rows', hrows', hrun⟩ := hb (hs.extended rows warnings) hfs hrest
  refine ⟨rows ++ rows', ?_, ?_⟩
  · rw [map_append, hrows']
    rfl
  · rw [hpast, hrun, extended_extended]

lemma CBlock.Runs.headed (hb : b.Runs) (hs : s.Steady) (hkind : kind ≠ .switch) (hdo : kind ≠ .do) {heads : List Row}
    (hf : ∀ elseNext, fragment s f.text f.origin elseNext = .ok (.inside ((s.extended heads []).opened kind) []))
    (hfs : fs.map text = b.pieces) (hg : g.text = CLine.close.text) (rest : List Fragment) :
    ∃ rows : List Row,
      rows.map shape = heads.map shape ++ (b.rows (s.routine.depth + 1) ++ [(.end_, s.routine.depth)]) ∧
      fragments (.routine s) (f :: (fs ++ g :: rest)) = fragments (.routine (s.extended rows b.warnings)) rest := by
  obtain ⟨rows, hrows, hrun⟩ := hb.braced (hs.extended heads []) hkind hdo hfs hg rest
  refine ⟨heads ++ rows, ?_, ?_⟩
  · rw [map_append, hrows]
    rfl
  · rw [fragments_cons f _ (hf _), hrun, extended_extended, nil_append]

lemma CBlock.Runs.repeated (hb : b.Runs) (hs : s.Steady) {g' : Fragment} {c : CFormula}
    (hfs : fs.map text = b.pieces) (hg : g.text = CLine.close.text) (hg' : g'.text = c.heading "while" ++ [';'])
    (rest : List Fragment) : ∃ rows : List Row, rows.map shape = b.rows (s.routine.depth + 1) ++
        [(.end_, s.routine.depth), (.plain ("WHILE (" ++ liftExpr c.inner ++ ")"), s.routine.depth)] ∧
      fragments (.routine (s.opened .do)) (fs ++ g :: g' :: rest) =
        fragments (.routine (s.extended rows b.warnings)) rest := by
  have hkind : BlockKind.do ≠ .switch := by decide
  obtain ⟨rows, hrows, hrun⟩ := hb (hs.opened hkind) hfs (elseNext_close hg (g' :: rest))
  have hs' := hs.extended rows b.warnings
  have hclose := fragments_cons g (g' :: rest) (hg ▸ (s.extended rows b.warnings).fragment_close_do)
  have hcondition := fragments_cons g' rest
    (hg' ▸ (hs'.extended [⟨.end_, s.routine.depth, some g.origin⟩] []).fragment_condition c)
  refine ⟨rows ++ [⟨.end_, s.routine.depth, some g.origin⟩,
    ⟨.plain ("WHILE (" ++ liftExpr c.inner ++ ")"), s.routine.depth, some g'.origin⟩], ?_, ?_⟩
  · rw [map_append, hrows]
    rfl
  · have hdepth : (s.extended rows b.warnings).routine.depth = s.routine.depth := rfl
    rw [hrun, extended_opened, hclose, hdepth, hcondition, extended_extended, extended_extended, append_nil, append_nil]
    rfl

end

lemma exists_of_map_block {p q : List Char} {ps qs : List (List Char)} (h : fs.map text = p :: (ps ++ q :: qs)) :
    ∃ f fs₁ g fs₂, fs = f :: (fs₁ ++ g :: fs₂) ∧ f.text = p ∧ fs₁.map text = ps ∧ g.text = q ∧ fs₂.map text = qs := by
  obtain ⟨f, gs, rfl, hf, hgs⟩ := map_eq_cons_iff.mp h
  obtain ⟨fs₁, hs, rfl, hfs₁, hhs⟩ := map_eq_append_iff.mp hgs
  obtain ⟨g, fs₂, rfl, hg, hfs₂⟩ := map_eq_cons_iff.mp hhs
  exact ⟨f, fs₁, g, fs₂, rfl, hf, hfs₁, hg, hfs₂⟩

namespace CBlock

variable (c : CFormula) (yes no b : CBlock)

lemma pieces_branch :
    (branch c yes b).pieces = (CLine.branch c).text :: (yes.pieces ++ CLine.close.text :: b.pieces) := by
  simp [pieces, lines, flatMap_cons, CLine.pieces]

lemma pieces_choice : (choice c yes no b).pieces = (CLine.branch c).text :: (yes.pieces ++ CLine.close.text ::
      CLine.otherwise.text :: (no.pieces ++ CLine.close.text :: b.pieces)) := by
  simp [pieces, lines, flatMap_cons, CLine.pieces]

lemma pieces_loop : (loop c yes b).pieces = (CLine.loop c).text :: (yes.pieces ++ CLine.close.text :: b.pieces) := by
  simp [pieces, lines, flatMap_cons, CLine.pieces]

lemma pieces_repeat : (CBlock.repeat yes c b).pieces = CLine.repeat.text ::
      (yes.pieces ++ CLine.close.text :: (c.heading "while" ++ [';']) :: b.pieces) := by
  simp [pieces, lines, flatMap_cons, CLine.pieces, show CLine.close.text = ['\x7d'] from rfl]

end CBlock

lemma CBlock.run (b : CBlock) : b.Runs := by
  induction b with
  | done =>
    intro s hs fs rest hfs hrest
    obtain rfl : fs = [] := map_eq_nil_iff.mp hfs
    refine ⟨[], rfl, ?_⟩
    have hsame : s.extended [] [] = s := by
      rw [extended_nil]
      simp [OpenRoutine.extended]
    exact (congrArg (fun s => fragments (.routine s) rest) hsame).symm
  | assign v e b ih =>
    intro s hs fs rest hfs hrest
    obtain ⟨f, fs, rfl, hf, hfs⟩ := map_eq_cons_iff.mp hfs
    exact ih.onward hs (fragments_cons f (fs ++ rest) (hf ▸ hs.fragment_assign v e)) hfs hrest
  | remark r b ih =>
    intro s hs fs rest hfs hrest
    obtain ⟨f, fs, rfl, hf, hfs⟩ := map_eq_cons_iff.mp hfs
    exact ih.onward hs (fragments_cons f (fs ++ rest) (hf ▸ hs.fragment_remark r)) hfs hrest
  | branch c yes b ihYes ih =>
    intro s hs fs rest hfs hrest
    rw [pieces_branch] at hfs
    obtain ⟨f, fs₁, g, fs₂, rfl, hf, hfs₁, hg, hfs₂⟩ := exists_of_map_block hfs
    obtain ⟨rows₁, hrows₁, hrun₁⟩ := ihYes.headed hs (by decide) (by decide)
      (fun _ => hf ▸ hs.fragment_branch c) hfs₁ hg (fs₂ ++ rest)
    obtain ⟨rows, hrows, hrun⟩ := ih.onward hs hrun₁ hfs₂ hrest
    refine ⟨rows, ?_, ?_⟩
    · rw [hrows, hrows₁]
      simp [CBlock.rows, shape]
    · rw [cons_append, append_assoc, cons_append, hrun]
      simp [warnings, remarks]
  | choice c yes no b ihYes ihNo ih =>
    intro s hs fs rest hfs hrest
    rw [pieces_choice] at hfs
    obtain ⟨f, fs₁, g, gs, rfl, hf, hfs₁, hg, hgs⟩ := exists_of_map_block hfs
    obtain ⟨f', fs₂, g', fs₃, rfl, hf', hfs₂, hg', hfs₃⟩ := exists_of_map_block hgs
    obtain ⟨rows₁, hrows₁, hrun₁⟩ := ihYes.headed hs (by decide) (by decide)
      (fun _ => hf ▸ hs.fragment_branch c) hfs₁ hg (f' :: (fs₂ ++ g' :: (fs₃ ++ rest)))
    have hs₁ := hs.extended rows₁ yes.warnings
    obtain ⟨rows₂, hrows₂, hrun₂⟩ := ihNo.headed hs₁ (by decide) (by decide)
      (fun _ => hf' ▸ hs₁.fragment_otherwise) hfs₂ hg' (fs₃ ++ rest)
    rw [extended_extended] at hrun₂
    obtain ⟨rows, hrows, hrun⟩ := ih.onward hs (hrun₁.trans hrun₂) hfs₃ hrest
    refine ⟨rows, ?_, ?_⟩
    · rw [hrows, map_append, hrows₁, hrows₂]
      simp [CBlock.rows, shape, extended, OpenRoutine.extended]
    · have htext : f :: (fs₁ ++ g :: f' :: (fs₂ ++ g' :: fs₃)) ++ rest =
          f :: (fs₁ ++ g :: f' :: (fs₂ ++ g' :: (fs₃ ++ rest))) := by simp
      rw [htext, hrun]
      simp [warnings, remarks]
  | loop c body b ihBody ih =>
    intro s hs fs rest hfs hrest
    rw [pieces_loop] at hfs
    obtain ⟨f, fs₁, g, fs₂, rfl, hf, hfs₁, hg, hfs₂⟩ := exists_of_map_block hfs
    obtain ⟨rows₁, hrows₁, hrun₁⟩ := ihBody.headed hs (by decide) (by decide)
      (fun _ => hf ▸ hs.fragment_loop c) hfs₁ hg (fs₂ ++ rest)
    obtain ⟨rows, hrows, hrun⟩ := ih.onward hs hrun₁ hfs₂ hrest
    refine ⟨rows, ?_, ?_⟩
    · rw [hrows, hrows₁]
      simp [CBlock.rows, shape]
    · rw [cons_append, append_assoc, cons_append, hrun]
      simp [warnings, remarks]
  | «repeat» body c b ihBody ih =>
    intro s hs fs rest hfs hrest
    rw [pieces_repeat] at hfs
    obtain ⟨f, fs₁, g, gs, rfl, hf, hfs₁, hg, hgs⟩ := exists_of_map_block hfs
    obtain ⟨g', fs₂, rfl, hg', hfs₂⟩ := map_eq_cons_iff.mp hgs
    have hhead := fragments_cons f (fs₁ ++ g :: g' :: (fs₂ ++ rest)) (hf ▸ hs.fragment_repeat)
    have hs₁ := hs.extended [⟨.plain "DO", s.routine.depth, some f.origin⟩, ⟨.begin_, s.routine.depth, none⟩] []
    obtain ⟨rows₁, hrows₁, hrun₁⟩ := ihBody.repeated hs₁ hfs₁ hg hg' (fs₂ ++ rest)
    rw [extended_extended] at hrun₁
    obtain ⟨rows, hrows, hrun⟩ := ih.onward hs (hhead.trans hrun₁) hfs₂ hrest
    refine ⟨rows, ?_, ?_⟩
    · rw [hrows, map_append, hrows₁]
      simp [CBlock.rows, shape, extended, OpenRoutine.extended]
    · rw [cons_append, append_assoc, cons_append, cons_append, hrun]
      simp [warnings, remarks]

/-! ## Programs -/

/-- The variables of declared names, in order; of names that differ only in case the first one counts. -/
def declaredVariables (names : List CName) : List Variable :=
  names.foldl (fun known v => addVariables known [⟨safeName v.text, "INTEGER", []⟩]) []

lemma Scene.foldl_declared (names : List CName) (s : Scene) : names.foldl declared s = ⟨{ s.sketch with
          vars := names.foldl (fun known v => addVariables known [⟨safeName v.text, "INTEGER", []⟩]) s.sketch.vars },
        s.routine⟩ := by
  induction names generalizing s with
  | nil => rfl
  | cons v names ih => rw [foldl_cons, foldl_cons, ih]; rfl

lemma fragments_declare (names : List CName) (hs : s.Steady)
    (hfs : fs.map text = names.map fun v => (CLine.declare v).text) (rest : List Fragment) :
    (names.foldl .declared s).Steady ∧
      fragments (.routine s) (fs ++ rest) = fragments (.routine (names.foldl Scene.declared s)) rest := by
  induction names generalizing s fs with
  | nil =>
    obtain rfl : fs = [] := map_eq_nil_iff.mp hfs
    exact ⟨hs, rfl⟩
  | cons v names ih =>
    obtain ⟨f, fs, rfl, hf, hfs⟩ := map_eq_cons_iff.mp hfs
    obtain ⟨hsteady, hrun⟩ := ih (hs.declared v) hfs
    refine ⟨hsteady, ?_⟩
    rw [cons_append, fragments_cons f (fs ++ rest) (by rw [hf]; exact hs.fragment_declare v), hrun]
    rfl

lemma fragments_return (result : Option CFormula) (hs : s.Steady) (hblocks : s.routine.blocks = [])
    (hfs : fs.map text = result.toList.map fun e => (CLine.return e).text)
    {g : Fragment} (hg : g.text = CLine.close.text) :
    elseNext (fs ++ [g]) = false ∧ fragments (.routine s) (fs ++ [g]) = fragments (.routine s) [g] := by
  cases result with
  | none =>
    obtain rfl : fs = [] := map_eq_nil_iff.mp hfs
    exact ⟨elseNext_close hg [], rfl⟩
  | some e =>
    obtain ⟨f, fs, rfl, hf, hfs⟩ := map_eq_cons_iff.mp hfs
    obtain rfl : fs = [] := map_eq_nil_iff.mp hfs
    refine ⟨?_, fragments_cons f [g] (by rw [hf]; exact hs.fragment_return hblocks e)⟩
    show startsWithWord "else" f.text = false
    rw [hf]
    exact (CLine.isUncontrolled_return e).2.2.2 "else" (by simp)

lemma fragments_end {g : Fragment} (rest : List Fragment) (hg : g.text = CLine.close.text) (hs : s.Steady)
    (hblocks : s.routine.blocks = []) : fragments (.routine s) (g :: rest) =
      fragments (.outer { s.sketch with main := some (s.routine.finish (some g.origin)) } 0) rest := by
  rw [fragments, hg, hs.fragment_end hblocks]
  rfl

def mainScene (sk : Sketch) (origin : Nat) : Scene :=
  ⟨sk, { draft := { name := "main", origin }, isMain := true, awaiting := false }⟩

lemma fragment_main_line {sk : Sketch} (hnames : sk.typeNames = []) (hf : f.text = CLine.main.text)
    (next : List Fragment) : sk.fragment f next = .ok (.routine (mainScene sk f.origin)) := by
  obtain ⟨text, origin⟩ := f
  obtain rfl : text = "int main() \x7b".toList := hf.trans rfl
  exact fragment_main_head (show routineHead? "main() \x7b".toList = _ by cbv) (by cbv) (by decide +kernel)
    (by decide +kernel) sk hnames origin next

lemma laidOut_of_lines (h : (ts.map trim).filter (!·.isEmpty) = ls.map CLine.text) : LaidOut ls ts := by
  induction ts generalizing ls with
  | nil =>
    obtain rfl : ls = [] := map_eq_nil_iff.mp h.symm
    exact .done
  | cons t ts ih =>
    obtain ⟨gap, gap', hgap, hgap', ht⟩ := exists_gaps t
    rw [map_cons] at h
    by_cases hempty : trim t = []
    · rw [filter_cons_of_neg (by simp [hempty])] at h
      rw [hempty, append_nil] at ht
      refine .blank ?_ (ih h)
      rw [ht, allBlank, all_append, Bool.and_eq_true]
      exact ⟨hgap, hgap'⟩
    · rw [filter_cons_of_pos (by simpa using hempty)] at h
      obtain ⟨l, ls, rfl, hl, hls⟩ := map_eq_cons_iff.mp h.symm
      rw [ht, ← hl]
      exact .line hgap hgap' (ih hls.symm)

lemma LaidOut.exists_not_blank {l : CLine} (h : LaidOut (l :: ls) ts) : ∃ t ∈ ts, ∃ c ∈ t, isBlank c = false := by
  generalize hall : l :: ls = all at h
  induction h with
  | done => cases hall
  | blank _ _ ih =>
    obtain ⟨t, ht, hc⟩ := ih hall
    exact ⟨t, mem_cons_of_mem _ ht, hc⟩
  | @line l' _ gap gap' ts _ _ _ _ =>
    obtain ⟨c, cs, hcs, hc, -⟩ := l'.exists_front
    exact ⟨_, mem_cons_self, c, by rw [hcs]; simp, hc⟩

namespace CProgram

variable (p : CProgram)

/-- The sketch of a program whose body has the given rows. -/
def sketch (rows : List Row) (origin stop : Nat) : Sketch :=
  { warnings := p.body.warnings
    vars := declaredVariables p.vars
    main := some { name := "main", origin, body := rows, stop := some stop } }

lemma pieces_lines : p.lines.flatMap CLine.pieces =
    CLine.main.text :: (p.vars.map (fun v => (CLine.declare v).text) ++
      (p.body.pieces ++ (p.result.toList.map (fun e => (CLine.return e).text) ++ [CLine.close.text]))) := by
  have hvars : (p.vars.map CLine.declare).flatMap CLine.pieces = p.vars.map fun v => (CLine.declare v).text := by
    rw [flatMap_map]
    exact map_eq_flatMap.symm
  have hresult : (p.result.toList.map .return).flatMap CLine.pieces =
      p.result.toList.map fun e => (CLine.return e).text := by
    rw [flatMap_map]
    exact map_eq_flatMap.symm
  rw [lines, cons_append, cons_append, cons_append, flatMap_cons, append_assoc,
    append_assoc, flatMap_append, hvars, flatMap_append, flatMap_append, hresult]
  rfl

lemma exists_fragments (hfs : fs.map text = p.lines.flatMap CLine.pieces) :
    ∃ rows origin stop, rows.map shape = p.body.rows 0 ∧
      fragments (.outer {} 0) fs = .ok (p.sketch rows origin stop) := by
  rw [pieces_lines] at hfs
  obtain ⟨f, fs, rfl, hf, hfs⟩ := map_eq_cons_iff.mp hfs
  obtain ⟨fs₁, fs', rfl, hfs₁, hfs'⟩ := map_eq_append_iff.mp hfs
  obtain ⟨fs₂, fs'', rfl, hfs₂, hfs''⟩ := map_eq_append_iff.mp hfs'
  obtain ⟨fs₃, fs₄, rfl, hfs₃, hfs₄⟩ := map_eq_append_iff.mp hfs''
  obtain ⟨g, fs₅, rfl, hg, hfs₅⟩ := map_eq_cons_iff.mp hfs₄
  obtain rfl : fs₅ = [] := map_eq_nil_iff.mp hfs₅
  have hmain : (mainScene {} f.origin).Steady := ⟨rfl, rfl, rfl, rfl, rfl, rfl, fun b hb => by cases hb⟩
  obtain ⟨hsteady, hdeclared⟩ := fragments_declare p.vars hmain hfs₁ (fs₂ ++ (fs₃ ++ [g]))
  rw [foldl_declared] at hsteady hdeclared
  obtain ⟨helse, -⟩ := fragments_return p.result hsteady rfl hfs₃ hg
  obtain ⟨rows, hrows, hrun⟩ := p.body.run hsteady hfs₂ helse
  have hsteady' := hsteady.extended rows p.body.warnings
  obtain ⟨-, hreturn⟩ := fragments_return p.result hsteady' rfl hfs₃ hg
  have hend := fragments_end [] hg hsteady' rfl
  refine ⟨rows, f.origin, g.origin, ?_, ?_⟩
  · rw [hrows]
    rfl
  · have hfirst : fragments (.outer {} 0) (f :: (fs₁ ++ (fs₂ ++ (fs₃ ++ [g])))) =
        fragments (.routine (mainScene {} f.origin)) (fs₁ ++ (fs₂ ++ (fs₃ ++ [g]))) := by
      rw [fragments, fragment_main_line rfl hf]
      rfl
    rw [hfirst, hdeclared, hrun, hreturn, hend]
    rfl

/-- A structured program is lifted, and its statements without counterpart are all that is warned about. -/
lemma exists_program {code : String} (h : p.IsWrittenAs code) : ∃ rows origin stop, rows.map shape = p.body.rows 0 ∧
      program code = { lines := some ((p.sketch rows origin stop).lines "TranslatedProgram" "    ")
                       warnings := p.body.warnings } := by
  have hlaid : LaidOut p.lines (splitAt '\n' code.toList) := laidOut_of_lines h
  obtain ⟨hexpanded, hwarnings⟩ := expand_nil code
  obtain ⟨hready, htexts⟩ := hlaid.cut hexpanded (s := {}) ⟨rfl, rfl, rfl⟩
  have hpieces : (splitFragments (expand [] code).lines).map Fragment.text = p.lines.flatMap CLine.pieces := by
    rwa [CSource.splitFragments, Cutting.flush_of_allBlank hready.buffer]
  obtain ⟨rows, origin, stop, hrows, hsketch⟩ := p.exists_fragments hpieces
  refine ⟨rows, origin, stop, hrows, ?_⟩
  have hstart : startLevel code [] {} = .outer {} 0 := by
    rw [startLevel, hwarnings]
    rfl
  have hlines : programLines code [] {} =
      .ok ((p.sketch rows origin stop).lines "TranslatedProgram" "    ", p.body.warnings) := by
    show (fragments (startLevel code [] {}) (splitFragments (expand [] code).lines) >>= _) = _
    rw [hstart, hsketch]
    rfl
  have hblank : ¬ allBlank code.toList := by
    intro hblank
    obtain ⟨t, ht, c, hc, hne⟩ := hlaid.exists_not_blank
    have hall := all_eq_true.mp hblank c (mem_of_mem_splitAt ht hc).1
    rw [hne] at hall
    cases hall
  rw [program, if_neg hblank, hlines]

end CProgram

end AlgoLang.Lift
