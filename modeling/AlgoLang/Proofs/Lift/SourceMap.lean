/-
# The lines of a lifted program and where they come from

A lifted program has as many lines as its source map has entries, each −1 or the index of a line of the C text.
From the head of a routine to its end, and in the main body behind the initial values of global variables, the
program follows the order of that text.
-/
import AlgoLang.Proofs.Lift.Balance

namespace AlgoLang.Lift

open Line Text CSource List Option

variable {above : List Line} {text : String} {vs : List Variable} {d : Draft}

/-! ## Lines of a program -/

/-- The line is written without a newline, and comes from a line up to `last` or from none. -/
structure Line.Tidy (l : Line) (last : Nat) : Prop where
  text : OneLine l.text.toList
  origin : ∀ n ∈ l.origin, n ≤ last

section

variable {last : Nat} {indent : String}

lemma Line.Tidy.added (h : OneLine text.toList) : (added text).Tidy last :=
  ⟨h, fun _ hn => nomatch hn⟩

lemma titled_tidy {lines : List Line} {title : String} (habove : ∀ l ∈ above, l.Tidy last)
    (htitle : OneLine title.toList) (h : ∀ l ∈ lines, l.Tidy last) : ∀ l ∈ titled above title lines, l.Tidy last := by
  unfold titled
  split
  · exact forall_mem_nil _
  · exact forall_mem_append.mpr ⟨habove, forall_mem_cons.mpr ⟨.added htitle, h⟩⟩

lemma constantLines_tidy {constants : List (String × String)} (hindent : OneLine indent.toList)
    (h : ∀ c ∈ constants, OneLine c.1.toList ∧ OneLine c.2.toList) :
    ∀ l ∈ constantLines indent constants, l.Tidy last := by
  intro l hl
  obtain ⟨c, hc, rfl⟩ := mem_map.mp hl
  exact .added (by simp [hindent, h c hc])

lemma Variable.OneLine.typeText {v : Variable} (h : v.OneLine) : Text.OneLine v.typeText.toList := by
  unfold Variable.typeText
  split
  · exact h.type
  · simp [oneLine_sizes h.dimensions, h.type]

lemma TypeEntry.OneLine.lines {t : TypeEntry} (h : t.OneLine) (hindent : Text.OneLine indent.toList) :
    OneLineRows (t.lines indent) := by
  cases t with
  | synonym name type => exact .one (by simp [h.1, h.2])
  | enumeration name values =>
    have hvalues := oneLine_commaList h.2
    exact .one (by simp [-String.toList_intercalate, h.1, hvalues])
  | record name fields =>
    have hhead : Text.OneLine (name ++ " = STRUCTURE").toList := by simp [h.1]
    have hfields : OneLineRows (fields.map fun v => indent ++ v.name ++ " : " ++ v.typeText) := by
      intro s hs
      obtain ⟨v, hv, rfl⟩ := mem_map.mp hs
      simp [hindent, (h.2 v hv).name, (h.2 v hv).typeText]
    refine forall_mem_append.mpr ⟨forall_mem_append.mpr ⟨?_, hfields⟩, OneLineRows.one (by decide)⟩
    exact forall_mem_cons.mpr ⟨hhead, OneLineRows.one (by decide)⟩

lemma typeLines_tidy {types : List TypeEntry} (hindent : OneLine indent.toList)
    (h : ∀ t ∈ types, t.OneLine) : ∀ l ∈ typeLines indent types, l.Tidy last := by
  intro l hl
  obtain ⟨t, ht, hl⟩ := mem_flatMap.mp hl
  obtain ⟨s, hs, rfl⟩ := mem_map.mp hl
  exact .added (by simp [hindent, (h t ht).lines hindent s hs])

lemma exists_variable_of_mem_typesOf {t : String} (h : t ∈ typesOf vs) : ∃ v ∈ vs, v.type = t := by
  have hall : ∀ (vs : List Variable) (ts : List String),
      t ∈ vs.foldl (fun ts v => if ts.contains v.type then ts else ts ++ [v.type]) ts →
      t ∈ ts ∨ ∃ v ∈ vs, v.type = t := by
    intro vs
    induction vs with
    | nil => exact fun _ ht => .inl ht
    | cons v vs ih =>
      intro ts ht
      rcases ih _ ht with ht | ⟨u, hu, rfl⟩
      · dsimp only at ht
        split at ht
        · exact .inl ht
        · rcases mem_append.mp ht with ht | ht
          · exact .inl ht
          · exact .inr ⟨v, mem_cons_self, (mem_singleton.mp ht).symm⟩
      · exact .inr ⟨u, mem_cons_of_mem _ hu, rfl⟩
  exact (hall vs [] h).resolve_left not_mem_nil

lemma variableLines_tidy (hindent : OneLine indent.toList)
    (h : ∀ v ∈ vs, v.OneLine) : ∀ l ∈ variableLines indent vs, l.Tidy last := by
  intro l hl
  obtain ⟨t, ht, hl⟩ := mem_flatMap.mp hl
  obtain ⟨u, hu, rfl⟩ := exists_variable_of_mem_typesOf ht
  have hgroup : ∀ v ∈ vs.filter fun v => v.type == u.type, v.OneLine :=
    fun v hv => h v (mem_filter.mp hv).1
  rcases mem_append.mp hl with hl | hl
  · split at hl
    · cases hl
    · obtain rfl := mem_singleton.mp hl
      refine .added ?_
      simp only [String.toList_append, OneLine.append_iff]
      refine ⟨⟨⟨hindent, oneLine_commaList fun s hs => ?_⟩, by decide⟩, (h u hu).type⟩
      obtain ⟨v, hv, rfl⟩ := mem_map.mp hs
      exact (hgroup v (mem_filter.mp hv).1).name
  · obtain ⟨v, hv, rfl⟩ := mem_map.mp hl
    have hv' := hgroup v (mem_filter.mp hv).1
    exact .added (by simp [hindent, hv'.name, hv'.typeText])

lemma oneLine_indented (depth : Nat) (hindent : OneLine indent.toList)
    (h : OneLine text.toList) : OneLine (indented indent depth text).toList := by
  rw [indented, String.toList_append, String.toList_join]
  refine .append (fun hmem => ?_) h
  obtain ⟨s, hs, hin⟩ := mem_flatMap.mp hmem
  exact hindent ((mem_replicate.mp hs).2 ▸ hin)

lemma bodyLines_tidy (hindent : OneLine indent.toList) (h : d.Tidy last) :
    ∀ l ∈ bodyLines indent d.body, l.Tidy last := by
  intro l hl
  obtain ⟨r, hr, rfl⟩ := mem_map.mp hl
  refine ⟨oneLine_indented _ hindent (h.rows r hr).text, fun n hn => h.past n ?_⟩
  have hmem : n ∈ d.body.filterMap Row.origin := mem_filterMap.mpr ⟨r, hr, hn⟩
  exact mem_append_left _ (mem_cons_of_mem _ hmem)

lemma Draft.Tidy.stop (h : d.Tidy last) : ∀ n ∈ d.stop, n ≤ last :=
  fun n hn => h.past n (mem_append_right _ (mem_toList.mpr hn))

lemma Draft.Tidy.head (h : d.Tidy last) : OneLine d.head.toList := by
  have hparams := oneLine_commaList h.params
  unfold Draft.head
  split
  · simp [-String.toList_intercalate, h.name, hparams]
  · next type hresult => simp [-String.toList_intercalate, h.name, hparams, h.result type hresult]

lemma Draft.Tidy.lines (h : d.Tidy last) (hindent : OneLine indent.toList) : ∀ l ∈ d.lines indent, l.Tidy last := by
  have hend : OneLine "END".toList := by decide
  have horigin : ∀ n ∈ some d.origin, n ≤ last :=
    fun n hn => mem_some.mp hn ▸ h.past d.origin mem_cons_self
  have hhead : (⟨d.head, some d.origin⟩ : Line).Tidy last := ⟨h.head, horigin⟩
  simp only [Draft.lines, forall_mem_append, forall_mem_cons]
  exact ⟨⟨⟨⟨⟨.added (by decide), hhead, forall_mem_nil _⟩,
    titled_tidy (forall_mem_nil _) (by decide) (constantLines_tidy hindent h.constants)⟩,
    titled_tidy (forall_mem_nil _) (by decide) (variableLines_tidy hindent h.vars.oneLine)⟩,
    .added (by decide), bodyLines_tidy hindent h⟩, ⟨hend, h.stop⟩, forall_mem_nil _⟩

lemma Sketch.Tidy.lines {sk : Sketch} {name : String} (h : sk.Tidy last) (hname : OneLine name.toList)
    (hindent : OneLine indent.toList) : ∀ l ∈ sk.lines name indent, l.Tidy last := by
  have hend : OneLine "END.".toList := by decide
  have habove : ∀ l ∈ [added ""], l.Tidy last := forall_mem_singleton.mpr (.added (by decide))
  have htitle : (added ("ALGORITHM " ++ name)).Tidy last := .added (by simp [hname])
  have hroutines : ∀ l ∈ sk.routines.flatMap (Draft.lines indent), l.Tidy last := by
    intro l hl
    obtain ⟨d, hd, hl⟩ := mem_flatMap.mp hl
    exact (h.drafts d (mem_append_left _ hd)).1.lines hindent l hl
  have hinitials : ∀ l ∈ sk.initials.map fun i => (⟨indent ++ i.1, some i.2⟩ : Line), l.Tidy last := by
    intro l hl
    obtain ⟨i, hi, rfl⟩ := mem_map.mp hl
    obtain ⟨hone, hle⟩ := h.initials i hi
    exact ⟨by simp [hindent, hone], fun n hn => mem_some.mp hn ▸ hle⟩
  have hmain : (∀ l ∈ sk.main.elim [] fun m => bodyLines indent m.body, l.Tidy last) ∧
      (⟨"END.", sk.main.bind Draft.stop⟩ : Line).Tidy last := by
    cases hm : sk.main with
    | none => exact ⟨forall_mem_nil _, hend, fun _ hn => nomatch hn⟩
    | some m =>
      have hdraft := (h.drafts m (mem_append_right _ (by simp [hm]))).1
      exact ⟨bodyLines_tidy hindent hdraft, hend, hdraft.stop⟩
  simp only [Sketch.lines, forall_mem_append, forall_mem_cons]
  exact ⟨⟨⟨⟨⟨⟨⟨⟨htitle, titled_tidy habove (by decide) (constantLines_tidy hindent h.constants)⟩,
    titled_tidy habove (by decide) (typeLines_tidy hindent h.types)⟩,
    titled_tidy habove (by decide) (variableLines_tidy hindent h.vars.oneLine)⟩, hroutines⟩,
    .added (by decide), .added (by decide), forall_mem_nil _⟩, hinitials⟩, hmain.1⟩, hmain.2,
    forall_mem_nil _⟩

end

/-! ## Lines are counted by their newlines -/

lemma oneLine_spaces (width : Int) : ∀ indent, Numeral.spaces width = .ok indent → OneLine indent.toList := by
  intro indent h
  unfold Numeral.spaces at h
  cases hcheck : Numeral.checkLength width with
  | error fault =>
    rw [hcheck] at h
    cases h
  | ok u =>
    rw [hcheck] at h
    cases h
    rw [String.toList_ofList]
    exact fun hmem => absurd (mem_replicate.mp hmem).2 (by decide)

lemma count_newline_intercalate {parts : List (List Char)} (hne : parts ≠ [])
    (h : ∀ p ∈ parts, OneLine p) : (['\n'].intercalate parts).count '\n' + 1 = parts.length := by
  induction parts with
  | nil => exact absurd rfl hne
  | cons p parts ih =>
    have hp : p.count '\n' = 0 := count_eq_zero.mpr (h p mem_cons_self)
    cases parts with
    | nil => simpa using hp
    | cons q parts =>
      have hrest := ih (cons_ne_nil q parts) fun r hr => h r (mem_cons_of_mem _ hr)
      rw [intercalate_cons_cons, count_append, count_append, hp, length_cons, ← hrest]
      simp only [count_singleton_self]
      omega

/-! ## Entries -/

def Line.entry (l : Line) : Int :=
  l.origin.elim (-1) fun n => (n : Int)

lemma filter_entries (lines : List Line) :
    (lines.map entry).filter (0 ≤ ·) = (lines.filterMap origin).map .ofNat := by
  induction lines with
  | nil => rfl
  | cons l lines ih =>
    cases hl : l.origin with
    | none => simp [entry, hl, ih]
    | some n => simp [entry, hl, ih]

lemma pairwise_entries {lines : List Line} (h : (lines.filterMap origin).Pairwise (· ≤ ·)) :
    ((lines.map entry).filter (0 ≤ ·)).Pairwise (· ≤ ·) := by
  rw [filter_entries, pairwise_map]
  exact h.imp Int.ofNat_le.mpr

lemma origin_titled {lines : List Line} (title : String) (habove : ∀ l ∈ above, l.origin = none)
    (h : ∀ l ∈ lines, l.origin = none) : ∀ l ∈ titled above title lines, l.origin = none := by
  unfold titled
  split
  · exact forall_mem_nil _
  · exact forall_mem_append.mpr ⟨habove, forall_mem_cons.mpr ⟨rfl, h⟩⟩

section

variable (indent : String)

lemma origin_constantLines (constants : List (String × String)) :
    ∀ l ∈ constantLines indent constants, l.origin = none := by
  intro l hl
  obtain ⟨c, -, rfl⟩ := mem_map.mp hl
  rfl

lemma origin_typeLines (types : List TypeEntry) : ∀ l ∈ typeLines indent types, l.origin = none := by
  intro l hl
  obtain ⟨t, -, hl⟩ := mem_flatMap.mp hl
  obtain ⟨s, -, rfl⟩ := mem_map.mp hl
  rfl

lemma origin_variableLines (vs : List Variable) : ∀ l ∈ variableLines indent vs, l.origin = none := by
  intro l hl
  obtain ⟨t, -, hl⟩ := mem_flatMap.mp hl
  rcases mem_append.mp hl with hl | hl
  · split at hl
    · cases hl
    · obtain rfl := mem_singleton.mp hl
      rfl
  · obtain ⟨v, -, rfl⟩ := mem_map.mp hl
    rfl

lemma filterMap_origin_bodyLines (rows : List Row) :
    (bodyLines indent rows).filterMap origin = rows.filterMap Row.origin := by
  rw [bodyLines, filterMap_map]
  rfl

lemma filterMap_origin_lines (d : Draft) : (d.lines indent).filterMap origin = d.trail := by
  have hconst := filterMap_eq_nil_iff.mpr
    (origin_titled "CONST" (forall_mem_nil _) (origin_constantLines indent d.constants))
  have hvar := filterMap_eq_nil_iff.mpr (origin_titled "VAR" (forall_mem_nil _) (origin_variableLines indent d.vars))
  have hstop : [(⟨"END", d.stop⟩ : Line)].filterMap origin = d.stop.toList := rfl
  simp only [Draft.lines, filterMap_append, hconst, hvar, hstop]
  simp [added, filterMap_origin_bodyLines, Draft.trail]

end

/-! ## Programs -/

/-- The lines before the routines: the heading, constants, types and variables. -/
def Sketch.front (sk : Sketch) (name indent : String) : List Line :=
  Line.added ("ALGORITHM " ++ name) :: titled [.added ""] "CONST" (constantLines indent sk.constants) ++
    titled [.added ""] "TYPE" (typeLines indent sk.types) ++ titled [.added ""] "VAR" (variableLines indent sk.vars)

def Sketch.mainLines (sk : Sketch) (indent : String) : List Line :=
  (sk.main.elim [] fun m => bodyLines indent m.body) ++ [⟨"END.", sk.main.bind Draft.stop⟩]

lemma Sketch.lines_eq (sk : Sketch) (name indent : String) : sk.lines name indent =
      sk.front name indent ++ sk.routines.flatMap (Draft.lines indent) ++
        [.added "", .added "BEGIN"] ++ sk.initials.map (fun i => ⟨indent ++ i.1, some i.2⟩) ++
        sk.mainLines indent := by
  simp [lines, front, mainLines]

lemma origin_front (sk : Sketch) (name indent : String) : ∀ l ∈ sk.front name indent, l.origin = none := by
  have habove : ∀ l ∈ [added ""], l.origin = none := forall_mem_singleton.mpr rfl
  simp only [Sketch.front, forall_mem_append, forall_mem_cons]
  exact ⟨⟨⟨rfl, origin_titled "CONST" habove (origin_constantLines indent sk.constants)⟩,
    origin_titled "TYPE" habove (origin_typeLines indent sk.types)⟩,
    origin_titled "VAR" habove (origin_variableLines indent sk.vars)⟩

/-- The main body comes from the trail of `main` behind its head. -/
lemma Sketch.Tidy.pairwise_mainLines {sk : Sketch} {last : Nat} (h : sk.Tidy last) (indent : String) :
    ((sk.mainLines indent).filterMap origin).Pairwise (· ≤ ·) := by
  cases hm : sk.main with
  | none => simp [Sketch.mainLines, hm]
  | some m =>
    have hdraft := (h.drafts m (mem_append_right _ (by simp [hm]))).1
    have hstop : [(⟨"END.", m.stop⟩ : Line)].filterMap origin = m.stop.toList := rfl
    have htail : (sk.mainLines indent).filterMap origin = m.trail.tail := by
      simp only [Sketch.mainLines, hm, elim_some, bind_some, filterMap_append, filterMap_origin_bodyLines, hstop]
      rfl
    rw [htail]
    exact hdraft.sorted.tail

/-- A lifted program has one entry in its source map for every newline in its text.  Every entry is −1
or a line of the C text.  Nothing before the routines comes from the C text.  Then come the routines,
each from its head to its end, the initial values of global variables, and the rows of the main body;
within each routine, and within the main body, the lines of C are in order. -/
theorem sourceMap_follows_source (code : String) (files : Files) (style : Style)
    (hname : '\n' ∉ style.programName.toList) (h : (program code files style).success = true) :
    (program code files style).sourceMap.length = (program code files style).code.toList.count '\n' ∧
    (∀ e ∈ (program code files style).sourceMap,
      e = -1 ∨ ∃ i < (splitAt '\n' code.toList).length, e = (i : Int)) ∧
    ∃ sk indent,
      fragments (startLevel code files style) (splitFragments (expand files code).lines) = .ok sk ∧
      (program code files style).lines = some (sk.lines style.programName indent) ∧
      (program code files style).sourceMap =
        (sk.front style.programName indent).map (fun _ => -1) ++
          sk.routines.flatMap (fun d => (d.lines indent).map Line.entry) ++ [-1, -1] ++
          sk.initials.map (fun i => (i.2 : Int)) ++ (sk.mainLines indent).map Line.entry ∧
      (∀ d ∈ sk.routines, (((d.lines indent).map Line.entry).filter (0 ≤ ·)).Pairwise (· ≤ ·)) ∧
      (((sk.mainLines indent).map Line.entry).filter (0 ≤ ·)).Pairwise (· ≤ ·) := by
  obtain ⟨sk, indent, hsk, hspaces, hlines⟩ := exists_indent_of_success h
  have htidy := fragments_tidy _ hsk
  have hindent := oneLine_spaces style.indentWidth indent hspaces
  have hall := htidy.lines (show OneLine style.programName.toList from hname) hindent
  have hmap : (program code files style).sourceMap =
      (sk.lines style.programName indent).map Line.entry := by
    simp only [Lifted.sourceMap, hlines]
    rfl
  refine ⟨?_, ?_, sk, indent, hsk, hlines, ?_, ?_, ?_⟩
  · -- the texts are joined by newlines and have none of their own
    have htexts : ∀ p ∈ (sk.lines style.programName indent).map fun l => l.text.toList, OneLine p := by
      intro p hp
      obtain ⟨l, hl, rfl⟩ := List.mem_map.mp hp
      exact (hall l hl).text
    have hcount := count_newline_intercalate (by simp [Sketch.lines]) htexts
    have hcode : (program code files style).code.toList =
        ['\n'].intercalate ((sk.lines style.programName indent).map fun l => l.text.toList) ++ ['\n'] := by
      simp only [Lifted.code, hlines, Option.elim_some, String.toList_append, String.toList_intercalate,
        List.map_map]
      rfl
    rw [hcode, List.count_append, List.count_singleton_self, hcount, hmap, List.length_map,
      List.length_map]
  · intro e he
    rw [hmap] at he
    obtain ⟨l, hl, rfl⟩ := List.mem_map.mp he
    have hpos := length_pos_iff.mpr (splitAt_ne_nil '\n' code.toList)
    cases ho : l.origin with
    | none => exact .inl (by simp [Line.entry, ho])
    | some n =>
      have hle := (hall l hl).origin n ho
      exact .inr ⟨n, by omega, by simp [Line.entry, ho]⟩
  · have hfront : (sk.front style.programName indent).map Line.entry =
        (sk.front style.programName indent).map fun _ => -1 := by
      refine List.map_congr_left fun l hl => ?_
      simp [Line.entry, origin_front sk _ _ l hl]
    rw [hmap, Sketch.lines_eq]
    simp only [List.map_append, hfront, List.map_flatMap, List.map_map]
    rfl
  · intro d hd
    refine pairwise_entries ?_
    rw [filterMap_origin_lines]
    exact (htidy.drafts d (List.mem_append_left _ hd)).1.sorted
  · exact pairwise_entries (htidy.pairwise_mainLines indent)

/-- Two labels that share a clause, each on its own line, and no closing braces. -/
def sharedClause : String :=
  "int main()\x7b\nswitch(1)\x7b\ncase 2:\ncase 3: do\x7b"

lemma splitFragments_sharedClause : splitFragments (expand [] sharedClause).lines =
      [⟨"int main()\x7b".toList, 0⟩, ⟨"switch(1)\x7b".toList, 1⟩, ⟨"case 2:".toList, 2⟩,
        ⟨"case 3: do\x7b".toList, 3⟩] := by
  have hexpand : (expand [] sharedClause).lines =
      [("int main()\x7b".toList, 0), ("switch(1)\x7b".toList, 1), ("case 2:".toList, 2),
        ("case 3: do\x7b".toList, 3)] := by cbv
  rw [hexpand]
  decide +kernel

/-- The row of both labels comes from the first of them, and the rows that close the blocks from
nowhere. -/
theorem sourceMap_follows_source_sharedClause :
    '\n' ∉ ({} : Style).programName.toList ∧ (program sharedClause).success = true ∧
    (program sharedClause).sourceMap = [-1, -1, -1, 1, 2, -1, 3, -1, -1, -1, -1, -1] ∧
    (program sharedClause).code.toList.count '\n' = 12 ∧
    (∀ e ∈ (program sharedClause).sourceMap,
      e = -1 ∨ ∃ i < (splitAt '\n' sharedClause.toList).length, e = (i : Int)) ∧
    ∃ (sk : Sketch) (indent : String),
      (program sharedClause).lines = some (sk.lines "TranslatedProgram" indent) ∧
      (((sk.mainLines indent).map Line.entry).filter (0 ≤ ·)).Pairwise (· ≤ ·) := by
  have heval : (program sharedClause).success = true ∧
      (program sharedClause).sourceMap = [-1, -1, -1, 1, 2, -1, 3, -1, -1, -1, -1, -1] := by
    unfold program
    rw [if_neg (by decide +kernel)]
    unfold programLines
    dsimp only
    rw [splitFragments_sharedClause]
    dsimp only [fragments]
    rw [fragment_main _ rfl]
    decide +kernel
  obtain ⟨hsuccess, hmap⟩ := heval
  have hname : '\n' ∉ ({} : Style).programName.toList := by decide
  obtain ⟨hlength, hentries, sk, indent, -, hlines, -, -, hmain⟩ :=
    sourceMap_follows_source sharedClause [] {} hname hsuccess
  refine ⟨hname, hsuccess, hmap, ?_, hentries, sk, indent, hlines, hmain⟩
  rw [← hlength, hmap]
  rfl

end AlgoLang.Lift
