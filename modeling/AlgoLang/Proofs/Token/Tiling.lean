/-
# Tokens, faults and gaps tile the text

A scan walks over the text once: a gap, then a token or a fault, then the rest.  `Run` says this of the text
before the walk and the text ahead of it.  What holds of all places, lengths and gaps is read off the runs by
induction.
-/
import AlgoLang.Token.Scan
import Mathlib

namespace AlgoLang

open List Place

/-! ## Places -/

/-- The place behind a text, read off the text: one line more than it has newlines, and one column
more than it has characters behind the last of them. -/
def Place.behind (cs : List Char) : Place where
  line := 1 + cs.count '\n'
  column := 1 + (cs.reverse.takeWhile (· != '\n')).length
  offset := cs.length

lemma Place.step_behind (cs : List Char) (c : Char) : (behind cs).step c = behind (cs ++ [c]) := by
  unfold step behind
  by_cases hc : c = '\n'
  · simp [hc, Nat.add_assoc]
  · simp [hc, Nat.add_comm]

lemma Place.over_behind (done cs : List Char) : (behind done).over cs = behind (done ++ cs) := by
  induction cs generalizing done with
  | nil => rw [over_nil, append_nil]
  | cons c cs ih => rw [over_cons, step_behind, ih, append_assoc, singleton_append]

lemma Place.offset_behind (cs : List Char) (file : String) : ((behind cs).inFile file).offset = cs.length :=
  rfl

namespace Token

/-! ## Gaps -/

/-- One blank or comment, with `rest` behind it.  A comment behind two slashes reaches to the end of
its line.  The other two kinds reach to the first sign that closes them, or to the end of the text if
there is none. -/
inductive IsSkip : List Char → List Char → Prop
  | space {c : Char} {rest : List Char} : c ∈ [' ', '\t', '\n', '\r'] → IsSkip [c] rest
  | line {body rest : List Char} : '\n' ∉ body → (∀ c, rest.head? = some c → c = '\n') →
      IsSkip ('/' :: '/' :: body) rest
  | block {body rest : List Char} : ¬['*', '/'] <:+: body → IsSkip ('/' :: '*' :: (body ++ ['*', '/'])) rest
  | openBlock {body : List Char} : ¬['*', '/'] <:+: body → IsSkip ('/' :: '*' :: body) []
  | brace {body rest : List Char} : '\x7d' ∉ body → IsSkip ('\x7b' :: (body ++ ['\x7d'])) rest
  | openBrace {body : List Char} : '\x7d' ∉ body → IsSkip ('\x7b' :: body) []

/-- Blanks and comments one behind the other, with `rest` behind them. -/
inductive IsGap : List Char → List Char → Prop
  | nil {rest : List Char} : IsGap [] rest
  | cons {skip gap rest : List Char} : IsSkip skip (gap ++ rest) → IsGap gap rest → IsGap (skip ++ gap) rest

section

variable (cs : List Char)

lemma blockCommentRest_cases :
      (∃ body rest, cs = body ++ '*' :: '/' :: rest ∧ ¬['*', '/'] <:+: body ∧ blockCommentRest cs = body.length + 2) ∨
    ¬['*', '/'] <:+: cs ∧ blockCommentRest cs = cs.length := by
  fun_induction blockCommentRest cs with
  | case1 => exact .inr ⟨by simp, rfl⟩
  | case2 rest => exact .inl ⟨[], rest, rfl, by simp, rfl⟩
  | case3 c cs hne ih =>
    -- No comment ends at `c`, so what ends it ends the rest.
    have hfront : ∀ us, ¬(us <+: cs ∧ ['*', '/'] <+: c :: us) := by
      rintro us ⟨⟨vs, rfl⟩, ws, hws⟩
      obtain ⟨rfl, rfl⟩ := List.cons.inj hws
      exact hne _ rfl rfl
    rcases ih with ⟨body, rest, rfl, hbody, hlen⟩ | ⟨hcs, hlen⟩
    · refine .inl ⟨c :: body, rest, rfl, ?_, by simp [hlen]⟩
      rw [infix_cons_iff]
      exact not_or.mpr ⟨fun h => hfront body ⟨prefix_append _ _, h⟩, hbody⟩
    · refine .inr ⟨?_, by simp [hlen]⟩
      rw [infix_cons_iff]
      exact not_or.mpr ⟨fun h => hfront cs ⟨prefix_refl _, h⟩, hcs⟩

lemma braceCommentRest_cases : (∃ body rest, cs = body ++ '\x7d' :: rest ∧ '\x7d' ∉ body ∧ braceCommentRest cs =
    body.length + 1) ∨ '\x7d' ∉ cs ∧ braceCommentRest cs = cs.length := by
  fun_induction braceCommentRest cs with
  | case1 => exact .inr ⟨by simp, rfl⟩
  | case2 rest => exact .inl ⟨[], rest, rfl, by simp, rfl⟩
  | case3 c cs hne ih =>
    have hc : '\x7d' ≠ c := fun h => hne h.symm
    rcases ih with ⟨body, rest, rfl, hbody, hlen⟩ | ⟨hcs, hlen⟩
    · exact .inl ⟨c :: body, rest, rfl, by simp [hc, hbody], by simp [hlen]⟩
    · exact .inr ⟨by simp [hc, hcs], by simp [hlen]⟩

lemma skipOne_cases :
    skipOne cs = 0 ∨ ∃ skip rest, cs = skip ++ rest ∧ skipOne cs = skip.length ∧ IsSkip skip rest := by
  fun_cases skipOne cs with
  | case1 cs =>
    refine .inr ⟨'/' :: '/' :: cs.takeWhile (· != '\n'), cs.dropWhile (· != '\n'), ?_, ?_, ?_⟩
    · simp [takeWhile_append_dropWhile]
    · rfl
    · refine .line ?_ ?_
      · intro hmem
        exact absurd (all_eq_true.mp all_takeWhile _ hmem) (by simp)
      · intro c hc
        have hlast := head?_dropWhile_not (· != '\n') cs
        rw [hc] at hlast
        simpa using hlast
  | case2 cs =>
    rcases blockCommentRest_cases cs with ⟨body, rest, rfl, hbody, hlen⟩ | ⟨hcs, hlen⟩
    · exact .inr ⟨'/' :: '*' :: (body ++ ['*', '/']), rest, by simp, by simp [hlen], .block hbody⟩
    · exact .inr ⟨'/' :: '*' :: cs, [], by simp, by simp [hlen], .openBlock hcs⟩
  | case3 cs =>
    rcases braceCommentRest_cases cs with ⟨body, rest, rfl, hbody, hlen⟩ | ⟨hcs, hlen⟩
    · exact .inr ⟨'\x7b' :: (body ++ ['\x7d']), rest, by simp, by simp [hlen], .brace hbody⟩
    · exact .inr ⟨'\x7b' :: cs, [], by simp, by simp [hlen], .openBrace hcs⟩
  | case4 c cs _ _ _ hspace =>
    refine .inr ⟨[c], cs, rfl, rfl, .space ?_⟩
    simpa [isSpace, or_assoc] using hspace
  | case5 => exact .inl rfl
  | case6 => exact .inl rfl

lemma isGap_skipped : IsGap (cs.take (skipped cs)) (cs.drop (skipped cs)) := by
  fun_induction skipped cs with
  | case1 cs n hn _ ih =>
    rcases skipOne_cases cs with hzero | ⟨skip, rest, rfl, hlen, hskip⟩
    · exact absurd hzero (Nat.ne_of_gt hn.1)
    · have hdrop : (skip ++ rest).drop n = rest := by rw [show n = skip.length from hlen, drop_left]
      rw [hdrop] at ih ⊢
      rw [show n = skip.length from hlen, take_length_add_append, drop_length_add_append]
      exact .cons (by rwa [take_append_drop]) ih
  | case2 cs => exact .nil

end

/-! ## Widths -/

section

variable (cs : List Char)

lemma stringRest_width_le : (stringRest cs).2.1 ≤ cs.length := by
  fun_induction stringRest cs with
  | case1 => simp
  | case2 => simp
  | case3 => simp
  | case4 c cs value width closed h ih =>
    rw [h] at ih
    simpa using ih
  | case5 c cs _ _ _ value width closed h ih =>
    rw [h] at ih
    simpa using ih

lemma numberLexeme_width_le : (numberLexeme cs).width ≤ cs.length := by
  have hwhole : (cs.takeWhile Char.isDigit).length + (cs.dropWhile Char.isDigit).length = cs.length := by
    rw [← length_append, takeWhile_append_dropWhile]
  unfold numberLexeme
  dsimp only
  split
  · next rest hrest =>
    rw [hrest, length_cons] at hwhole
    have hfraction : (rest.takeWhile Char.isDigit).length ≤ rest.length :=
      (takeWhile_sublist _).length_le
    split <;> simp only [Lexeme.token] <;> omega
  · simp only [Lexeme.token]
    omega

lemma nameLexeme_width_le : (nameLexeme cs).width ≤ cs.length := by
  have hname : (cs.takeWhile isNameChar).length ≤ cs.length := (takeWhile_sublist _).length_le
  unfold nameLexeme
  dsimp only
  split <;> exact hname

lemma stringLexeme_width_le : (stringLexeme cs).width ≤ cs.length + 1 := by
  have hrest := stringRest_width_le cs
  unfold stringLexeme
  split
  all_goals next h =>
      rw [h] at hrest
      exact Nat.succ_le_succ hrest

lemma charLexeme_width_le : (charLexeme cs).width ≤ cs.length + 1 := by
  fun_cases charLexeme cs <;> simp [Lexeme.token]

end

lemma lexeme_width_le (c : Char) (cs : List Char) : (lexeme c cs).width ≤ cs.length + 1 := by
  have hnumber := numberLexeme_width_le (c :: cs)
  have hname := nameLexeme_width_le (c :: cs)
  unfold lexeme
  split
  case h_9 => exact stringLexeme_width_le cs
  case h_10 => exact charLexeme_width_le cs
  case h_11 =>
      split
      · simp [Lexeme.mark, Lexeme.token]
      · split
        · exact hnumber
        · split
          · exact hname
          · simp
  case h_8 => exact Nat.le_add_left 1 _
  case h_4 => exact Nat.le_add_left 1 _
  case h_6 => exact Nat.le_add_left 1 _
  all_goals exact Nat.le_add_left 2 _

/-! ## Runs -/

/-- A scan with the text before it and the text ahead of it. -/
inductive Run (file : String) : List Char → List Char → Scanned → Prop
  | stop {done gap : List Char} : IsGap gap [] →
      Run file done gap ⟨[], ⟨.eof, "", (behind (done ++ gap)).inFile file, 0⟩, []⟩
  | token {done gap word rest : List Char} {c : Char} {kind : TokenKind} {value : String} {s : Scanned} :
      IsGap gap (c :: (word ++ rest)) → (lexeme c (word ++ rest)).outcome = .ok (kind, value) →
      Run file (done ++ (gap ++ c :: word)) rest s →
      Run file done (gap ++ c :: (word ++ rest))
        { s with
          tokens := ⟨kind, value, (behind (done ++ gap)).inFile file, word.length + 1⟩ :: s.tokens }
  | fault {done gap word rest : List Char} {c : Char} {f : Fault} {s : Scanned} :
      IsGap gap (c :: (word ++ rest)) → (lexeme c (word ++ rest)).outcome = .error f →
      Run file (done ++ (gap ++ c :: word)) rest s →
      Run file done (gap ++ c :: (word ++ rest))
        { s with faults := (f, behind (done ++ gap)) :: s.faults }

variable {file : String}

lemma scanFrom_run (done cs : List Char) : Run file done cs (scanFrom file (behind done) cs) := by
  have hgap := isGap_skipped cs
  have hcs := take_append_drop (skipped cs) cs
  rw [scanFrom, over_behind]
  generalize hg : cs.take (skipped cs) = gap at hgap hcs ⊢
  split
  · next _ hnil _ =>
    rw [hnil, append_nil] at hcs
    rw [hnil] at hgap
    subst hcs
    exact .stop hgap
  · next c rest _ hcons _ =>
    rw [hcons] at hcs hgap
    -- A lexeme takes the first character and at most all that follow it.
    obtain ⟨n, hn⟩ : ∃ n, max (lexeme c rest).width 1 = n + 1 := ⟨max (lexeme c rest).width 1 - 1, by omega⟩
    have hle : n ≤ rest.length := by
      have := lexeme_width_le c rest
      omega
    have hrest := take_append_drop n rest
    have hshorter : (rest.drop n).length < cs.length := by
      rw [← hcs]
      simp only [length_append, length_cons, length_drop]
      omega
    have ih := scanFrom_run (done ++ (gap ++ c :: rest.take n)) (rest.drop n)
    dsimp only
    rw [hn, over_behind, take_succ_cons, drop_succ_cons, append_assoc]
    have hlen : n = (rest.take n).length := by rw [length_take, Nat.min_eq_left hle]
    split
    · next kind value hok =>
      rw [← hrest] at hgap hok hcs
      have hrun := Run.token hgap hok ih
      rwa [hcs, ← hlen] at hrun
    · next f herror =>
      rw [← hrest] at hgap herror hcs
      have hrun := Run.fault hgap herror ih
      rwa [hcs] at hrun
termination_by cs.length
decreasing_by exact hshorter

lemma scan_run (source file : String) : Run file [] source.toList (scan source file) :=
  scanFrom_run [] source.toList

/-! ## What holds along a run -/

/-- A token on the first line of a text, spelled as its value. -/
def onFirstLine (kind : TokenKind) (value : String) (offset : Nat) : Token :=
  ⟨kind, value, { line := 1, column := offset + 1, offset }, value.length⟩

/-- The number of characters before a token. -/
def offset (t : Token) : Nat :=
  t.start.offset.toNat

lemma offset_at_behind (kind : TokenKind) (value : String) (cs : List Char) (length : Nat) :
    offset ⟨kind, value, (behind cs).inFile file, length⟩ = cs.length :=
  rfl

/-- The stretches before and between tokens, from a given offset on, are gaps. -/
def GapsFrom (cs : List Char) : Nat → List Token → Prop
  | _, [] => True
  | k, t :: ts =>
    IsGap ((cs.drop k).take (t.offset - k)) (cs.drop t.offset) ∧ GapsFrom cs (t.offset + t.length) ts

namespace Run

variable {done ahead : List Char} {s : Scanned}

variable (h : Run file done ahead s)
include h

lemma positive : ∀ t ∈ s.tokens, 1 ≤ t.length := by
  induction h with
  | stop _ => simp
  | token _ _ _ ih =>
    intro t ht
    rcases mem_cons.mp ht with rfl | ht
    · exact Nat.le_add_left 1 _
    · exact ih t ht
  | fault _ _ _ ih => exact ih

lemma eof_eq : s.eof = ⟨.eof, "", (behind (done ++ ahead)).inFile file, 0⟩ := by
  induction h with
  | stop _ => rfl
  | token _ _ _ ih =>
    rw [ih]
    simp
  | fault _ _ _ ih =>
    rw [ih]
    simp

/-- The tokens stand in their order behind the text before the run, and none reaches into a later one. -/
lemma ordered : (∀ t ∈ s.all, (done.length : Int) ≤ t.start.offset) ∧
      s.all.Pairwise fun t u => t.start.offset + (t.length : Int) ≤ u.start.offset := by
  induction h with
  | stop _ =>
    refine ⟨fun t ht => ?_, pairwise_singleton _ _⟩
    obtain rfl := mem_singleton.mp ht
    rw [offset_behind, length_append]
    omega
  | token _ _ _ ih =>
    obtain ⟨hbehind, hpairs⟩ := ih
    simp only [length_append, length_cons] at hbehind
    refine ⟨fun t ht => ?_, pairwise_cons.mpr ⟨fun u hu => ?_, hpairs⟩⟩
    · rcases mem_cons.mp ht with rfl | ht
      · rw [offset_behind, length_append]
        omega
      · have := hbehind t ht
        omega
    · have := hbehind u hu
      simp only [offset_behind, length_append]
      omega
  | fault _ _ _ ih =>
    obtain ⟨hbehind, hpairs⟩ := ih
    simp only [length_append] at hbehind
    refine ⟨fun t ht => ?_, hpairs⟩
    have := hbehind t ht
    omega

/-- Every token and every fault is placed behind a front of the text. -/
lemma placed : (∀ t ∈ s.all, ∃ front, front <+: done ++ ahead ∧ t.start = (behind front).inFile file) ∧
      ∀ f ∈ s.faults, ∃ front, front <+: done ++ ahead ∧ f.2 = behind front := by
  induction h with
  | @stop done gap _ =>
    refine ⟨fun t ht => ?_, by simp⟩
    obtain rfl := mem_singleton.mp ht
    exact ⟨done ++ gap, prefix_rfl, rfl⟩
  | @token done gap word rest c _ _ _ _ _ _ ih =>
    obtain ⟨htokens, hfaults⟩ := ih
    rw [show done ++ (gap ++ c :: word) ++ rest = done ++ (gap ++ c :: (word ++ rest)) by simp] at htokens hfaults
    refine ⟨fun t ht => ?_, hfaults⟩
    rcases mem_cons.mp ht with rfl | ht
    · exact ⟨done ++ gap, ⟨c :: (word ++ rest), by simp⟩, rfl⟩
    · exact htokens t ht
  | @fault done gap word rest c _ _ _ _ _ ih =>
    obtain ⟨htokens, hfaults⟩ := ih
    rw [show done ++ (gap ++ c :: word) ++ rest = done ++ (gap ++ c :: (word ++ rest)) by simp] at htokens hfaults
    refine ⟨htokens, fun f hf => ?_⟩
    rcases mem_cons.mp hf with rfl | hf
    · exact ⟨done ++ gap, ⟨c :: (word ++ rest), by simp⟩, rfl⟩
    · exact hfaults f hf

/-- Without a fault, only blanks and comments stand before and between the tokens. -/
lemma gaps (hfaults : s.faults = []) : GapsFrom (done ++ ahead) done.length s.all := by
  induction h with
  | @stop done gap hgap =>
    refine ⟨?_, trivial⟩
    rw [offset_at_behind, length_append]
    simpa [← drop_drop] using hgap
  | @token done gap word rest c _ _ _ hgap _ _ ih =>
    have hrest := ih hfaults
    refine ⟨?_, ?_⟩
    · rw [offset_at_behind, length_append]
      simpa [← drop_drop] using hgap
    · rw [offset_at_behind, length_append]
      simpa [Scanned.all, Nat.add_assoc] using hrest
  | fault => cases hfaults

end Run

/-- **The tokens tile the text.**

* Every token but the last takes at least one character, none reaches into a later one, and the last
  one is the end of the text, with nothing in it.
* The line and the column of every token and of every reported fault are those of the text before it.
* If there is no fault, only blanks and comments stand before and between the tokens. -/
theorem scan_tiles (source file : String) :
    (∀ t ∈ (scan source file).tokens, 1 ≤ t.length) ∧
    ((scan source file).all.Pairwise fun t u => t.start.offset + (t.length : Int) ≤ u.start.offset) ∧
    (∃ eof, (scan source file).all.getLast? = some eof ∧ eof.kind = .eof ∧
      eof.start.offset = source.length ∧ eof.length = 0) ∧
    (∀ t ∈ (scan source file).all,
      t.start = (Place.behind (source.toList.take t.offset)).inFile file) ∧
    (∀ phase, ∀ d ∈ (scan source file).diagnostics phase source file,
      d.location = (Place.behind (source.toList.take d.location.offset.toNat)).inFile file) ∧
    ((scan source file).faults = [] → GapsFrom source.toList 0 (scan source file).all) := by
  have hrun := scan_run source file
  -- A front of the text is as long as its place says.
  have hfront : ∀ front, front <+: source.toList →
      source.toList.take ((Place.behind front).inFile file).offset.toNat = front :=
    fun front h => (List.prefix_iff_eq_take.mp h).symm
  refine ⟨hrun.positive, hrun.ordered.2, ?_, ?_, ?_, hrun.gaps⟩
  · refine ⟨(scan source file).eof, by simp [Scanned.all], ?_⟩
    rw [hrun.eof_eq]
    exact ⟨rfl, by rw [Place.offset_behind, List.nil_append, String.length_toList], rfl⟩
  · intro t ht
    obtain ⟨front, hprefix, hstart⟩ := hrun.placed.1 t ht
    rw [offset, hstart, hfront front hprefix]
  · intro phase d hd
    obtain ⟨⟨fault, place⟩, hf, rfl⟩ := List.mem_map.mp hd
    obtain ⟨front, hprefix, rfl⟩ := hrun.placed.2 _ hf
    exact congrArg (fun cs => (Place.behind cs).inFile file) (hfront front hprefix).symm

end Token

end AlgoLang
