/-
# Fragments hold the text they were cut from

In a text without comments every character but the blanks comes into one fragment, and the order stays.  The
machine is followed from character to character: what is complete and what is being collected are together
what has been read.
-/
import AlgoLang.Proofs.CSource.Origins

namespace AlgoLang.CSource

open Text List Mode

/-- A character with the line it came from.  It is a mark if it is a semicolon or a brace outside of literals,
parentheses and initialisers. -/
structure Placed where
  char : Char
  origin : Nat
  isMark : Bool

/-- The place of a character; blanks have none. -/
def placedChar (origin : Nat) (c : Char) (isMark : Bool) : List Placed :=
  if isBlank c then [] else [⟨c, origin, isMark⟩]

/-- The list in braces behind an equals sign, if it is closed on its line. -/
def initialiser? (isMark equals : Bool) (c : Char) (ahead : List (Char × Spot)) : Option (List Char × List Char) :=
  if isMark && c == '\x7b' && equals then closingMarked '\x7b' '\x7d' 0 ahead else none

/-- The characters of a marked line, and how many parentheses are open behind it.  `equals` says that an equals
sign stands before the line, and `listed` how many of its characters belong to an initialiser. -/
def placedFrom (origin depth : Nat) (equals : Bool) (listed : Nat) : List (Char × Spot) → List Placed × Nat
  | [] => ([], depth)
  | (c, spot) :: ms =>
    let isBare := spot == .code && listed == 0
    let depth := if isBare then openAfter depth c else depth
    let isMark := isBare && depth == 0 && endsPiece c
    let list := initialiser? isMark equals c ms
    let rest := placedFrom origin depth (if isBlank c then equals else c == '=')
      (list.elim (listed - 1) fun r => r.1.length + 1) ms
    (placedChar origin c (isMark && list.isNone) ++ rest.1, rest.2)

/-- The same for a line; in a directive there are no marks. -/
def placedLine (depth : Nat) (l : List Char × Nat) : List Placed × Nat :=
  if depth == 0 && (trim l.1).head? == some '#' then
    ((l.1.filter (!isBlank ·)).map (⟨·, l.2, false⟩), depth)
  else placedFrom l.2 depth false 0 (marked l.1)

/-- The characters of a text that are no blanks; `depth` parentheses are open before it. -/
def placed (depth : Nat) : List (List Char × Nat) → List Placed
  | [] => []
  | l :: ls => (placedLine depth l).1 ++ placed (placedLine depth l).2 ls

/-- A fragment is made of these characters.  It comes from the line of the first of them, and a mark is the last. -/
structure Fragment.MadeOf (f : Fragment) (ps : List Placed) : Prop where
  text : f.text.filter (!isBlank ·) = ps.map Placed.char
  origin : ps.head?.map Placed.origin = some f.origin
  marks : ∀ p ∈ ps.dropLast, p.isMark = false

/-- No comment begins in the code of a marked text. -/
def Uncommented (ms : List (Char × Spot)) : Prop :=
  ms.IsChain fun a b => a = ('/', .code) → b.1 ≠ '/' ∧ b.1 ≠ '*'

variable {c : Char} {cs : List Char} {s : Cutting} {ps rest : List Placed} {parts : List (List Placed)} {origin : Nat}

lemma filter_trim (cs : List Char) : (trim cs).filter (!isBlank ·) = cs.filter (!isBlank ·) := by
  obtain ⟨gap, hgap, hstart⟩ := exists_eq_append_trimStart cs
  obtain ⟨gap', hgap', hend⟩ := exists_eq_trimEnd_append (trimStart cs)
  have hnone {gap : List Char} (h : allBlank gap) : gap.filter (!isBlank ·) = [] := by
    simpa [allBlank] using h
  conv_rhs => rw [hstart, filter_append, hnone hgap, hend, filter_append, hnone hgap', nil_append, append_nil]
  rfl

namespace Cutting

/-- The complete pieces and the one that is being collected are made of these characters. -/
structure Covers (s : Cutting) (parts : List (List Placed)) (rest : List Placed) : Prop where
  done : Forall₂ Fragment.MadeOf s.done parts
  buffer : s.buffer.filter (!isBlank ·) = rest.map Placed.char
  origin : ∀ p ∈ rest.head?, p.origin = s.origin

namespace Covers

lemma allBlank_iff (h : s.Covers parts rest) : allBlank s.buffer ↔ rest = [] := by
  rw [← map_eq_nil_iff (f := Placed.char), ← h.buffer]
  simp [allBlank]

lemma push (h : s.Covers parts rest) (origin : Nat) (c : Char) (isMark : Bool) :
    (s.push origin c).Covers parts (rest ++ placedChar origin c isMark) := by
  refine ⟨h.done, ?_, ?_⟩
  · by_cases hc : isBlank c <;> simp [Cutting.push, placedChar, hc, h.buffer]
  · intro p hp
    have hblank := h.allBlank_iff
    have horigin := h.origin
    cases rest with
    | nil =>
      unfold placedChar at hp
      split at hp
      · cases hp
      · next hc =>
        cases hp
        simp [Cutting.push, hc, hblank]
    | cons q rest =>
      have hq : q = p := by simpa using hp
      have hbegun : allBlank s.buffer = false := by simpa using hblank
      simpa [Cutting.push, hbegun, ← hq] using horigin

/-- What was collected becomes a piece; if there is a mark in it, it comes last. -/
lemma flush (h : s.Covers parts rest) (hmarks : ∀ p ∈ rest.dropLast, p.isMark = false) :
    ∃ parts', parts'.flatten = parts.flatten ++ rest ∧ s.flush.Covers parts' [] := by
  have htrim := filter_trim s.buffer
  cases rest with
  | nil =>
    refine ⟨parts, (append_nil _).symm, ?_⟩
    rw [flush_of_allBlank (h.allBlank_iff.mpr rfl)]
    exact ⟨h.done, rfl, h.origin⟩
  | cons p rest =>
    have hmade : Fragment.MadeOf ⟨trim s.buffer, s.origin⟩ (p :: rest) :=
      ⟨htrim.trans h.buffer, congrArg some (h.origin p rfl), hmarks⟩
    refine ⟨parts ++ [p :: rest], by simp, ?_⟩
    unfold flush
    split
    · next hnil =>
      rw [hnil, h.buffer] at htrim
      cases htrim
    · exact ⟨rel_append h.done (.cons hmade .nil), rfl, nofun⟩

end Covers

/-- The state in which the machine has read these characters of a text, and an equals sign last or not. -/
structure Follows (s : Cutting) (ps : List Placed) (equals : Bool) : Prop where
  covers : ∃ parts rest, parts.flatten ++ rest = ps ∧ s.Covers parts rest ∧ ∀ p ∈ rest, p.isMark = false
  equals : s.depth = 0 → ((trimEnd s.buffer).getLast? == some '=') = equals
  begun : s.depth ≠ 0 → allBlank s.buffer = false
  inComment : s.inComment = false

lemma Covers.follows_flush (h : s.Covers parts rest) (hmarks : ∀ p ∈ rest.dropLast, p.isMark = false)
    (hdepth : s.depth = 0) (hcomment : s.inComment = false) : s.flush.Follows (parts.flatten ++ rest) false := by
  obtain ⟨parts', hparts, hflush⟩ := h.flush hmarks
  have hs := s.flush_eq
  refine ⟨⟨parts', [], by rw [append_nil, hparts], hflush, forall_mem_nil _⟩, fun _ => ?_, fun hne => ?_, ?_⟩
  · rw [hs]
    rfl
  · rw [hs] at hne
    exact absurd hdepth hne
  · rw [hs]
    exact hcomment

namespace Follows

variable {equals : Bool}

lemma push (h : s.Follows ps equals) (origin : Nat) {d : Nat} (hd : isBlank c → d = s.depth) :
    (push { s with depth := d } origin c).Follows (ps ++ placedChar origin c false)
      (if isBlank c then equals else c == '=') := by
  obtain ⟨parts, rest, rfl, hcovers, hmarks⟩ := h.covers
  have hsame : Covers { s with depth := d } parts rest := ⟨hcovers.done, hcovers.buffer, hcovers.origin⟩
  have hplain : ∀ p ∈ placedChar origin c false, p.isMark = false := by
    unfold placedChar
    split <;> simp
  refine ⟨⟨parts, _, (append_assoc ..).symm, hsame.push origin c false, forall_mem_append.mpr ⟨hmarks, hplain⟩⟩, ?_, ?_,
    h.inComment⟩
  · intro hdepth
    show ((trimEnd (s.buffer ++ [c])).getLast? == some '=') = _
    cases hc : isBlank c with
    | true =>
      have hsame : trimEnd (s.buffer ++ [c]) = trimEnd s.buffer := by simp [trimEnd, hc]
      rw [hsame]
      exact h.equals (hd hc ▸ hdepth)
    | false =>
      rw [trimEnd_eq_self (by simp [hc])]
      simp
  · intro hdepth
    show allBlank (s.buffer ++ [c]) = false
    cases hc : isBlank c with
    | true =>
      rw [allBlank, all_append, ← allBlank, h.begun (hd hc ▸ hdepth)]
      rfl
    | false => simp [allBlank, hc]

lemma mark (h : s.Follows ps equals) (hdepth : s.depth = 0) (hc : isBlank c = false) (origin : Nat) :
    (s.push origin c).flush.Follows (ps ++ placedChar origin c true) false := by
  obtain ⟨parts, rest, rfl, hcovers, hmarks⟩ := h.covers
  have hplace : placedChar origin c true = [⟨c, origin, true⟩] := by simp [placedChar, hc]
  rw [append_assoc]
  refine (hcovers.push origin c true).follows_flush ?_ hdepth h.inComment
  rwa [hplace, dropLast_concat]

lemma flush (h : s.Follows ps equals) (hdepth : s.depth = 0) : s.flush.Follows ps false := by
  obtain ⟨parts, rest, rfl, hcovers, hmarks⟩ := h.covers
  exact hcovers.follows_flush (fun p hp => hmarks p (dropLast_subset rest hp)) hdepth h.inComment

lemma add (h : s.Follows ps equals) (hblank : allBlank s.buffer) {f : Fragment} {part : List Placed}
    (hf : f.MadeOf part) : Follows { s with done := s.done ++ [f] } (ps ++ part) equals := by
  obtain ⟨parts, rest, rfl, hcovers, -⟩ := h.covers
  obtain rfl := hcovers.allBlank_iff.mp hblank
  have hdone : Forall₂ Fragment.MadeOf (s.done ++ [f]) (parts ++ [part]) := rel_append hcovers.done (.cons hf .nil)
  exact ⟨⟨parts ++ [part], [], by simp, ⟨hdone, hcovers.buffer, nofun⟩, forall_mem_nil _⟩, h.equals, h.begun, h.inComment⟩

lemma endLine (h : s.Follows ps equals) :
    s.endLine.Follows ps false ∧ (s.endLine.depth = 0 → s.endLine.buffer = []) := by
  unfold Cutting.endLine
  split
  · next hdepth => exact ⟨h.flush (beq_iff_eq.mp hdepth), fun _ => by rw [flush_eq]⟩
  · next hdepth =>
    have hdepth : s.depth ≠ 0 := by simpa using hdepth
    obtain ⟨parts, rest, rfl, hcovers, hmarks⟩ := h.covers
    refine ⟨⟨⟨parts, rest, rfl, ⟨hcovers.done, ?_, hcovers.origin⟩, hmarks⟩, (absurd · hdepth), fun _ => ?_, h.inComment⟩,
      (absurd · hdepth)⟩
    · rw [filter_append, hcovers.buffer]
      exact append_nil _
    · rw [allBlank, all_append, ← allBlank, h.begun hdepth]
      rfl

end Follows

/-! ## Lines -/

/-- What the machine that reads a line is about where a scan stands in a mode, or inside an initialiser. -/
def lineMode (m : Mode) : Nat → LineMode
  | n + 1 => .verbatim n
  | 0 =>
    match m with
    | .code => .code
    | .literal q => .literal q
    | .escaped q => .escaped q

lemma depth_endLine (s : Cutting) : s.endLine.depth = s.depth := by
  unfold endLine
  split
  · rw [flush_eq]
  · rfl

variable {equals : Bool} {m : Mode} {listed : Nat}

lemma Follows.code (h : s.Follows ps equals) (origin : Nat) (c : Char) (ahead : List Char) :
    let depth := openAfter s.depth c
    let isMark := depth == 0 && endsPiece c
    let list := initialiser? isMark equals c (marked ahead)
    ∃ s', s.code origin c ahead = (s', lineMode .code (list.elim 0 fun r => r.1.length + 1)) ∧ s'.depth = depth ∧
      s'.Follows (ps ++ placedChar origin c (isMark && list.isNone)) (if isBlank c then equals else c == '=') := by
  intro depth isMark list
  cases hmark : isMark with
  | false =>
    have hlist : list = none := by simp [list, initialiser?, hmark]
    exact ⟨_, by rw [code_of_not_endsPiece hmark, parens_eq, hlist]; rfl, rfl, h.push origin fun hc =>
      openAfter_eq (ne_of_class hc (by decide)) (ne_of_class hc (by decide))⟩
  | true =>
    obtain ⟨hzero, hc⟩ : depth = 0 ∧ endsPiece c := by simpa [isMark] using hmark
    have hfacts : ∀ c ∈ [';', '\x7b', '\x7d'], isBlank c = false ∧ (c == '=') = false := by simp [isBlank, isWhiteSpace]
    obtain ⟨hblank, hequal⟩ := hfacts c (by simpa [endsPiece, or_assoc] using hc)
    have hsame : depth = s.depth := openAfter_of_endsPiece hc _
    have hdepth : s.depth = 0 := hsame ▸ hzero
    have hlength : s.initialiserLength? c ahead = list.map fun r => r.1.length := by
      unfold initialiserLength?
      simp only [h.equals hdepth, list, initialiser?, hmark, Bool.true_and]
      split <;> rfl
    rw [code_of_endsPiece hc hdepth, hlength, hblank, hequal]
    cases list with
    | some r =>
      have hpush := h.push (c := c) origin fun _ => rfl
      rw [hblank, hequal] at hpush
      exact ⟨s.push origin c, rfl, hsame.symm, hpush⟩
    | none =>
      by_cases hbrace : c = '\x7d'
      · subst hbrace
        refine ⟨s.closeBrace origin, rfl, ?_, (h.flush hdepth).add (by rw [flush_eq]; rfl) ⟨rfl, rfl, forall_mem_nil _⟩⟩
        rw [Cutting.closeBrace, flush_eq, hsame]
      · refine ⟨(s.push origin c).flush, ?_, ?_, h.mark hdepth hblank origin⟩
        · rw [Option.map_none, if_neg (by simpa using hbrace)]
          rfl
        · rw [flush_eq, hsame]
          rfl

lemma chars_of_not_bare (h : (m.spot c == .code && listed == 0) = false) (hlisted : listed = 1 → m.next c = .code) :
    s.chars origin (lineMode m listed) (c :: cs) =
      (s.push origin c).chars origin (lineMode (m.next c) (listed - 1)) cs := by
  cases listed with
  | succ n =>
    cases n with
    | zero => rw [hlisted rfl]; rfl
    | succ n => rfl
  | zero =>
    cases m with
    | code =>
      have hc : isQuote c := by simpa [spot] using h
      simp [lineMode, chars, Mode.next, hc]
    | literal q =>
      simp only [lineMode, chars, Mode.next]
      split
      · rfl
      · split <;> rfl
    | escaped q => rfl

lemma head_of_uncommented (hfree : Uncommented (marked (c :: cs))) (hc : c = '/') : ∀ d ∈ cs.head?, d ≠ '/' ∧ d ≠ '*' := by
  subst hc
  cases cs with
  | nil => nofun
  | cons x cs =>
    rintro d ⟨⟩
    exact (isChain_cons_cons.mp hfree).1 rfl

lemma exists_of_initialiser? {isMark : Bool} {ms : List (Char × Spot)} {n : Nat}
    (h : ((initialiser? isMark equals c ms).elim 0 fun r => r.1.length + 1) = n + 1) :
    ∃ before behind, ms = before ++ ('\x7d', .code) :: behind ∧ before.length = n := by
  unfold initialiser? at h
  split at h
  · cases hr : closingMarked '\x7b' '\x7d' 0 ms with
    | none => simp [hr] at h
    | some r =>
      obtain ⟨before, behind, hms, rfl⟩ := exists_of_closingMarked hr
      exact ⟨before, behind, hms, by simpa [hr] using h⟩
  · cases h

lemma Follows.chars (h : s.Follows ps equals) (origin : Nat) (m : Mode) (listed : Nat)
    (hfree : Uncommented (markedFrom m cs))
    (hlisted : ∀ n, listed = n + 1 → ∃ before behind,
      markedFrom m cs = before ++ ('\x7d', .code) :: behind ∧ before.length = n) :
    ∃ e, (s.chars origin (lineMode m listed) cs).depth = (placedFrom origin s.depth equals listed (markedFrom m cs)).2 ∧
      (s.chars origin (lineMode m listed) cs).Follows
        (ps ++ (placedFrom origin s.depth equals listed (markedFrom m cs)).1) e := by
  induction cs generalizing s ps equals m listed with
  | nil =>
    have hs : s.chars origin (lineMode m listed) [] = s := by
      cases listed with
      | zero => cases m <;> rfl
      | succ => rfl
    rw [hs]
    exact ⟨equals, rfl, by simpa [markedFrom, placedFrom] using h⟩
  | cons c cs ih =>
    have hrest : Uncommented (markedFrom (m.next c) cs) := (isChain_cons.mp hfree).2
    cases hbare : (m.spot c == .code && listed == 0) with
    | false =>
      have hpush := h.push (c := c) origin fun _ => rfl
      have hnext : listed = 1 → m.next c = .code := by
        intro hone
        obtain ⟨before, behind, hmarks, hlength⟩ := hlisted 0 hone
        obtain rfl := length_eq_zero_iff.mp hlength
        obtain ⟨rfl, hspot⟩ := Prod.mk.inj (cons.inj hmarks).1
        obtain ⟨rfl, hquote⟩ := eq_code_of_spot hspot
        exact next_code hquote
      have hlisted' : ∀ n, listed - 1 = n + 1 → ∃ before behind,
          markedFrom (m.next c) cs = before ++ ('\x7d', .code) :: behind ∧ before.length = n := by
        intro n hn
        obtain ⟨before, behind, hmarks, hlength⟩ := hlisted (n + 1) (by omega)
        cases before with
        | nil => cases hlength
        | cons b before => exact ⟨before, behind, (cons.inj hmarks).2, by simpa using hlength⟩
      obtain ⟨e, hdepth, hfollows⟩ := ih hpush _ _ hrest hlisted'
      rw [append_assoc] at hfollows
      simp only [chars_of_not_bare hbare hnext, markedFrom, placedFrom, hbare]
      exact ⟨e, hdepth, hfollows⟩
    | true =>
      obtain ⟨hspot, rfl⟩ : m.spot c = .code ∧ listed = 0 := by simpa using hbare
      obtain ⟨rfl, hquote⟩ := eq_code_of_spot hspot
      rw [next_code hquote] at hrest
      obtain ⟨s₁, hcode, hdepth₁, hfollows₁⟩ := h.code origin c cs
      have hchars : s.chars origin .code (c :: cs) = _ := chars_code hquote (head_of_uncommented hfree)
      rw [hcode] at hchars
      obtain ⟨e, hdepth, hfollows⟩ := ih hfollows₁ _ _ hrest fun n hn => exists_of_initialiser? hn
      rw [hdepth₁] at hdepth hfollows
      rw [append_assoc] at hfollows
      simp only [lineMode, hchars, markedFrom, placedFrom, hbare, next_code hquote]
      exact ⟨e, hdepth, hfollows⟩

lemma beforeSlashes_eq_none (h : Uncommented (cs.map (·, .code))) : cutLineComment.beforeSlashes cs = none := by
  induction cs with
  | nil => rfl
  | cons c cs ih =>
    unfold cutLineComment.beforeSlashes
    split
    · rfl
    · next heq =>
      obtain ⟨rfl, rfl⟩ := cons.inj heq
      exact absurd rfl ((isChain_cons_cons.mp h).1 rfl).1
    · next heq =>
      obtain ⟨rfl, rfl⟩ := cons.inj heq
      rw [ih (isChain_cons.mp h).2]
      rfl

lemma cutLineComment_segments (h : Uncommented (marked cs)) : cutLineComment (segments cs) = cs := by
  have hnone : ∀ ds, .code ds ∈ segments cs → cutLineComment.beforeSlashes ds = none := fun ds hds =>
    beforeSlashes_eq_none <| IsChain.infix h ((cut_segments cs).infix_marked hds)
  have hall : cutLineComment (segments cs) = (segments cs).flatMap Segment.text := by
    generalize segments cs = segs at hnone
    induction segs with
    | nil => rfl
    | cons seg segs ih =>
      have hrest := ih fun ds hds => hnone ds (mem_cons_of_mem _ hds)
      cases seg with
      | literal ds => rw [cutLineComment, hrest]; rfl
      | code ds => rw [cutLineComment, hnone ds mem_cons_self]; exact congrArg (ds ++ ·) hrest
  rw [hall, flatMap_text_segments]

lemma Follows.directive (h : s.Follows ps equals) (hblank : allBlank s.buffer) (hfree : Uncommented (marked cs))
    (hhash : (trim cs).head? = some '#') :
    (s.directive cs origin).Follows (ps ++ (cs.filter (!isBlank ·)).map (⟨·, origin, false⟩)) equals := by
  have htrim := filter_trim cs
  unfold Cutting.directive
  rw [cutLineComment_segments hfree]
  cases htext : trim cs with
  | nil => simp [htext] at hhash
  | cons x xs =>
    obtain rfl : x = '#' := by simpa [htext] using hhash
    refine h.add hblank ⟨?_, ?_, ?_⟩
    · rw [← htext, htrim]
      simp [Function.comp_def]
    · rw [← htrim, htext]
      rfl
    · intro p hp
      obtain ⟨x, -, rfl⟩ := mem_map.mp (dropLast_subset _ hp)
      rfl

lemma Follows.line (h : s.Follows ps false) (hstart : s.depth = 0 → s.buffer = []) {l : List Char × Nat}
    (hfree : Uncommented (marked l.1)) :
    (s.line l).Follows (ps ++ (placedLine s.depth l).1) false ∧ (s.line l).depth = (placedLine s.depth l).2 ∧
      ((s.line l).depth = 0 → (s.line l).buffer = []) := by
  have hblank : allBlank s.buffer = (s.depth == 0) := by
    by_cases hdepth : s.depth = 0
    · simp [hstart hdepth, hdepth, allBlank]
    · simp [h.begun hdepth, hdepth]
  have hline : s.line l = if s.depth == 0 && (trim l.1).head? == some '#' then s.directive l.1 l.2
      else (s.chars l.2 .code l.1).endLine := by
    have hsame : { s with inComment := false } = s := by rw [← h.inComment]
    simp only [Cutting.line, uncommented?, h.inComment, isDirective, hsame, hblank]
    rfl
  rw [hline, placedLine]
  split
  · next hdirective =>
    obtain ⟨hdepth, hhash⟩ : s.depth = 0 ∧ (trim l.1).head? = some '#' := by simpa using hdirective
    refine ⟨h.directive (by simp [hblank, hdepth]) hfree hhash, ?_⟩
    unfold Cutting.directive
    split
    · exact ⟨rfl, hstart⟩
    · exact ⟨rfl, hstart⟩
  · obtain ⟨e, hdepth, hfollows⟩ := h.chars l.2 .code 0 hfree (by simp)
    exact ⟨hfollows.endLine.1, (depth_endLine _).trans hdepth, hfollows.endLine.2⟩

lemma Follows.lines {ls : List (List Char × Nat)} (h : s.Follows ps false) (hstart : s.depth = 0 → s.buffer = [])
    (hfree : ∀ l ∈ ls, Uncommented (marked l.1)) : (ls.foldl .line s).Follows (ps ++ placed s.depth ls) false := by
  induction ls generalizing s ps with
  | nil => simpa [placed] using h
  | cons l ls ih =>
    obtain ⟨hline, hdepth, hstart'⟩ := h.line hstart (hfree l mem_cons_self)
    have hrest := ih hline hstart' fun l hl => hfree l (mem_cons_of_mem _ hl)
    rwa [hdepth, append_assoc] at hrest

end Cutting

/-! ## The whole text -/

lemma chars_placedFrom (origin depth : Nat) (equals : Bool) (listed : Nat) (ms : List (Char × Spot)) :
    (placedFrom origin depth equals listed ms).1.map Placed.char = (ms.map Prod.fst).filter (!isBlank ·) := by
  induction ms generalizing depth equals listed with
  | nil => rfl
  | cons m ms ih =>
    simp only [placedFrom, placedChar, map_append, ih]
    cases hc : isBlank m.1 <;> simp [hc]

lemma chars_placed (depth : Nat) (ls : List (List Char × Nat)) :
    (placed depth ls).map Placed.char = (ls.flatMap Prod.fst).filter (!isBlank ·) := by
  induction ls generalizing depth with
  | nil => rfl
  | cons l ls ih =>
    have hline : (placedLine depth l).1.map Placed.char = l.1.filter (!isBlank ·) := by
      unfold placedLine
      split
      · simp [Function.comp_def]
      · rw [chars_placedFrom, marked, map_fst_markedFrom]
    rw [placed, map_append, hline, ih, flatMap_cons, filter_append]

/-- A text without comments is cut into fragments that hold its characters, blanks aside, in their order.  A fragment
comes from the line of its first character, and a mark is the last character of a fragment. -/
theorem splitFragments_placed (ls : List (List Char × Nat)) (hfree : ∀ l ∈ ls, Uncommented (marked l.1)) :
    ((splitFragments ls).flatMap Fragment.text).filter (!isBlank ·) = (ls.flatMap Prod.fst).filter (!isBlank ·) ∧
      ∃ parts, parts.flatten = placed 0 ls ∧ Forall₂ Fragment.MadeOf (splitFragments ls) parts := by
  have hempty : ({} : Cutting).Follows [] false :=
    ⟨⟨[], [], rfl, ⟨.nil, rfl, nofun⟩, forall_mem_nil _⟩, fun _ => rfl, (absurd rfl ·), rfl⟩
  obtain ⟨parts, rest, hparts, hcovers, hmarks⟩ := (hempty.lines (fun _ => rfl) hfree).covers
  obtain ⟨parts', hparts', hflush⟩ := hcovers.flush fun p hp => hmarks p (dropLast_subset rest hp)
  have hplaced : parts'.flatten = placed 0 ls := hparts'.trans hparts
  refine ⟨?_, parts', hplaced, hflush.done⟩
  rw [← chars_placed 0, ← hplaced]
  have hdone := hflush.done
  change Forall₂ _ (splitFragments ls) parts' at hdone
  generalize splitFragments ls = fs at hdone
  clear hplaced hparts' hflush
  induction hdone with
  | nil => rfl
  | cons hf _ ih => rw [flatMap_cons, filter_append, hf.text, ih, flatten_cons, map_append]

/-- A list in braces, and a call that goes on to the next line. -/
def initialised : List (List Char × Nat) :=
  [("int a[2] = \x7b 1, 2 \x7d; f(';',".toList, 3), ("  a / 2); \x7d".toList, 4)]

theorem splitFragments_placed_initialised :
    ∃ parts, parts.flatten = placed 0 initialised ∧ Forall₂ Fragment.MadeOf (splitFragments initialised) parts :=
  (splitFragments_placed initialised (by unfold Uncommented; decide +kernel)).2

end AlgoLang.CSource
