/-
# Texts and what is derived from their words

`Writes text Follow D` says that a text is words, whatever stands behind it as long as `Follow` holds of that,
and that tokens of these words are as `D` says.  Such texts are put together in the way of the grammar.
-/
import AlgoLang.Proofs.Reading
import AlgoLang.Proofs.Token.Spelled

namespace AlgoLang

open Token List

open Token (Spelled Apart apart_cons)
open Lift (isWordPiece)

variable {rest : List Char}

/-- Wherever the text stands before something that may follow it, it is words; tokens of these words are as
`D` says, and short. -/
def Writes (text : List Char) (Follow : List Char → Prop) (D : List Token → Prop) : Prop :=
  ∃ ws, (∀ rest more, Follow rest → Spelled more rest → Spelled (ws ++ more) (text ++ rest)) ∧
    ∀ ts, ts.map Token.word = ws → Short ts ∧ D ts

/-- A single token of the kind. -/
def IsToken (kind : TokenKind) (ts : List Token) : Prop :=
  ∃ t, ts = [t] ∧ t.kind = kind

def IsName (n : String) : Prop :=
  isWordPiece n.toList = true ∧ Keyword.ofName? n = none

/-- The text does not go on with a character of a name. -/
def Parted (rest : List Char) : Prop :=
  ∀ c, rest.head? = some c → Text.isWordChar c = false

lemma parted_cons {c : Char} (h : Text.isWordChar c = false) : Parted (c :: rest) := by
  rintro d ⟨⟩
  exact h

lemma Apart.parted (h : Apart rest) : Parted rest := by
  intro c hc
  have hword : ∀ c ∈ [' ', '\n', ')', ']', ',', ';'], Text.isWordChar c = false := Lift.forall_mem_of_all (by decide)
  exact hword c (h c hc)

namespace Writes

variable {text text' : List Char} {Follow Follow' : List Char → Prop} {D D' : List Token → Prop}

lemma mono (h : Writes text Follow D) (hFollow : ∀ rest, Follow' rest → Follow rest) (hD : ∀ ts, D ts → D' ts) :
    Writes text Follow' D' := by
  obtain ⟨ws, hspelled, hread⟩ := h
  exact ⟨ws, fun rest more hrest => hspelled rest more (hFollow rest hrest),
    fun ts hts => (hread ts hts).imp_right (hD ts)⟩

lemma reads (h : Writes text Follow D) (htext : text' = text) (hD : ∀ ts, D ts → D' ts) : Writes text' Follow D' :=
  htext ▸ h.mono (fun _ h => h) hD

lemma apart (h : Writes text Parted D) : Writes text Apart D :=
  h.mono (fun _ => Apart.parted) fun _ h => h

lemma append (h : Writes text Follow D) (h' : Writes text' Follow' D')
    (hFollow : ∀ rest, Follow' rest → Follow (text' ++ rest)) :
    Writes (text ++ text') Follow' fun ts => ∃ xs ys, ts = xs ++ ys ∧ D xs ∧ D' ys := by
  obtain ⟨ws, hspelled, hread⟩ := h
  obtain ⟨ws', hspelled', hread'⟩ := h'
  refine ⟨ws ++ ws', fun rest more hrest hmore => ?_, fun ts hts => ?_⟩
  · rw [append_assoc, append_assoc]
    exact hspelled _ _ (hFollow rest hrest) (hspelled' rest more hrest hmore)
  · obtain ⟨xs, ys, rfl, hxs, hys⟩ := map_eq_append_iff.mp hts
    obtain ⟨hshort, hD⟩ := hread xs hxs
    obtain ⟨hshort', hD'⟩ := hread' ys hys
    exact ⟨forall_mem_append.mpr ⟨hshort, hshort'⟩, xs, ys, rfl, hD, hD'⟩

lemma before (h : Writes text (fun _ => True) D) (h' : Writes text' Follow' D') :
    Writes (text ++ text') Follow' fun ts => ∃ xs ys, ts = xs ++ ys ∧ D xs ∧ D' ys :=
  h.append h' fun _ _ => trivial

lemma word {kind : TokenKind} {value : String}
    (h : ∀ rest more, Follow rest → Spelled more rest → Spelled ((kind, value) :: more) (text ++ rest))
    (hD : ∀ t, t.kind = kind → t.value = value → D [t])
    (hshort : kind = .integer → value.length ≤ maxDigits := by simp) : Writes text Follow D := by
  refine ⟨[(kind, value)], h, fun ts hts => ?_⟩
  obtain ⟨t, rest, rfl, ht, hrest⟩ := map_eq_cons_iff.mp hts
  obtain rfl := map_eq_nil_iff.mp hrest
  cases ht
  exact ⟨forall_mem_singleton.mpr hshort, hD t rfl rfl⟩

lemma empty (h : ∀ rest more, Follow rest → Spelled more rest → Spelled more (text ++ rest)) :
    Writes text Follow (· = []) := by
  refine ⟨[], h, fun _ hts => ?_⟩
  obtain rfl := map_eq_nil_iff.mp hts
  exact ⟨forall_mem_nil _, rfl⟩

lemma blank (h : text.all isSpace) : Writes text Follow (· = []) :=
  .empty fun _ _ _ hmore => .gap h hmore

lemma behind (h : Writes text (fun _ => True) (· = [])) (h' : Writes text' Follow D) :
    Writes (text ++ text') Follow D := by
  refine (h.before h').reads rfl ?_
  rintro _ ⟨_, ts, rfl, rfl, hts⟩
  exact hts

lemma spaced (c : Char) (h : Writes text Apart D) (hc : [' ', '\n'].contains c) : Writes (text ++ [c]) Follow D := by
  have hblank : ∀ c ∈ [' ', '\n'], [c].all isSpace ∧ [' ', '\n', ')', ']', ',', ';'].contains c :=
    Lift.forall_mem_of_all (by decide)
  obtain ⟨hspace, happart⟩ := hblank c (contains_iff_mem.mp hc)
  refine (h.append (blank hspace) fun _ _ => apart_cons happart).reads rfl ?_
  rintro _ ⟨ts, _, rfl, hts, rfl⟩
  rwa [append_nil]

lemma mark {c : Char} {m : Mark}
    (hc : ∀ rest, skipOne (c :: rest) = 0 ∧ lexeme c rest = .token (.mark m) (.singleton c) 1) :
    Writes [c] Follow (IsToken (.mark m)) :=
  word (fun rest _ _ h => .one (hc rest).1 (hc rest).2 h) fun t ht _ => ⟨t, rfl, ht⟩

lemma name {w : String} {kind : TokenKind} (hw : isWordPiece w.toList)
    (hkind : ((Keyword.ofName? w).elim .identifier .keyword : TokenKind) = kind)
    (hD : ∀ t, t.kind = kind → t.value = w → D [t]) : Writes w.toList Parted D := by
  refine .word (fun rest more hrest h => .name hw hkind (fun c hc => ?_) h) hD fun h => ?_
  · rw [Lift.joins, if_pos (Lift.all_isNameChar_of_isWordPiece hw)]
    exact hrest c hc
  · cases hname : Keyword.ofName? w <;> simp [hname, h] at hkind

lemma keyword (w : String) (k : Keyword) (hw : isWordPiece w.toList) (hk : Keyword.ofName? w = some k) :
    Writes w.toList Parted (IsToken (.keyword k)) :=
  .name hw (by rw [hk]; rfl) fun t ht _ => ⟨t, rfl, ht⟩

lemma enclosed (o c : Char) {m m' : Mark} (h : Writes text Apart D) (ho : ∀ rest, skipOne (o :: rest) = 0 ∧
      lexeme o rest = .token (.mark m) (.singleton o) 1)
    (hc : ∀ rest, Apart (c :: rest) ∧ skipOne (c :: rest) = 0 ∧
      lexeme c rest = .token (.mark m') (.singleton c) 1) :
    Writes (o :: (text ++ [c])) Follow fun ts =>
      ∃ o ts' c, ts = o :: (ts' ++ [c]) ∧ o.kind = .mark m ∧ D ts' ∧ c.kind = .mark m' := by
  have hopen : Writes [o] (fun _ => True) (IsToken (.mark m)) := .mark ho
  have hclose : Writes [c] Follow (IsToken (.mark m')) := .mark fun r => (hc r).2
  refine (hopen.before (h.append hclose fun r _ => (hc r).1)).reads rfl ?_
  rintro _ ⟨_, _, rfl, ⟨o, rfl, ho⟩, ts, _, rfl, hts, c, rfl, hc⟩
  exact ⟨o, ts, c, rfl, ho, hts, hc⟩

lemma parens (h : Writes text Apart D) : Writes ('(' :: (text ++ [')'])) Follow fun ts =>
    ∃ o ts' c, ts = o :: (ts' ++ [c]) ∧ o.kind = .mark .lparen ∧ D ts' ∧ c.kind = .mark .rparen :=
  h.enclosed _ _ (fun _ => ⟨rfl, rfl⟩) fun _ => ⟨apart_cons rfl, rfl, rfl⟩

lemma list {α : Type} {f : α → String} {D : α → List Token → Prop} {L : List Token → List α → Prop}
    (hone : ∀ a ts, D a ts → L ts [a])
    (hmore : ∀ a xs c ys as, D a xs → c.kind = .mark .comma → L ys as → L (xs ++ c :: ys) (a :: as)) {as : List α}
    (h : ∀ a ∈ as, Writes (f a).toList Apart (D a)) (hne : as ≠ []) :
    Writes (", ".intercalate (as.map f)).toList Apart (L · as) := by
  induction as with
  | nil => exact absurd rfl hne
  | cons a as ih =>
    obtain ⟨ha, has⟩ := forall_mem_cons.mp h
    cases as with
    | nil => exact ha.reads (by simp) (hone a)
    | cons b as =>
      have hcomma : Writes [','] (fun _ => True) (IsToken (.mark .comma)) := .mark fun _ => ⟨rfl, rfl⟩
      have hspace : Writes [' '] (fun _ => True) (· = []) := .blank rfl
      refine (ha.append (hcomma.before (hspace.behind (ih has nofun))) fun _ _ => apart_cons rfl).reads
        (by simp [String.intercalate_cons_cons]) ?_
      rintro _ ⟨xs, _, rfl, hxs, _, ys, rfl, ⟨c, rfl, hc⟩, hys⟩
      exact hmore a xs c ys _ hxs hc hys

lemma parses {text : String} (h : Writes text.toList Apart D) (file : String) :
    (scan text file).faults = [] ∧ (scan text file).eof.kind = .eof ∧
      Short (scan text file).tokens ∧ D (scan text file).tokens := by
  obtain ⟨ws, hspelled, hread⟩ := h
  obtain ⟨tokens, eof, hscan, heof, hwords⟩ := (hspelled [] [] nofun .done).scanFrom file {}
  rw [append_nil] at hscan hwords
  rw [scan, hscan]
  exact ⟨rfl, heof, hread tokens hwords⟩

end Writes

lemma IsName.writes {n : String} (h : IsName n) :
    Writes n.toList Parted fun ts => ∃ t, ts = [t] ∧ t.kind = .identifier ∧ t.value = n :=
  .name h.1 (by rw [h.2]; rfl) fun t ht hvalue => ⟨t, rfl, ht, hvalue⟩

end AlgoLang
