/-
# Reading C for its literals, comments and brackets

A `Reader` passes over the comments and the literals of C and wants every bracket closed by its counterpart.
Of the code it keeps what stands outside of all brackets, so that a function looks the same whatever is in it:
`int f() {}`.  A `Stretch` is a text that a reader passes over wherever it stands in code.
-/
import AlgoLang.C.Program
import AlgoLang.Proofs.CGrammar.Literal

namespace AlgoLang.CText

open List CGrammar C.Line

variable {names texts : List String} {α : Type} {f : α → List C.Line} {as : List α}

/-! ## Readers -/

/-- What a reader is in the middle of. -/
inductive Mode where
  | code
  /-- Behind a slash in code, which may begin a comment. -/
  | slash
  | comment
  | literal (quote : Char)
  /-- Behind a backslash in a literal. -/
  | escape (quote : Char)
  deriving DecidableEq

/-- A reader: what it is in the middle of, the brackets it waits for, innermost first, and the code that
stood outside of all brackets. -/
structure Reader where
  mode : Mode := .code
  awaited : List Char := []
  outside : List Char := []
  deriving DecidableEq

/-- The bracket that closes one that opens. -/
def closer? : Char → Option Char
  | '(' => some ')'
  | '[' => some ']'
  | '\x7b' => some '\x7d'
  | _ => none

namespace Reader

/-- Keeps code that stands outside of all brackets. -/
def keep (r : Reader) (cs : List Char) : Reader :=
  if r.awaited = [] then { r with outside := r.outside ++ cs } else r

def code (r : Reader) (c : Char) : Option Reader :=
  match closer? c with
  | some d => some { r.keep [c] with mode := .code, awaited := d :: r.awaited }
  | none =>
    if c = '/' then some { r with mode := .slash }
    else if c = '"' ∨ c = '\'' then some { r with mode := .literal c }
    else if c ∈ [')', ']', '\x7d'] then
      match r.awaited with
      | d :: ds => if c = d then some (keep { r with mode := .code, awaited := ds } [c]) else none
      | [] => none
    else some { r.keep [c] with mode := .code }

def step (r : Reader) (c : Char) : Option Reader :=
  match r.mode with
  | .code => r.code c
  | .slash => if c = '/' then some { r with mode := .comment } else (r.keep ['/']).code c
  | .comment => if c = '\n' then some { r.keep [c] with mode := .code } else some r
  | .literal q =>
    if c = q then some { r with mode := .code }
    else if c = '\\' then some { r with mode := .escape q }
    else if c = '\n' then none
    else some r
  | .escape q => if c = '\n' then none else some { r with mode := .literal q }

/-- A text; there is no reader behind one that breaks a rule. -/
def read (r : Reader) : List Char → Option Reader
  | [] => some r
  | c :: cs => (r.step c).bind fun r => r.read cs

lemma read_append (r : Reader) (xs ys : List Char) : r.read (xs ++ ys) = (r.read xs).bind (·.read ys) := by
  induction xs generalizing r with
  | nil => rfl
  | cons x xs ih =>
    cases h : r.step x with
    | none => simp [read, h]
    | some r' => simp [read, h, ih]

end Reader

/-! ## Stretches -/

/-- Wherever the text stands in code, the reader comes through it with the same brackets open; outside of
all brackets it keeps what is shown. -/
def Stretch (text shown : List Char) : Prop :=
  ∀ awaited outside, Reader.read ⟨.code, awaited, outside⟩ text = some (Reader.keep ⟨.code, awaited, outside⟩ shown)

/-- The characters that are more than themselves in code. -/
def specials : List Char :=
  ['(', '[', '\x7b', ')', ']', '\x7d', '/', '"', '\'']

def isPlain (c : Char) : Bool :=
  c ∉ specials

namespace Stretch

variable {text shown text' shown' : List Char}

lemma nil : Stretch [] [] := by
  intro awaited outside
  simp [Reader.read, Reader.keep]

lemma append (h : Stretch text shown) (h' : Stretch text' shown') : Stretch (text ++ text') (shown ++ shown') := by
  intro awaited outside
  rw [Reader.read_append, h]
  by_cases hempty : awaited = []
  · simpa [Reader.keep, hempty] using h' [] (outside ++ shown)
  · simpa [Reader.keep, hempty] using h' awaited outside

lemma plain (h : text.all isPlain) : Stretch text text := by
  induction text with
  | nil => exact nil
  | cons c cs ih =>
    rw [all_cons, Bool.and_eq_true] at h
    have hone : Stretch [c] [c] := fun awaited outside => by
      have hplain := h.1
      simp only [isPlain, specials, mem_cons, not_mem_nil, or_false, not_or, decide_eq_true_eq] at hplain
      have hopens : closer? c = none := by simp [closer?, hplain]
      by_cases hempty : awaited = [] <;> simp [Reader.read, Reader.step, Reader.code, Reader.keep, hopens, hplain, hempty]
    exact hone.append (ih h.2)

lemma enclosed {o d : Char} (hd : closer? o = some d) (h : Stretch text shown) :
    Stretch (o :: (text ++ [d])) [o, d] := by
  intro awaited outside
  have hclose : closer? d = none ∧ d ≠ '/' ∧ ¬(d = '"' ∨ d = '\'') ∧ d ∈ [')', ']', '\x7d'] := by
    unfold closer? at hd
    split at hd <;> cases hd <;> decide
  have hopen : Reader.step ⟨.code, awaited, outside⟩ o =
      some ⟨.code, d :: awaited, (Reader.keep ⟨.code, awaited, outside⟩ [o]).outside⟩ := by
    simp [Reader.step, Reader.code, hd]
  rw [Reader.read, hopen, Option.bind_some, Reader.read_append, h]
  simp only [Reader.keep, reduceCtorEq, if_false, Option.bind_some, Reader.read, Reader.step, Reader.code, hclose]
  by_cases hempty : awaited = [] <;> simp [hempty]

lemma quoted {q : Char} (hq : q = '\'' ∨ q = '"') (cs : List Char) :
    Stretch (q :: (cs.flatMap (Text.escapeChar q) ++ [q])) [] := by
  intro awaited outside
  have hopen : Reader.step ⟨.code, awaited, outside⟩ q = some ⟨.literal q, awaited, outside⟩ := by
    rcases hq with rfl | rfl <;> rfl
  have hbody : Reader.read ⟨.literal q, awaited, outside⟩ (cs.flatMap (Text.escapeChar q)) =
      some ⟨.literal q, awaited, outside⟩ := by
    induction cs with
    | nil => rfl
    | cons c cs ih =>
      rw [flatMap_cons, Reader.read_append]
      rcases escapeChar_cases hq c with ⟨heq, hself, hslash, hline⟩ | ⟨d, heq, hline, -⟩
      · rw [heq]
        simpa [Reader.read, Reader.step, hself, hslash, hline] using ih
      · have hquote : '\\' ≠ q := by rcases hq with rfl | rfl <;> decide
        rw [heq]
        simpa [Reader.read, Reader.step, hquote, hline] using ih
  rw [Reader.read, hopen, Option.bind_some, Reader.read_append, hbody]
  simp [Reader.read, Reader.step, Reader.keep]

lemma comment (h : '\n' ∉ text) : Stretch ('/' :: '/' :: (text ++ ['\n'])) ['\n'] := by
  intro awaited outside
  have hbody : Reader.read ⟨.comment, awaited, outside⟩ text = some ⟨.comment, awaited, outside⟩ := by
    induction text with
    | nil => rfl
    | cons c cs ih =>
      obtain ⟨hc, hcs⟩ := ne_and_not_mem_of_not_mem_cons h
      simpa [Reader.read, Reader.step, hc.symm] using ih hcs
  have hstart : Reader.read ⟨.code, awaited, outside⟩ ['/', '/'] = some ⟨.comment, awaited, outside⟩ := by
    simp [Reader.read, Reader.step, Reader.code, closer?]
  rw [show '/' :: '/' :: (text ++ ['\n']) = ['/', '/'] ++ (text ++ ['\n']) from rfl, Reader.read_append, hstart,
    Option.bind_some, Reader.read_append, hbody]
  by_cases hempty : awaited = [] <;> simp [Reader.read, Reader.step, Reader.keep, hempty]

lemma division : Stretch " / ".toList " / ".toList := by
  intro awaited outside
  by_cases hempty : awaited = [] <;> simp [hempty, Reader.read, Reader.step, Reader.code, Reader.keep, closer?]

end Stretch

/-! ## Texts on one line -/

/-- Plain characters on one line. -/
def IsFlat (shown : List Char) : Prop :=
  shown.all isPlain = true ∧ '\n' ∉ shown

-- The codes are compared and not the characters, since numerals are what is compared fastest.
instance (shown : List Char) : Decidable (IsFlat shown) :=
  decidable_of_iff (shown.all fun c => ('\n' :: specials).all fun d => !Nat.beq c.toNat d.toNat) <| by
    have hcode (c d : Char) : (!Nat.beq c.toNat d.toNat) = true ↔ c ≠ d := by
      rw [Bool.not_eq_true', ← Bool.not_eq_true, Nat.beq_eq, Char.toNat_inj]
    simp only [IsFlat, isPlain, all_eq_true, hcode, decide_eq_true_iff]
    grind

variable {shown shown' : List Char}

lemma IsFlat.of_class {p : Char → Bool} (h : shown.all p)
    (hp : ('\n' :: specials).all (!p ·)) : IsFlat shown := by
  have hne : ∀ c ∈ shown, c ∉ '\n' :: specials := fun c hc hd => by
    have hc' := all_eq_true.mp hp c hd
    simp [all_eq_true.mp h c hc] at hc'
  refine ⟨all_eq_true.mpr fun c hc => ?_, fun hline => hne _ hline mem_cons_self⟩
  exact decide_eq_true fun hd => hne c hc (mem_cons_of_mem _ hd)

lemma IsFlat.append {xs ys : List Char} (hx : IsFlat xs) (hy : IsFlat ys) : IsFlat (xs ++ ys) :=
  ⟨by rw [all_append, hx.1, hy.1]; rfl, by simp [hx.2, hy.2]⟩

/-- A text that can stand in a line of code without showing any brackets. -/
def Flat (text : String) : Prop :=
  ∃ shown, Stretch text.toList shown ∧ IsFlat shown

/-- A text that can stand in a line of code. -/
def Inline (text : String) : Prop :=
  ∃ shown, Stretch text.toList shown ∧ '\n' ∉ shown

namespace Flat

variable {text text' : String}

lemma inline (h : Flat text) : Inline text :=
  h.imp fun _ hs => ⟨hs.1, hs.2.2⟩

lemma append (h : Flat text) (h' : Flat text') : Flat (text ++ text') := by
  obtain ⟨shown, hs, hflat⟩ := h
  obtain ⟨shown', hs', hflat'⟩ := h'
  exact ⟨shown ++ shown', String.toList_append ▸ hs.append hs', hflat.append hflat'⟩

lemma of_isFlat (h : IsFlat text.toList) : Flat text :=
  ⟨_, .plain h.1, h⟩

lemma plain {cs : List Char} (h : decide (IsFlat cs) = true) : Flat (.ofList cs) :=
  .of_isFlat (String.toList_ofList ▸ of_decide_eq_true h)

lemma of_class {p : Char → Bool} (h : text.toList.all p)
    (hp : ('\n' :: specials).all (!p ·)) : Flat text :=
  .of_isFlat (.of_class h hp)

lemma quoted {q : Char} (hq : q = '\'' ∨ q = '"') (cs : List Char)
    (h : text.toList = q :: (cs.flatMap (Text.escapeChar q) ++ [q])) : Flat text :=
  ⟨[], h ▸ .quoted hq cs, by decide⟩

end Flat

namespace Inline

variable {text text' : String}

lemma plain {cs : List Char} (h : decide (IsFlat cs) = true) : Inline (.ofList cs) :=
  (Flat.plain h).inline

lemma append (h : Inline text) (h' : Inline text') : Inline (text ++ text') := by
  obtain ⟨shown, hs, hline⟩ := h
  obtain ⟨shown', hs', hline'⟩ := h'
  exact ⟨shown ++ shown', String.toList_append ▸ hs.append hs', by simp [hline, hline']⟩

lemma paren (h : Inline text) : Inline ("(" ++ text ++ ")") := by
  obtain ⟨shown, hs, -⟩ := h
  exact ⟨['(', ')'], by simpa using hs.enclosed (o := '(') rfl, by decide⟩

lemma bracket (h : Inline text) : Inline ("[" ++ text ++ "]") := by
  obtain ⟨shown, hs, -⟩ := h
  exact ⟨['[', ']'], by simpa using hs.enclosed (o := '[') rfl, by decide⟩

lemma brace (h : Inline text) : Inline ("\x7b " ++ text ++ " \x7d") := by
  obtain ⟨shown, hs, -⟩ := h
  have hspace : Stretch [' '] [' '] := .plain (by decide)
  exact ⟨['\x7b', '\x7d'], by simpa using ((hspace.append hs).append hspace).enclosed (o := '\x7b') rfl, by decide⟩

lemma cast (h : Inline text) (heq : text'.toList = text.toList) : Inline text' :=
  String.toList_injective heq ▸ h

lemma around {o c h t : String} (front back : String) (hx : Inline (o ++ text ++ c)) (hh : h = front ++ o := by rfl)
    (ht : t = c ++ back := by rfl) (hfront : Inline front := by exact .plain rfl)
    (hback : Inline back := by exact .plain rfl) : Inline (h ++ text ++ t) := by
  subst hh ht
  simpa only [String.append_assoc] using (hfront.append hx).append hback

lemma join (h : ∀ t ∈ texts, Inline t) : Inline (.join texts) := by
  induction texts with
  | nil => exact .plain rfl
  | cons t texts ih =>
    obtain ⟨ht, hts⟩ := forall_mem_cons.mp h
    rw [String.join_cons]
    exact ht.append (ih hts)

lemma intercalate {sep : String} (hsep : Inline sep) (h : ∀ t ∈ texts, Inline t) :
    Inline (sep.intercalate texts) := by
  induction texts with
  | nil => exact String.intercalate_nil ▸ .plain rfl
  | cons t texts ih =>
    obtain ⟨ht, hts⟩ := forall_mem_cons.mp h
    cases texts with
    | nil => simpa using ht
    | cons t' texts =>
      rw [String.intercalate_cons_cons]
      exact (ht.append hsep).append (ih hts)

end Inline

/-! ## Lines -/

/-- The lines as one text, each with its end. -/
def rows (indent : String) (ls : List C.Line) : List Char :=
  ls.flatMap fun l => (l.render indent).toList ++ ['\n']

lemma toList_render_concat (indent : String) (ls : List C.Line) (l : C.Line) :
    (C.render indent (ls ++ [l])).toList = rows indent ls ++ (l.render indent).toList := by
  unfold C.render
  induction ls with
  | nil => simp [rows]
  | cons k ls ih =>
    rw [cons_append, map_cons]
    cases hrest : (ls ++ [l]).map (render indent) with
    | nil => simp at hrest
    | cons t ts =>
      rw [String.intercalate_cons_cons, ← hrest, String.toList_append, ih]
      simp [rows]

/-- Whatever the indentation, a reader comes through the lines; what is shown of them is good. -/
def Lines (P : List Char → Prop) (ls : List C.Line) : Prop :=
  ∀ n, ∃ shown, Stretch (rows (String.ofList (List.replicate n ' ')) ls) shown ∧ P shown

lemma flat_margin (n d : Nat) : Flat (.join (.replicate d (.ofList (.replicate n ' ')))) := by
  refine .of_class (p := (· == ' ')) ?_ (by decide)
  simp

namespace Lines

variable {P Q R : List Char → Prop} {ls ls' : List C.Line}

lemma mono (h : Lines P ls) (hPQ : ∀ s, P s → Q s) : Lines Q ls :=
  fun n => (h n).imp fun _ hs => ⟨hs.1, hPQ _ hs.2⟩

lemma nil (h : P []) : Lines P [] :=
  fun _ => ⟨[], .nil, h⟩

lemma append (h : Lines P ls) (h' : Lines Q ls') (hR : ∀ s s', P s → Q s' → R (s ++ s')) : Lines R (ls ++ ls') := by
  intro n
  obtain ⟨s, hs, hP⟩ := h n
  obtain ⟨s', hs', hQ⟩ := h' n
  exact ⟨s ++ s', by simpa [rows] using hs.append hs', hR s s' hP hQ⟩

lemma flatMap (h : ∀ a ∈ as, Lines P (f a)) (hnil : P [])
    (happend : ∀ s s', P s → P s' → P (s ++ s')) : Lines P (as.flatMap f) := by
  induction as with
  | nil => exact nil hnil
  | cons a as ih =>
    obtain ⟨ha, has⟩ := forall_mem_cons.mp h
    exact ha.append (ih has) happend

lemma line {d : Nat} {text : String} (h : Stretch text.toList shown)
    (hP : ∀ margin, IsFlat margin → P (margin ++ shown ++ ['\n'])) : Lines P [⟨d, text⟩] := by
  intro n
  obtain ⟨margin, hmargin, hflat⟩ := flat_margin n d
  have hend : Stretch ['\n'] ['\n'] := .plain (by decide)
  exact ⟨_, by simpa [rows, render] using (hmargin.append h).append hend, hP margin hflat⟩

lemma block {d d' : Nat} {first last head tail : String} (hhead : Stretch head.toList shown) (h : Lines Q ls) (htail : Stretch tail.toList shown')
    (hP : ∀ margin, IsFlat margin → P (margin ++ shown ++ ['\x7b', '\x7d'] ++ shown' ++ ['\n']))
    (hfirst : first.toList = head.toList ++ ['\x7b']) (hlast : last.toList = '\x7d' :: tail.toList) :
    Lines P (⟨d, first⟩ :: ls ++ [⟨d', last⟩]) := by
  intro n
  obtain ⟨margin, hmargin, hflat⟩ := flat_margin n d
  obtain ⟨margin', hmargin', -⟩ := flat_margin n d'
  obtain ⟨inner, hinner, -⟩ := h n
  have hend : Stretch ['\n'] ['\n'] := .plain (by decide)
  have hbraces := ((hend.append hinner).append hmargin').enclosed (o := '\x7b') rfl
  have hall := (((hmargin.append hhead).append hbraces).append htail).append hend
  exact ⟨_, by simpa [rows, render, hfirst, hlast] using hall, hP margin hflat⟩

end Lines

def Whole : List C.Line → Prop :=
  Lines fun _ => True

namespace Whole

variable {ls ls' : List C.Line} {d : Nat} {first last head tail text : String}

lemma append (h : Whole ls) (h' : Whole ls') : Whole (ls ++ ls') :=
  Lines.append h h' fun _ _ _ _ => trivial

lemma flatMap (h : ∀ a ∈ as, Whole (f a)) : Whole (as.flatMap f) :=
  Lines.flatMap h trivial fun _ _ _ _ => trivial

lemma each (h : ∀ l ∈ ls, Whole [l]) : Whole ls := by
  rw [← map_id ls, map_eq_flatMap]
  exact .flatMap h

lemma line (h : Inline text) : Whole [⟨d, text⟩] := by
  obtain ⟨shown, hs, -⟩ := h
  exact Lines.line hs fun _ _ => trivial

lemma block (hhead : Inline head) (h : Whole ls) (htail : Inline tail)
    (hfirst : first.toList = head.toList ++ ['\x7b'] := by simp)
    (hlast : last.toList = '\x7d' :: tail.toList := by simp) : Whole (⟨d, first⟩ :: ls ++ [⟨d, last⟩]) := by
  obtain ⟨shown, hs, -⟩ := hhead
  obtain ⟨shown', hs', -⟩ := htail
  exact Lines.block hs h hs' (fun _ _ => trivial) hfirst hlast

lemma choice (hhead : Inline head) (h : Whole ls) (h' : Whole ls')
    (hfirst : first.toList = head.toList ++ ['\x7b'] := by simp) :
    Whole (⟨d, first⟩ :: ls ++ ⟨d, "\x7d else \x7b"⟩ :: ls' ++ [⟨d, "\x7d"⟩]) := by
  intro n
  obtain ⟨margin, hmargin, -⟩ := flat_margin n d
  obtain ⟨shown, hs, -⟩ := hhead
  obtain ⟨yes, hyes, -⟩ := h n
  obtain ⟨no, hno, -⟩ := h' n
  have hend : Stretch ['\n'] ['\n'] := .plain (by decide)
  have helse : Stretch " else ".toList " else ".toList := .plain (by decide)
  have hyes := ((hend.append hyes).append hmargin).enclosed (o := '\x7b') rfl
  have hno := ((hend.append hno).append hmargin).enclosed (o := '\x7b') rfl
  have hall := ((((hmargin.append hs).append hyes).append helse).append hno).append hend
  exact ⟨_, by simpa [rows, render, hfirst] using hall, trivial⟩

end Whole

/-! ## Functions -/

/-- The name of the function that a line defines; the line is given from its end. -/
def nameOf? : List Char → Option String
  | '\x7d' :: '\x7b' :: ' ' :: ')' :: '(' :: rest =>
    some (String.ofList (rest.takeWhile isWordChar).reverse)
  | _ => none

/-- The functions that lines define, the first of which has begun. -/
def functionsFrom (line : List Char) : List Char → List String
  | [] => (nameOf? line).toList
  | c :: cs => if c = '\n' then (nameOf? line).toList ++ functionsFrom [] cs else functionsFrom (c :: line) cs

/-- The functions that a C text defines: outside of all brackets there are lines such as `int f() {}`. -/
def functions (text : String) : List String :=
  ((Reader.read {} text.toList).map fun r => functionsFrom [] r.outside).getD []

/-- The text is whole lines that define these functions. -/
def Defines (names : List String) (shown : List Char) : Prop :=
  ∀ rest, functionsFrom [] (shown ++ rest) = names ++ functionsFrom [] rest

namespace Defines

lemma append {names' : List String} (h : Defines names shown)
    (h' : Defines names' shown') : Defines (names ++ names') (shown ++ shown') := by
  intro rest
  rw [append_assoc, h, h', append_assoc]

lemma line {shown : List Char} (h : '\n' ∉ shown) : Defines (nameOf? shown.reverse).toList (shown ++ ['\n']) := by
  intro rest
  have hfrom (line : List Char) : functionsFrom line (shown ++ '\n' :: rest) =
      (nameOf? (shown.reverse ++ line)).toList ++ functionsFrom [] rest := by
    induction shown generalizing line with
    | nil => simp [functionsFrom]
    | cons c cs ih =>
      obtain ⟨hc, hcs⟩ := ne_and_not_mem_of_not_mem_cons h
      simp [functionsFrom, hc.symm, ih hcs]
  simpa using hfrom []

lemma none {shown : List Char} (h : '\n' ∉ shown) (hend : shown.getLast? ≠ some '\x7d') :
    Defines [] (shown ++ ['\n']) := by
  have hname : nameOf? shown.reverse = .none := by
    unfold nameOf?
    split
    · rename_i rest heq
      exact absurd (by rw [← head?_reverse, heq]; rfl) hend
    · rfl
  simpa [hname] using Defines.line h

lemma function {name : String} {front : List Char} (hname : name.toList.all isWordChar)
    (hfront : '\n' ∉ front) : Defines [name] (front ++ ' ' :: (name.toList ++ "() \x7b\x7d".toList) ++ ['\n']) := by
  have hnone : '\n' ∉ name.toList := (IsFlat.of_class hname rfl).2
  have hword : name.toList.reverse.all isWordChar := by rwa [all_reverse]
  have hline := Defines.line (show '\n' ∉ front ++ ' ' :: (name.toList ++ "() \x7b\x7d".toList) by
    simp [hfront, hnone])
  have htake : (name.toList.reverse ++ ' ' :: front.reverse).takeWhile isWordChar = name.toList.reverse :=
    Text.takeWhile_append_stop hword (by simpa using by decide)
  simpa [nameOf?, htake] using hline

end Defines

def Silent : List C.Line → Prop :=
  Lines (Defines [])

namespace Silent

variable {ls ls' : List C.Line} {d : Nat} {text : String}

lemma whole (h : Silent ls) : Whole ls :=
  h.mono fun _ _ => trivial

lemma append (h : Silent ls) (h' : Silent ls') : Silent (ls ++ ls') :=
  Lines.append h h' fun _ _ hs hs' => hs.append hs'

lemma flatMap (h : ∀ a ∈ as, Silent (f a)) : Silent (as.flatMap f) :=
  Lines.flatMap h (fun _ => rfl) fun _ _ hs hs' => hs.append hs'

lemma each (h : ∀ l ∈ ls, Silent [l]) : Silent ls := by
  rw [← map_id ls, map_eq_flatMap]
  exact .flatMap h

lemma flatten {lss : List (List C.Line)} (h : ∀ ls ∈ lss, Silent ls) : Silent lss.flatten := by
  rw [← flatMap_id]
  exact .flatMap h

lemma statement (h : Inline text) : Silent [⟨d, text ++ ";"⟩] := by
  obtain ⟨shown, hs, hline⟩ := h
  have hsemicolon : Stretch ";".toList [';'] := .plain (by decide)
  refine .line (String.toList_append ▸ hs.append hsemicolon) fun margin hmargin => ?_
  exact .none (by simp [hline, hmargin.2]) (by simp)

lemma flat (h : Flat text) : Silent [⟨d, text⟩] := by
  obtain ⟨shown, hs, hflat⟩ := h
  refine .line hs fun margin hmargin => ?_
  have hall := hmargin.append hflat
  refine .none hall.2 fun hlast => ?_
  exact absurd (all_eq_true.mp hall.1 _ (mem_of_getLast? hlast)) (by decide)

lemma comment {rest : String} (h : '\n' ∉ rest.toList)
    (htext : text.toList = '/' :: '/' :: rest.toList) : Silent [⟨0, text⟩] := by
  have hempty : Defines [] ([] ++ ['\n']) := .none (by decide) (by decide)
  exact fun _ => ⟨['\n'], by simpa [rows, render, htext] using .comment h, hempty⟩

lemma block {first last head tail : String} (hhead : Inline head) (h : Whole ls) (htail : Inline tail)
    (hfirst : first.toList = head.toList ++ ['\x7b'] := by simp)
    (hlast : last.toList = '\x7d' :: (tail ++ ";").toList := by simp) :
    Silent (⟨d, first⟩ :: ls ++ [⟨d, last⟩]) := by
  obtain ⟨shown, hs, hline⟩ := hhead
  obtain ⟨shown', hs', hline'⟩ := htail
  have hsemicolon : Stretch ";".toList [';'] := .plain (by decide)
  refine Lines.block hs h (String.toList_append ▸ hs'.append hsemicolon) (fun margin hmargin => ?_) hfirst hlast
  exact .none (by simp [hline, hline', hmargin.2]) (by simp [getLast?_append, getLast?_cons])

end Silent

/-- A text that ends in the main function, without the end of its last line. -/
lemma functions_render {front body : List C.Line} (n : Nat)
    (hfront : Lines (Defines names) front) (hbody : Whole body) :
    ∃ shown, Stretch (C.render (.ofList (.replicate n ' '))
        (front ++ ⟨0, "int main(void) \x7b"⟩ :: body ++ [⟨0, "\x7d"⟩])).toList shown ∧
      functionsFrom [] shown = names ++ ["main"] := by
  obtain ⟨shown, hshown, hnames⟩ := hfront n
  obtain ⟨_, hinner, -⟩ := hbody n
  have hend : Stretch ['\n'] ['\n'] := .plain (by decide)
  have hmain : Stretch "int main".toList "int main".toList := .plain (by decide)
  have hvoid : Stretch "void".toList "void".toList := .plain (by decide)
  have hspace : Stretch [' '] [' '] := .plain (by decide)
  have hhead := (hmain.append (hvoid.enclosed (o := '(') rfl)).append hspace
  have hall := hshown.append (hhead.append ((hend.append hinner).enclosed (o := '\x7b') rfl))
  refine ⟨_, ?_, hnames "int main() \x7b\x7d".toList⟩
  rw [toList_render_concat]
  simpa [rows, render] using hall

end AlgoLang.CText
