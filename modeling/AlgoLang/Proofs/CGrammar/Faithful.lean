/-
# Which expressions C reads as they are meant

C reads the text of an expression as its tree if and only if the expression is fit.  A fit expression has a
derivation that follows its parts.  Conversely, what a tree is written with stands in every text that is read
as the tree: a step, a reserved word or a number too large would have to be in both or in neither.
-/
import AlgoLang.Proofs.CGrammar.Emitted
import AlgoLang.Proofs.CGrammar.Unambiguous

namespace AlgoLang.CGrammar

open Terminal Tree DerivesArguments Binary64 List Level
open Bool (and_eq_true_iff)

variable {e : Expr} {ts : List Terminal} {k k' : Level} {n : Nat} {A T B : Tree} {args es is : List Expr}
  {op : BinaryOp} {p w : String}

variable {routines : List String}
variable {t : Terminal}

/-! ## What a tree is written with -/

mutual

/-- The terminals that a tree is written with, without the brackets and commas around its parts. -/
def Tree.ink : Tree → List Terminal
  | .name w => [.name w]
  | .constant c => [.constant c]
  | .binary p A B => A.ink ++ .sign p :: B.ink
  | .assign p A B => A.ink ++ .sign p :: B.ink
  | .conditional C A B => C.ink ++ .sign "?" :: (A.ink ++ .sign ":" :: B.ink)
  | .cast type A => type ++ A.ink
  | .unary p A => .sign p :: A.ink
  | .stepBefore p A => .sign p :: A.ink
  | .stepBehind p A => A.ink ++ [.sign p]
  | .size A => .keyword "sizeof" :: A.ink
  | .sizeOfType type => .keyword "sizeof" :: type
  | .index A I => A.ink ++ I.ink
  | .call F args => F.ink ++ inkEach args
  | .member p A f => A.ink ++ [.sign p, .name f]

def inkEach : List Tree → List Terminal
  | [] => []
  | T :: Ts => T.ink ++ inkEach Ts

end

/-- The terminals that a tree does not keep. -/
def brackets : List Terminal :=
  [.sign "(", .sign ")", .sign "[", .sign "]", .sign ","]

section

variable {t : Terminal}

mutual

lemma Derives.mem_ink {k ts T} (ht : t ∉ brackets) : Derives k ts T → (t ∈ ts ↔ t ∈ T.ink)
  | .tighten _ h => h.mem_ink ht
  | .binary _ _ hA hB => by simp [ink, hA.mem_ink ht, hB.mem_ink ht]
  | .assign _ hA hB => by simp [ink, hA.mem_ink ht, hB.mem_ink ht]
  | .conditional hC hA hB => by simp [ink, hC.mem_ink ht, hA.mem_ink ht, hB.mem_ink ht]
  | .cast _ h => by simp_all [ink, brackets, h.mem_ink ht]
  | .sign _ h => by simp [ink, h.mem_ink ht]
  | .stepBefore _ h => by simp [ink, h.mem_ink ht]
  | .size h => by simp [ink, h.mem_ink ht]
  | .sizeOfType _ => by simp_all [ink, brackets]
  | .index hA hI => by simp_all [ink, brackets, hA.mem_ink ht, hI.mem_ink ht]
  | .call hF hargs => by simp_all [ink, brackets, hF.mem_ink ht, hargs.mem_ink ht]
  | .member _ hA => by simp [ink, hA.mem_ink ht]
  | .stepBehind _ hA => by simp [ink, hA.mem_ink ht]
  | .paren h => by simp_all [brackets, h.mem_ink ht]
  | .name => by simp [ink]
  | .constant => by simp [ink]

lemma DerivesArguments.mem_ink {ts Ts} (ht : t ∉ brackets) : DerivesArguments ts Ts → (t ∈ ts ↔ t ∈ inkEach Ts)
  | .none => by simp [inkEach]
  | .one h => by simp [inkEach, h.mem_ink ht]
  | .more h hs => by simp_all [inkEach, brackets, h.mem_ink ht, hs.mem_ink ht]

end

end

lemma ink_foldl_index (A : Tree) (Is : List Tree) : (Is.foldl .index A).ink = A.ink ++ inkEach Is := by
  induction Is generalizing A with
  | nil => simp [inkEach]
  | cons I Is ih => rw [foldl_cons, ih, ink, inkEach, append_assoc]

lemma calm_operation (op : BinaryOp) (hA : Calm A.ink) (hB : Calm B.ink) : Calm (operation op A B).ink := by
  cases op
  case pow =>
    simp only [operation, ink, inkEach, append_nil, calm_append, calm_cons]
    exact ⟨⟨rfl, nofun⟩, hA, hB⟩
  all_goals exact calm_append.mpr ⟨hA, calm_cons.mpr ⟨by decide, hB⟩⟩

mutual

lemma calm_image : (e : Expr) → Calm (image routines e).ink
  | .integer .. | .real .. | .boolean .. | .char .. | .string .. | .name .. | .unknown _ | .missing => by
    simp [image, ink, Calm, isCalm]
  | .binary _ op l r => calm_operation op (calm_image l) (calm_image r)
  | .unary _ .neg e => calm_cons.mpr ⟨by decide, calm_image e⟩
  | .unary _ .not e => calm_cons.mpr ⟨by decide, calm_image e⟩
  | .paren _ e => calm_image e
  | .index _ a is => by
    rw [image, ink_foldl_index]
    exact calm_append.mpr ⟨calm_image a, calm_images is⟩
  | .field _ o f => calm_append.mpr ⟨calm_image o, by simp [Calm, isCalm, steps, assignments]⟩
  | .call _ n args => calm_cons.mpr ⟨rfl, calm_images args⟩

lemma calm_images : (es : List Expr) → Calm (inkEach (images routines es))
  | [] => by simp [images, inkEach, Calm]
  | e :: es => calm_append.mpr ⟨calm_image e, calm_images es⟩

end

/-! ## Fit expressions are derived -/

lemma Level.rank_injective (h : k.rank = k'.rank) : k = k' := by
  have hall (k : Level) : [comma, .assignment, .conditional, .disjunction, .conjunction, .bitOr,
      .bitXor, .bitAnd, .equality, .relation, .shift, .sum, .product, .cast, .unary, .suffixed,
      .primary][k.rank]? = some k := by cases k <;> rfl
  exact Option.some.inj ((hall k).symm.trans (h ▸ hall k'))

lemma Derives.loosen (h : Derives k' ts T) (hk : k.rank ≤ k'.rank) : Derives k ts T := by
  induction hd : k'.rank - k.rank generalizing k with
  | zero =>
    obtain rfl : k = k' := rank_injective (by omega)
    exact h
  | succ d ih =>
    cases htight : k.tighter with
    | none =>
      obtain rfl : k = .primary := by cases k <;> first | rfl | cases htight
      have : k'.rank ≤ primary.rank := by cases k' <;> decide
      omega
    | some k'' =>
      have := rank_tighter htight
      exact .tighten htight (ih (by omega) (by omega))

/-- The level that the text of an expression is derived at. -/
def levelOf : Expr → Level
  | .unary .. => .unary
  | _ => .suffixed

lemma levelOf_access (h : isAccess e) : levelOf e = .suffixed := by
  cases e <;> first | rfl | cases h

lemma isNegation_access (h : isAccess e) : isNegation e = false := by
  cases e <;> first | rfl | cases h

lemma IsWord.ofWord (hw : IsWord w) (hkeyword : w ∉ keywords) : Terminal.ofWord w = .name w := by
  simp [Terminal.ofWord, hkeyword, hw.not_true, hw.not_false]

lemma areFit_iff : areFit routines es ↔ ∀ e ∈ es, isFit routines e := by
  induction es with
  | nil => simp [areFit]
  | cons e es ih => simp [areFit, ih]

/-- A minus sign before an expression that has none in front stays a sign of its own. -/
lemma Spelled.terminals_eq (h : Spelled e) (hneg : isNegation e = false) (n : Nat) :
    terminals routines n e = minuses n ++ terminals routines 0 e := by
  induction h with
  | real hx => cases hx <;> rfl
  | @binary _ op _ _ _ _ => cases hop : op.inC <;> simp [terminals, hop, minuses]
  | @unary _ op _ _ _ =>
    cases op with
    | neg => cases hneg
    | not => rfl
  | index haccess _ _ ih => simp [terminals, ih (isNegation_access haccess)]
  | field haccess _ _ ih => simp [terminals, ih (isNegation_access haccess)]
  | _ => rfl

lemma inC_operation (h : op.inC = some p) :
    ∃ k k' : Level, k.tighter = some k' ∧ p ∈ k.operators ∧ k'.rank ≤ unary.rank ∧ operation op = .binary p := by
  cases op with
  | pow => cases h
  | add | sub => cases h; exact ⟨.sum, .product, rfl, by decide, by decide, rfl⟩
  | mul | div | intDiv | mod => cases h; exact ⟨.product, .cast, rfl, by decide, by decide, rfl⟩
  | eq | ne => cases h; exact ⟨.equality, .relation, rfl, by decide, by decide, rfl⟩
  | lt | gt | le | ge => cases h; exact ⟨.relation, .shift, rfl, by decide, by decide, rfl⟩
  | and => cases h; exact ⟨.conjunction, .bitOr, rfl, by decide, by decide, rfl⟩
  | or => cases h; exact ⟨.disjunction, .conjunction, rfl, by decide, by decide, rfl⟩

lemma derives_indices (his : ∀ i ∈ is, Derives .comma (terminals routines 0 i) (image routines i))
    (hA : Derives .suffixed ts A) : Derives .suffixed
      (ts ++ (terminalsEach routines is).flatMap fun us => .sign "[" :: (us ++ [.sign "]"]))
      ((images routines is).foldl .index A) := by
  induction is generalizing ts A with
  | nil => simpa [terminalsEach, images] using hA
  | cons i is ih =>
    have hindex := hA.index (his i mem_cons_self)
    have hrest := ih (fun j hj => his j (mem_cons_of_mem i hj)) hindex
    simpa [terminalsEach, images] using hrest

lemma derives_arguments (hargs : ∀ a ∈ args, Derives .assignment (terminals routines 0 a) (image routines a)) :
    DerivesArguments ([sign ","].intercalate (terminalsEach routines args)) (images routines args) := by
  induction args with
  | nil => exact .none
  | cons a args ih =>
    have ha := hargs a mem_cons_self
    cases args with
    | nil => simpa [terminalsEach, images] using one ha
    | cons b args =>
      have hmore := ih fun c hc => hargs c (mem_cons_of_mem a hc)
      simpa [terminalsEach, images] using more ha hmore

lemma Derives.operand (h : Derives (levelOf e) ts T) (hk : k.rank ≤ unary.rank) : Derives k ts T :=
  h.loosen (hk.trans (by cases e <;> simp [levelOf, rank]))

/-- The text of a fit expression is read as its tree. -/
lemma Spelled.derives (h : Spelled e) (hfit : isFit routines e) :
    Derives (levelOf e) (terminals routines 0 e) (image routines e) := by
  induction h with
  | integer => exact .tighten rfl .constant
  | real hx =>
    cases hx with
    | finite _ _ => exact .tighten rfl .constant
    | infinite _ => cases hfit
  | boolean => exact .tighten rfl .constant
  | char => exact .tighten rfl .constant
  | string => exact .tighten rfl .constant
  | name hn =>
    have hname := hn.ofWord (by simpa [isFit] using hfit)
    rw [terminals, hname]
    exact .tighten rfl .name
  | @binary s op l r _ _ ihl ihr =>
    obtain ⟨hl, hr⟩ := and_eq_true_iff.mp hfit
    cases hop : op.inC with
    | some p =>
      obtain ⟨k, k', hk, hp, hrank, hoperation⟩ := inC_operation hop
      have := rank_tighter hk
      have hinner := Derives.binary hk hp ((ihl hl).operand (by omega)) ((ihr hr).operand hrank)
      have hparen := Derives.paren (hinner.loosen (k := .comma) (Nat.zero_le _))
      rw [terminals, hop, image, hoperation]
      simpa [minuses, levelOf] using Derives.tighten (k := .suffixed) rfl hparen
    | none =>
      obtain rfl : op = .pow := by cases op <;> first | rfl | cases hop
      have hargs := more ((ihl hl).operand (k := .assignment) (by decide)) (.one ((ihr hr).operand (by decide)))
      have hcall := Derives.call (.tighten rfl (.name (w := "pow"))) hargs
      simpa [terminals, minuses, BinaryOp.inC, levelOf, image, operation] using hcall
  | @unary s op e he ih =>
    cases op with
    | neg =>
      obtain ⟨hneg, hfit⟩ := and_eq_true_iff.mp hfit
      rw [terminals, he.terminals_eq (by simpa using hneg)]
      exact .sign (by decide) ((ih hfit).operand (by decide))
    | not => exact .sign (by decide) ((ih hfit).operand (by decide))
  | paren _ ih => exact .tighten rfl (.paren ((ih hfit).operand (Nat.zero_le _)))
  | index haccess _ _ iha ihis =>
    obtain ⟨ha, his⟩ := and_eq_true_iff.mp hfit
    have hbase := iha ha
    rw [levelOf_access haccess] at hbase
    exact derives_indices (fun i hi => (ihis i hi (areFit_iff.mp his i hi)).operand (Nat.zero_le _)) hbase
  | @field s o f haccess _ hf ih =>
    obtain ⟨ho, hkeyword⟩ := and_eq_true_iff.mp hfit
    have hbase := ih ho
    rw [levelOf_access haccess] at hbase
    rw [terminals, hf.ofWord (by simpa using hkeyword)]
    exact .member (by decide) hbase
  | @call s n args hn _ ih =>
    obtain ⟨hkeyword, hargs⟩ := and_eq_true_iff.mp hfit
    have harguments := derives_arguments fun a ha => (ih a ha (areFit_iff.mp hargs a ha)).operand (by decide)
    rw [terminals, hn.callee.ofWord (by simpa using hkeyword)]
    exact .call (.tighten rfl .name) harguments

/-! ## Other expressions are not -/

/-- The constant that no text in C stands for. -/
def boundless : Terminal :=
  .constant (.floating (.infinite false))

lemma le_one_of_calm (h : Calm (minuses n)) : n ≤ 1 := by
  match n with
  | 0 | 1 => omega
  | n + 2 =>
    have := (calm_cons.mp h).1
    exact absurd this (by decide)

@[simp] lemma boundless_eq_constant {c : Constant} : boundless = .constant c ↔ c = .floating (.infinite false) := by
  simp [boundless, eq_comm]

@[simp] lemma boundless_ne_sign : boundless ≠ .sign p := by
  simp [boundless]

@[simp] lemma boundless_ne_name : boundless ≠ .name w := by
  simp [boundless]

@[simp] lemma boundless_notMem_minuses : (n : Nat) → boundless ∉ minuses n
  | 0 | 1 => by simp [minuses]
  | n + 2 => by simpa [minuses] using boundless_notMem_minuses n

lemma ofWord_cases (w : String) : w ∈ keywords ∧ Terminal.ofWord w = .keyword w ∨
      w ∉ keywords ∧ (Terminal.ofWord w = .name w ∨ ∃ b, Terminal.ofWord w = .constant (.truth b)) := by
  unfold Terminal.ofWord
  split_ifs with hkeyword htrue hfalse
  · exact .inl ⟨hkeyword, rfl⟩
  · exact .inr ⟨hkeyword, .inr ⟨true, rfl⟩⟩
  · exact .inr ⟨hkeyword, .inr ⟨false, rfl⟩⟩
  · exact .inr ⟨hkeyword, .inl rfl⟩

lemma notMem_keywords (h : (Terminal.ofWord w).isCalm) : w ∉ keywords := by
  rcases ofWord_cases w with ⟨-, heq⟩ | ⟨hw, -⟩
  · rw [heq] at h
    cases h
  · exact hw

@[simp] lemma boundless_ne_ofWord (w : String) : boundless ≠ .ofWord w := by
  rcases ofWord_cases w with ⟨-, heq⟩ | ⟨-, heq | ⟨b, heq⟩⟩ <;> simp [heq, boundless]

lemma mem_indices (ht : t ∉ brackets) :
    t ∈ (terminalsEach routines is).flatMap (fun ts => .sign "[" :: (ts ++ [.sign "]"])) ↔
      ∃ i ∈ is, t ∈ terminals routines 0 i := by
  have hopen : t ≠ .sign "[" := fun h => ht (by simp [brackets, h])
  have hclose : t ≠ .sign "]" := fun h => ht (by simp [brackets, h])
  induction is with
  | nil => simp [terminalsEach]
  | cons i is ih => simp [terminalsEach, ih, hopen, hclose]

lemma mem_arguments (ht : t ∉ brackets) : t ∈ [sign ","].intercalate (terminalsEach routines args) ↔
      ∃ a ∈ args, t ∈ terminals routines 0 a := by
  have hcomma : t ≠ .sign "," := fun h => ht (by simp [brackets, h])
  induction args with
  | nil => simp [terminalsEach]
  | cons a args ih =>
    cases args with
    | nil => simp [terminalsEach]
    | cons b args =>
      have hfirst : [sign ","].intercalate (terminalsEach routines (a :: b :: args)) =
          terminals routines 0 a ++ [.sign ","] ++ [sign ","].intercalate (terminalsEach routines (b :: args)) :=
        intercalate_cons_cons
      simp [hfirst, ih, hcomma]

lemma calm_of_notMem_brackets (h : ∀ t ∈ ts, t ∉ brackets → t.isCalm) : Calm ts := by
  have hbracket : ∀ t ∈ brackets, t.isCalm := by decide
  intro t ht
  by_cases hmem : t ∈ brackets
  · exact hbracket t hmem
  · exact h t ht hmem

lemma Spelled.boundless_notMem (h : Spelled e) : boundless ∉ terminals routines n e := by
  have hbrackets : boundless ∉ brackets := by decide
  induction h generalizing n with
  | real hx => cases hx <;> simp [terminals]
  | @binary _ op _ _ _ _ ihl ihr => cases hop : op.inC <;> simp [terminals, hop, ihl, ihr]
  | @unary _ op _ _ ih => cases op <;> simp [terminals, ih]
  | paren _ ih => simp [terminals, ih]
  | index _ _ _ iha ihis =>
    rw [terminals, mem_append, mem_indices hbrackets]
    rintro (hmem | ⟨i, hi, hmem⟩)
    · exact iha hmem
    · exact ihis i hi hmem
  | field _ _ _ ih => simp [terminals, ih]
  | call _ _ ih =>
    have hargs := (mem_arguments hbrackets).not.mpr fun h => h.elim fun a ha => ih a ha.1 ha.2
    simp [terminals, hargs]
  | _ => simp [terminals]

lemma calm_binary {s : Option Span} {l r : Expr} (h : Calm (terminals routines n (.binary s op l r))) :
    Calm (minuses n) ∧ Calm (terminals routines 0 l) ∧ Calm (terminals routines 0 r) := by
  cases hop : op.inC with
  | some p =>
    simp only [terminals, hop, calm_append, calm_cons] at h
    exact ⟨h.1, h.2.2.1, h.2.2.2.2.1⟩
  | none =>
    simp only [terminals, hop, calm_append, calm_cons] at h
    exact ⟨h.1, h.2.2.2.1, h.2.2.2.2.2.1⟩

lemma mem_ink_operation (op : BinaryOp) (h : t ∈ A.ink ∨ t ∈ B.ink) : t ∈ (operation op A B).ink := by
  cases op <;> rcases h with h | h <;> simp [operation, ink, inkEach, h]

lemma mem_inkEach (he : e ∈ es) (ht : t ∈ (image routines e).ink) : t ∈ inkEach (images routines es) := by
  induction es with
  | nil => cases he
  | cons e' es ih =>
    rw [images, inkEach, mem_append]
    rcases mem_cons.mp he with rfl | he
    · exact .inl ht
    · exact .inr (ih he)

lemma Derives.calm_terminals (h : Derives k ts (image routines e)) : Calm ts :=
  calm_of_notMem_brackets fun t ht hmem => calm_image e t ((h.mem_ink hmem).mp ht)

/-- Without steps and reserved words in the text and without infinite literals, an expression is fit;
and before a negation there is no minus sign. -/
lemma Spelled.fit_of_calm (h : Spelled e) (hcalm : Calm (terminals routines n e))
    (hfinite : boundless ∉ (image routines e).ink) :
    isFit routines e ∧ n ≤ 1 ∧ (isNegation e → n = 0) := by
  induction h generalizing n with
  | real hx =>
    cases hx with
    | finite _ _ => exact ⟨rfl, le_one_of_calm (calm_append.mp hcalm).1, nofun⟩
    | infinite _ => simp [image, ink] at hfinite
  | name hn =>
    obtain ⟨hminuses, hname⟩ := calm_append.mp hcalm
    have hkeyword := notMem_keywords (calm_cons.mp hname).1
    exact ⟨by simpa [isFit] using hkeyword, le_one_of_calm hminuses, nofun⟩
  | @binary s op l r _ _ ihl ihr =>
    obtain ⟨hminuses, hcalml, hcalmr⟩ := calm_binary hcalm
    obtain ⟨hl, -, -⟩ := ihl hcalml fun hmem => hfinite (mem_ink_operation op (.inl hmem))
    obtain ⟨hr, -, -⟩ := ihr hcalmr fun hmem => hfinite (mem_ink_operation op (.inr hmem))
    exact ⟨and_eq_true_iff.mpr ⟨hl, hr⟩, le_one_of_calm hminuses, nofun⟩
  | @unary s op e he ih =>
    cases op with
    | neg =>
      obtain ⟨hfit, hle, hneg⟩ := ih (n := n + 1) hcalm fun hmem => hfinite (mem_cons_of_mem _ hmem)
      refine ⟨and_eq_true_iff.mpr ⟨?_, hfit⟩, by omega, fun _ => by omega⟩
      cases h : isNegation e with
      | false => rfl
      | true => exact absurd (hneg h) (by omega)
    | not =>
      obtain ⟨hminuses, hcalm⟩ := calm_append.mp hcalm
      obtain ⟨hfit, -, -⟩ := ih (calm_cons.mp hcalm).2 fun hmem => hfinite (mem_cons_of_mem _ hmem)
      exact ⟨hfit, le_one_of_calm hminuses, nofun⟩
  | paren _ ih =>
    obtain ⟨hminuses, hcalm⟩ := calm_append.mp hcalm
    obtain ⟨hfit, -, -⟩ := ih (calm_append.mp (calm_cons.mp hcalm).2).1 hfinite
    exact ⟨hfit, le_one_of_calm hminuses, nofun⟩
  | @index s a is haccess _ _ iha ihis =>
    rw [image, ink_foldl_index, mem_append, not_or] at hfinite
    obtain ⟨hcalma, hcalmis⟩ := calm_append.mp hcalm
    obtain ⟨hfita, hle, -⟩ := iha hcalma hfinite.1
    have hfitis : ∀ i ∈ is, isFit routines i := by
      intro i hi
      refine (ihis i hi (n := 0) (calm_of_notMem_brackets fun t ht hmem => ?_)
        fun hmem => hfinite.2 (mem_inkEach hi hmem)).1
      exact hcalmis t ((mem_indices hmem).mpr ⟨i, hi, ht⟩)
    exact ⟨and_eq_true_iff.mpr ⟨hfita, areFit_iff.mpr hfitis⟩, hle, nofun⟩
  | @field s o f haccess _ hf ih =>
    obtain ⟨hcalmo, hcalmf⟩ := calm_append.mp hcalm
    obtain ⟨hfit, hle, -⟩ := ih hcalmo fun hmem => hfinite (mem_append_left _ hmem)
    have hkeyword := notMem_keywords (calm_cons.mp (calm_cons.mp hcalmf).2).1
    exact ⟨and_eq_true_iff.mpr ⟨hfit, by simpa using hkeyword⟩, hle, nofun⟩
  | @call s w args hn _ ih =>
    obtain ⟨hminuses, hcalm⟩ := calm_append.mp hcalm
    obtain ⟨hword, hcalm⟩ := calm_cons.mp hcalm
    have hcalmargs := (calm_append.mp (calm_cons.mp hcalm).2).1
    have hfitargs : ∀ a ∈ args, isFit routines a := by
      intro a ha
      refine (ih a ha (n := 0) (calm_of_notMem_brackets fun t ht hmem => ?_)
        fun hmem => hfinite (mem_cons_of_mem _ (mem_inkEach ha hmem))).1
      exact hcalmargs t ((mem_arguments hmem).mpr ⟨a, ha, ht⟩)
    refine ⟨and_eq_true_iff.mpr ⟨?_, areFit_iff.mpr hfitargs⟩, le_one_of_calm hminuses, nofun⟩
    simpa using notMem_keywords hword
  | _ => exact ⟨rfl, le_one_of_calm (calm_append.mp hcalm).1, nofun⟩

/-- The text of an expression is read as its tree only if the expression is fit. -/
lemma Spelled.derives_iff (h : Spelled e) :
    Derives .comma (terminals routines 0 e) (image routines e) ↔ isFit routines e := by
  refine ⟨fun hderives => ?_, fun hfit => (h.derives hfit).operand (Nat.zero_le _)⟩
  have hcalm : Calm (terminals routines 0 e) := hderives.calm_terminals
  have hfinite : boundless ∉ (image routines e).ink := fun hmem =>
    h.boundless_notMem ((hderives.mem_ink (by decide)).mpr hmem)
  exact (h.fit_of_calm hcalm hfinite).1

/-! ## The theorem -/

lemma reads_iff {text : String} (h : Lexes text.toList ts) : Reads text T ↔ Derives .comma ts T := by
  constructor
  · rintro ⟨us, hus, hT⟩
    rwa [h.unique hus]
  · exact fun hT => ⟨ts, h, hT⟩

lemma Spelled.lexes (h : Spelled e) (routines : List String) :
    ∃ text, e.toC routines = .ok text ∧ Lexes text.toList (terminals routines 0 e) := by
  obtain ⟨text, htext⟩ := h.emits routines
  refine ⟨text, htext.toC, ?_⟩
  simpa using htext.lexes_zero (by simp) .stop

/-- Every expression of a program has a text, and C reads the text as the tree of the expression
exactly if the expression is fit, and then as no other tree. -/
theorem emitted_reads_iff {source file : String} {k : Grammar.Tier} {ts : List Token} {e : Expr}
    (routines : List String) (hts : ∀ t ∈ ts, t ∈ (Token.scan source file).tokens)
    (h : Grammar.IsExpr k ts e) :
    ∃ text, e.toC routines = .ok text ∧
      (Reads text (image routines e) ↔ isFit routines e = true) ∧
      (isFit routines e = true → ∀ T, Reads text T → T = image routines e) := by
  have hspelled := h.spelled hts
  obtain ⟨text, htoC, hlexes⟩ := hspelled.lexes routines
  refine ⟨text, htoC, (reads_iff hlexes).trans hspelled.derives_iff, fun hfit T hT => ?_⟩
  have himage := hspelled.derives_iff.mpr hfit
  have hcalm := himage.calm_terminals
  exact ((himage.plain hcalm).unique (((reads_iff hlexes).mp hT).plain hcalm)).symm

/-- `-x ^ t[1].f < 2.5` -/
def comparisonTokens : List Token :=
  [.onFirstLine (.mark .minus) "-" 0, .onFirstLine .identifier "x" 1, .onFirstLine (.mark .power) "^" 3,
   .onFirstLine .identifier "t" 5, .onFirstLine (.mark .lbracket) "[" 6, .onFirstLine .integer "1" 7,
   .onFirstLine (.mark .rbracket) "]" 8, .onFirstLine (.mark .dot) "." 9,
   .onFirstLine .identifier "f" 10, .onFirstLine (.mark .less) "<" 12, .onFirstLine .real "2.5" 14]

/-- A sign, a power, an index, a field and a fraction come through. -/
theorem comparison_reads :
    (∀ t ∈ comparisonTokens, t ∈ (Token.scan "-x ^ t[1].f < 2.5").tokens) ∧
      ∃ e, Grammar.IsExpr .relation comparisonTokens e ∧
        e.toC [] = .ok "(pow(-x, t[1].f) < 2.5)" ∧
        ∀ T, Reads "(pow(-x, t[1].f) < 2.5)" T ↔
          T = .binary "<"
            (.call (.name "pow")
              [.unary "-" (.name "x"), .member "." (.index (.name "t") (.constant (.integer 1))) "f"])
            (.constant (.floating (.finite false 0x14000000000000 (-51)))) := by
  have htokens : ∀ t ∈ comparisonTokens, t ∈ (Token.scan "-x ^ t[1].f < 2.5").tokens := by decide +kernel
  have hone (t : Token) (ht : t.kind = .integer) : Grammar.IsExpr .disjunction [t] _ :=
    .ofPrimary (.literal (.integer ht))
  have hread : Grammar.IsExpr .relation comparisonTokens _ :=
    .binary rfl (show (TokenKind.mark .less, BinaryOp.lt) ∈ Grammar.Tier.relation.operators by decide)
      (.tighten rfl (.tighten rfl (.tighten rfl (.power rfl
        (.sign List.mem_cons_self (.tighten rfl (.access (.name rfl))))
        (.tighten rfl (.tighten rfl (.access
          (.field (.index (.name rfl) (by simp) rfl (.one (hone _ rfl)) rfl) rfl rfl))))))))
      (.tighten rfl (.tighten rfl (.tighten rfl (.tighten rfl (.literal (.real rfl))))))
  obtain ⟨text, htoC, hreads, hunique⟩ := emitted_reads_iff [] htokens hread
  have hfraction : Binary64.ofLiteral "2.5" = .finite false 0x14000000000000 (-51) := by decide +kernel
  have hfit := hreads.mpr (by decide +kernel)
  obtain rfl : text = "(pow(-x, t[1].f) < 2.5)" := by
    exact Option.some.inj ((congrArg Except.toOption htoC).symm.trans (by decide +kernel))
  refine ⟨htokens, _, hread, htoC, fun T => ?_⟩
  rw [← hfraction]
  exact ⟨hunique (by decide +kernel) T, fun h => h ▸ hfit⟩

/-- `- -x` -/
def minusTokens : List Token :=
  [.onFirstLine (.mark .minus) "-" 0, .onFirstLine (.mark .minus) "-" 2, .onFirstLine .identifier "x" 3]

/-- A minus sign before another makes a step of them, which changes the variable. -/
theorem minuses_read_step :
    (∀ t ∈ minusTokens, t ∈ (Token.scan "- -x").tokens) ∧
      ∃ e, Grammar.IsExpr .sign minusTokens e ∧ e.toC [] = .ok "--x" ∧
        image [] e = .unary "-" (.unary "-" (.name "x")) ∧
        ¬ Reads "--x" (.unary "-" (.unary "-" (.name "x"))) ∧
        Reads "--x" (.stepBefore "--" (.name "x")) := by
  have htokens : ∀ t ∈ minusTokens, t ∈ (Token.scan "- -x").tokens := by decide +kernel
  have hread : Grammar.IsExpr .sign minusTokens _ :=
    .sign List.mem_cons_self (.sign List.mem_cons_self (.tighten rfl (.access (.name rfl))))
  obtain ⟨text, htoC, hlexes⟩ := (hread.spelled htokens).lexes []
  obtain rfl : text = "--x" :=
    Option.some.inj ((congrArg Except.toOption htoC).symm.trans (by decide +kernel))
  have hterminals : Lexes "--x".toList [.sign "--", .name "x"] := hlexes
  refine ⟨htokens, _, hread, htoC, rfl, fun hreads => ?_, (reads_iff hterminals).mpr ?_⟩
  · -- the step stands in the text and not in the tree
    have hink := ((reads_iff hterminals).mp hreads).mem_ink (t := .sign "--") (by decide)
    exact absurd (hink.mp List.mem_cons_self) (by decide)
  · have hstep : Derives .unary [.sign "--", .name "x"] (.stepBefore "--" (.name "x")) :=
      .stepBefore (by decide) (.tighten rfl (.tighten rfl .name))
    exact hstep.loosen (Nat.zero_le _)

end AlgoLang.CGrammar
