/-
# What a format prints

A format is read from left to right as pieces: double percent signs, conversions, escapes and plain
characters.  The arguments take the places of the conversions, and the text between them is collected.
-/
import AlgoLang.Lift.Format
import Mathlib

namespace AlgoLang.Lift

open Text List
open Function (comp_def)

variable {cs rest : List Char}

/-! ## The pieces of a format -/

/-- A piece of a format. -/
inductive FormatPiece where
  | percent
  | conversion
  | escape (c : Char)
  | plain (c : Char)
  deriving DecidableEq

/-- What a piece prints by itself; a conversion leaves that to its argument. -/
def FormatPiece.content : FormatPiece → List Char
  | percent => ['%']
  | conversion => []
  | escape c => ['\\', c]
  | plain c => [c]

lemma starOrDigits?_suffix (h : starOrDigits? cs = some rest) : rest <:+ cs := by
  unfold starOrDigits? at h
  split at h
  · cases h
    exact suffix_cons _ _
  · obtain ⟨-, h⟩ := Option.ite_none_right_eq_some.mp h
    cases h
    exact dropWhile_suffix _

lemma getD_starOrDigits?_suffix (cs : List Char) : (starOrDigits? cs).getD cs <:+ cs := by
  cases h : starOrDigits? cs with
  | none => exact suffix_refl cs
  | some rest => exact starOrDigits?_suffix h

lemma dropPrecision_suffix (cs : List Char) : dropPrecision cs <:+ cs := by
  unfold dropPrecision
  split
  · next r =>
    cases h : starOrDigits? r with
    | none => exact suffix_refl _
    | some rest => exact (starOrDigits?_suffix h).trans (suffix_cons _ _)
  · exact suffix_refl cs

lemma dropLengthModifier_suffix (cs : List Char) : dropLengthModifier cs <:+ cs := by
  unfold dropLengthModifier
  split
  all_goals first
    | exact suffix_refl _
    | exact suffix_cons _ _
    | exact (suffix_cons _ _).trans (suffix_cons _ _)

lemma afterConversion?_suffix (h : afterConversion? cs = some rest) : ∃ c, c :: rest <:+ cs := by
  have hbefore := (dropLengthModifier_suffix _).trans ((dropPrecision_suffix _).trans
    ((getD_starOrDigits?_suffix _).trans (dropWhile_suffix "-+ #0".toList.contains (l := cs))))
  unfold afterConversion? at h
  dsimp only at h
  split at h
  · next c r hr =>
    obtain ⟨-, h⟩ := Option.ite_none_right_eq_some.mp h
    cases h
    exact ⟨c, hr ▸ hbefore⟩
  · cases h

/-- What follows a conversion at the front of a text. -/
def conversion? : List Char → Option (List Char)
  | '%' :: cs => afterConversion? cs
  | _ => none

lemma conversion?_suffix (h : conversion? cs = some rest) : ∃ c, c :: rest <:+ cs := by
  unfold conversion? at h
  split at h
  · next cs =>
    obtain ⟨c, hc⟩ := afterConversion?_suffix h
    exact ⟨c, hc.trans (suffix_cons _ cs)⟩
  · cases h

/-- The pieces of a format, from left to right. -/
def formatPieces : List Char → List FormatPiece
  | [] => []
  | '%' :: '%' :: cs => .percent :: formatPieces cs
  | '\\' :: c :: cs => .escape c :: formatPieces cs
  | c :: cs =>
    match h : conversion? (c :: cs) with
    | some rest =>
      have : rest.length < cs.length + 1 := (conversion?_suffix h).elim fun _ hc => hc.length_le
      .conversion :: formatPieces rest
    | none => .plain c :: formatPieces cs
termination_by cs => cs.length

/-! ## Items -/

/-- What a format and its arguments are printed as, item by item. -/
inductive FormatItem where
  | text (cs : List Char)
  | value (arg : List Char)

namespace FormatItem

def shown : FormatItem → String
  | text cs => String.ofList ('"' :: cs ++ ['"'])
  | value arg => liftExpr arg

def content : FormatItem → List Char
  | text cs => cs
  | value _ => []

def value? : FormatItem → Option (List Char)
  | text _ => none
  | value arg => some arg

def parts : FormatItem → List (Char ⊕ List Char)
  | text cs => cs.map .inl
  | value arg => [.inr arg]

/-- Text that was collected; no text is no item. -/
def ofText : List Char → List FormatItem
  | [] => []
  | cs => [text cs]

end FormatItem

/-- The arguments in the places of the conversions, as far as there are arguments, and those that are
left at the end. -/
def weave : List FormatPiece → List (List Char) → List (Char ⊕ List Char)
  | [], args => args.map .inr
  | .conversion :: ps, a :: args => .inr a :: weave ps args
  | p :: ps, args => p.content.map .inl ++ weave ps args

/-- The items of pieces behind text that was collected; none if there are too few arguments. -/
def itemsOf (text : List Char) : List (List Char) → List FormatPiece → Option (List FormatItem)
  | args, [] => some (FormatItem.ofText text ++ args.map .value)
  | [], .conversion :: _ => none
  | a :: args, .conversion :: ps => (itemsOf [] args ps).map (FormatItem.ofText text ++ .value a :: ·)
  | args, p :: ps => itemsOf (text ++ p.content) args ps

def formatLayout (format : List Char) (args : List (List Char)) : Option (List FormatItem) :=
  itemsOf [] args (formatPieces (withoutNewline format))

lemma map_shown_ofText (cs : List Char) : (FormatItem.ofText cs).map FormatItem.shown = textItem cs := by
  cases cs <;> rfl

lemma formatFrom_skip (text : List Char) (args : List (List Char)) (n : Nat) (cs : List Char) :
    formatFrom text args n cs = formatFrom text args 0 (cs.drop n) := by
  induction cs generalizing n with
  | nil => rw [drop_nil, formatFrom, formatFrom]
  | cons c cs ih =>
    cases n with
    | zero => rfl
    | succ n => rw [formatFrom, drop_succ_cons, ih]

lemma formatFrom_eq (cs : List Char) : ∀ (text : List Char) (args : List (List Char)), formatFrom text args 0 cs =
      (itemsOf text args (formatPieces cs)).map (.map FormatItem.shown) := by
  fun_induction formatPieces cs with
  | case1 =>
    intro text args
    simp [formatFrom, itemsOf, map_shown_ofText, FormatItem.shown]
  | case2 cs ih =>
    intro text args
    have hstep : formatFrom text args 0 ('%' :: '%' :: cs) = formatFrom (text ++ ['%']) args 1 ('%' :: cs) := rfl
    rw [hstep, formatFrom_skip, drop_one, tail_cons, ih]
    rfl
  | case3 c cs ih =>
    intro text args
    have hstep : formatFrom text args 0 ('\\' :: c :: cs) = formatFrom (text ++ ['\\', c]) args 1 (c :: cs) := rfl
    rw [hstep, formatFrom_skip, drop_one, tail_cons, ih]
    rfl
  | case4 c cs hpercent hescape rest hrest hshorter ih =>
    intro text args
    unfold formatFrom
    dsimp only
    split
    · next hhead =>
      obtain ⟨ds, rfl⟩ := head?_eq_some_iff.mp hhead
      exact absurd rfl (hpercent ds rfl)
    · cases hrest
    · have hafter : afterConversion? cs = some rest := hrest
      have hdrop : cs.drop (cs.length - rest.length) = rest := by
        obtain ⟨d, hd⟩ := afterConversion?_suffix hafter
        exact (suffix_iff_eq_drop.mp ((suffix_cons d rest).trans hd)).symm
      rw [hafter]
      cases args with
      | nil => rfl
      | cons a args =>
        dsimp only
        rw [formatFrom_skip, hdrop, ih, itemsOf]
        simp [comp_def, map_shown_ofText, FormatItem.shown]
    · next hne _ _ =>
      unfold conversion? at hrest
      split at hrest
      · next heq => exact absurd (List.cons.inj heq).1 hne
      · cases hrest
  | case5 c cs hpercent hescape hnone ih =>
    intro text args
    unfold formatFrom
    dsimp only
    split
    · next hhead =>
      obtain ⟨ds, rfl⟩ := head?_eq_some_iff.mp hhead
      exact absurd rfl (hpercent ds rfl)
    · next hhead =>
      obtain ⟨ds, rfl⟩ := head?_eq_some_iff.mp hhead
      exact absurd rfl (hescape _ ds rfl)
    · have hafter : afterConversion? cs = none := hnone
      rw [hafter]
      exact ih (text ++ ['%']) args
    · exact ih _ args

/-! ## Arguments in the places of conversions -/

section

variable {text : List Char} {args : List (List Char)} {ps : List FormatPiece} {items : List FormatItem}

lemma itemsOf_eq_none_iff : itemsOf text args ps = none ↔ args.length < ps.count .conversion := by
  fun_induction itemsOf text args ps with
  | case1 => simp
  | case2 text ps => simp
  | case3 text a args ps ih => simp [ih]
  | case4 text args p ps hnil hcons ih =>
    have hp : p ≠ .conversion := by
      rintro rfl
      cases args with
      | nil => exact hnil rfl rfl
      | cons a args => exact hcons a args rfl rfl
    rw [ih, count_cons_of_ne hp]

lemma parts_ofText (cs : List Char) : (FormatItem.ofText cs).flatMap FormatItem.parts = cs.map .inl := by
  cases cs with
  | nil => rfl
  | cons c cs => exact append_nil _

lemma parts_itemsOf (h : itemsOf text args ps = some items) :
    items.flatMap FormatItem.parts = text.map .inl ++ weave ps args := by
  fun_induction itemsOf text args ps generalizing items with
  | case1 text args =>
    cases h
    have hvalues : args.flatMap (fun a => (FormatItem.value a).parts) = args.map .inr := map_eq_flatMap.symm
    rw [flatMap_append, parts_ofText, flatMap_map, hvalues, weave]
  | case2 text ps => cases h
  | case3 text a args ps ih =>
    obtain ⟨more, hmore, rfl⟩ := Option.map_eq_some_iff.mp h
    rw [flatMap_append, flatMap_cons, parts_ofText, ih hmore, weave]
    rfl
  | case4 text args p ps hnil hcons ih =>
    rw [ih h, weave, map_append, append_assoc]
    exact hcons

lemma values_weave (h : ps.count .conversion ≤ args.length) : (weave ps args).filterMap Sum.getRight? = args := by
  fun_induction weave ps args with
  | case1 args => simp [filterMap_map, comp_def]
  | case2 ps a args ih =>
    have hrest : ps.count .conversion ≤ args.length := by simpa using h
    simp [ih hrest]
  | case3 p ps args hcons ih =>
    have hrest : ps.count .conversion ≤ args.length := Nat.le_trans (count_le_count_cons) h
    simp [ih hrest, filterMap_map, comp_def]

lemma text_weave : (weave ps args).filterMap Sum.getLeft? = ps.flatMap FormatPiece.content := by
  fun_induction weave ps args with
  | case1 args => simp [filterMap_map, comp_def]
  | case2 ps a args ih => simp [ih, FormatPiece.content, filterMap_cons]
  | case3 p ps args hcons ih => simp [ih, filterMap_map, comp_def]

lemma filterMap_parts (items : List FormatItem) :
    (items.flatMap FormatItem.parts).filterMap Sum.getRight? = items.filterMap FormatItem.value? ∧
      (items.flatMap FormatItem.parts).filterMap Sum.getLeft? = items.flatMap FormatItem.content := by
  induction items with
  | nil => exact ⟨rfl, rfl⟩
  | cons i items ih =>
    cases i <;> simp [ih, FormatItem.parts, FormatItem.value?, FormatItem.content, filterMap_cons, filterMap_map, comp_def]

end

/-- **A format and its arguments.**  There are no items exactly if the format, without the newline at
its end, has more conversions than there are arguments.  Otherwise every argument is lifted just once
and in order: the first ones stand where the conversions do, the others at the end.  The text is that of
the format without the conversions, with one percent sign for two. -/
theorem formatItems_weaves (format : List Char) (args : List (List Char)) :
    (formatItems format args = none ↔
      args.length < (formatPieces (withoutNewline format)).count .conversion) ∧
    ((formatPieces (withoutNewline format)).count .conversion ≤ args.length →
      ∃ items : List FormatItem, formatItems format args = some (items.map FormatItem.shown) ∧
        items.flatMap FormatItem.parts = weave (formatPieces (withoutNewline format)) args ∧
        items.filterMap FormatItem.value? = args ∧
        items.flatMap FormatItem.content =
          (formatPieces (withoutNewline format)).flatMap FormatPiece.content) := by
  rw [formatItems, formatFrom_eq, Option.map_eq_none_iff, itemsOf_eq_none_iff]
  refine ⟨Iff.rfl, fun henough => ?_⟩
  cases hitems : itemsOf [] args (formatPieces (withoutNewline format)) with
  | none => exact absurd (itemsOf_eq_none_iff.mp hitems) (by omega)
  | some items =>
    have hparts := parts_itemsOf hitems
    rw [map_nil, nil_append] at hparts
    exact ⟨items, rfl, hparts, by rw [← (filterMap_parts items).1, hparts, values_weave henough],
      by rw [← (filterMap_parts items).2, hparts, text_weave]⟩

end AlgoLang.Lift
