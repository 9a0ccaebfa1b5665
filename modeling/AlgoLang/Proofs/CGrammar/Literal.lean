/-
# Literals read back

What is written for a literal is one lexeme to C and stands for the same value: the digits of a whole
number, the shortest decimal of a floating point number, and the escaped text between quotes.
-/
import AlgoLang.C.Expr
import AlgoLang.Proofs.CGrammar.Lexing
import AlgoLang.Proofs.Number.Shortest
import AlgoLang.Token.Scan

namespace AlgoLang.CGrammar

open Text Binary64 List Nat Option
open Nat (ofDigitChars toDigits toDigits_ne_nil)

variable {c quote : Char} {n z : Nat} {p : Int} {scale tail before rest w cs xs ys : List Char} {q : ℚ}
  {ts : List Terminal}
variable {ds : List Char} {x : Binary64}

/-- The text is one number to C and becomes the terminal. -/
structure IsNumeral (w : List Char) (t : Terminal) : Prop where
  number : IsNumber w
  front : ∃ c cs, w = c :: cs ∧ c.isDigit = true
  means : Means (.number w) t

lemma IsNumber.append (h : IsNumber w) (hcs : ∀ c ∈ cs, isWordChar c ∨ c = '.') : IsNumber (w ++ cs) := by
  induction cs generalizing w with
  | nil => rwa [append_nil]
  | cons c cs ih =>
    have hmore := h.more (hcs c mem_cons_self)
    simpa using ih hmore fun d hd => hcs d (mem_cons_of_mem c hd)

/-! ## Digits -/

lemma digits?_eq (hne : ds ≠ []) (hds : ∀ c ∈ ds, c.isDigit) : digits? ds = some (ofDigitChars 10 ds 0) := by
  rw [digits?, if_pos ⟨hne, all_eq_true.mpr hds⟩]
  refine congrArg some (foldl_ext _ _ _ fun n c hc => ?_)
  rw [digitOf, if_pos (hds c hc)]
  rfl

lemma isDigit_toDigits : ∀ c ∈ toDigits 10 n, c.isDigit :=
  fun _ hc => isDigit_of_mem_toDigits (by decide) (by decide) hc

lemma isDigit_zeros : ∀ c ∈ replicate n '0', c.isDigit := by
  intro c hc
  rw [eq_of_mem_replicate hc]
  rfl

@[simp] lemma ofDigitChars_zeros (n k : Nat) : ofDigitChars 10 (replicate k '0') n = n * 10 ^ k := by
  induction k generalizing n with
  | zero => simp
  | succ k ih =>
    rw [replicate_succ, ofDigitChars_cons, ih, pow_succ]
    simp only [Nat.sub_self, Nat.add_zero]
    ring

lemma head_toDigits (hn : 0 < n) : (toDigits 10 n).head? ≠ some '0' := by
  induction n using Nat.strongRecOn with
  | ind n ih =>
    rw [toDigits_eq_if (by decide)]
    split
    · intro hzero
      have : n ∈ range 10 := mem_range.mpr ‹n < 10›
      have hall : ∀ d ∈ range 10, digitChar d = '0' → d = 0 := by decide
      exact hn.ne' (hall n this (by simpa using hzero))
    · have := ih (n / 10) (by omega) (by omega)
      rwa [head?_append_of_ne_nil _ toDigits_ne_nil]

lemma whole?_toDigits (n : Nat) : whole? (toDigits 10 n) = some n := by
  rcases Nat.eq_zero_or_pos n with rfl | hpos
  · rfl
  · have hdigits := digits?_eq toDigits_ne_nil (@isDigit_toDigits n)
    have hhead := head_toDigits hpos
    rw [ofDigitChars_ten_toDigits] at hdigits
    generalize toDigits 10 n = ds at hdigits hhead
    unfold whole?
    split
    · simp at hhead
    · simp at hhead
    · simp at hhead
    · exact hdigits

lemma isNumeral_integer (n : Nat) : IsNumeral (toString (n : Int)).toList (.constant (.integer n)) := by
  have htext : (toString (n : Int)).toList = toDigits 10 n := toList_repr
  rw [htext]
  obtain ⟨c, cs, hds⟩ := exists_cons_of_ne_nil (toDigits_ne_nil (n := n) (b := 10))
  have hdigit := @isDigit_toDigits n
  have hwhole := whole?_toDigits n
  rw [hds] at hdigit hwhole ⊢
  refine ⟨?_, ⟨c, cs, rfl, hdigit c mem_cons_self⟩, .integer hwhole⟩
  exact (IsNumber.digit (hdigit c mem_cons_self)).append fun d hd =>
    .inl (isWordChar_of_isDigit (hdigit d (mem_cons_of_mem c hd)))

/-! ## Fractions -/

/-- What stands behind the digits at the front of a number: nothing, or a point and digits. -/
structure IsTail (tail : List Char) : Prop where
  point : ∀ c ∈ tail.head?, c = '.'
  digits : ∀ c ∈ tail.drop 1, c.isDigit = true

/-- Behind the digits of a number stands an exponent, or nothing if there is a point. -/
inductive IsScale (tail : List Char) : List Char → Int → Prop
  | plain : tail ≠ [] → IsScale tail [] 0
  | power {ds : List Char} {p : Int} : power? ds = some p → IsScale tail ('e' :: ds) p

lemma IsTail.mem (h : IsTail tail) (hc : c ∈ tail) : c = '.' ∨ c.isDigit := by
  cases tail with
  | nil => cases hc
  | cons d ds =>
    rcases mem_cons.mp hc with rfl | hc
    · exact .inl (h.point c rfl)
    · exact .inr (h.digits c hc)

lemma fraction?_eq (hne : before ≠ [])
    (hbefore : ∀ c ∈ before, c.isDigit) (htail : IsTail tail) (hscale : IsScale tail scale p) :
    fraction? (before ++ tail ++ scale) =
      some ((ofDigitChars 10 (before ++ tail.drop 1) 0 : ℚ) * 10 ^ (p - (tail.drop 1).length)) := by
  have hmantissa : (before ++ tail).all (fun c => c != 'e' && c != 'E') := by
    refine all_eq_true.mpr fun c hc => ?_
    rcases mem_append.mp hc with hc | hc
    · simp [ne_of_class (hbefore c hc)]
    · rcases htail.mem hc with rfl | hc
      · rfl
      · simp [ne_of_class hc]
  have hstop : ∀ c ∈ scale.head?, (c != 'e' && c != 'E') = false := by cases hscale <;> simp
  have hpoint : ∀ c ∈ tail.head?, (c != '.') = false := fun c hc => by simp [htail.point c hc]
  have hdot : before.all (· != '.') :=
    all_eq_true.mpr fun c hc => by simp [ne_of_class (hbefore c hc)]
  have hdigits : ∀ c ∈ before ++ tail.drop 1, c.isDigit := by
    intro c hc
    exact (mem_append.mp hc).elim (hbefore c) (htail.digits c)
  simp only [fraction?, takeWhile_append_stop hmantissa hstop, dropWhile_append_stop hmantissa hstop,
    takeWhile_append_stop hdot hpoint, dropWhile_append_stop hdot hpoint]
  rw [digits?_eq (by simp [hne]) hdigits]
  cases hscale with
  | plain htail =>
    have := length_pos_iff.mpr htail
    simp [this]
  | power hp => simp [hp]

lemma whole?_eq_none (hx : ∀ d ∈ cs.head?, d ≠ 'x' ∧ d ≠ 'X')
    (hmark : ∃ d ∈ cs, d.isDigit = false) : whole? (c :: cs) = none := by
  obtain ⟨d, hd, hmark⟩ := hmark
  unfold whole?
  split
  · simp_all
  · simp_all
  · rename_i ds _ _ heq
    obtain ⟨-, rfl⟩ := cons.inj heq
    rw [if_neg]
    intro hall
    have hoctal := all_eq_true.mp hall d hd
    simp only [Bool.and_eq_true, decide_eq_true_eq] at hoctal
    have hdigit : d.isDigit := by
      simp only [Char.isDigit, Bool.and_eq_true, decide_eq_true_eq]
      exact ⟨hoctal.1, Char.le_trans hoctal.2 (by decide : '7' ≤ '9')⟩
    simp [hmark] at hdigit
  · rw [digits?, if_neg]
    intro hall
    have := all_eq_true.mp hall.2 d (mem_cons_of_mem c hd)
    simp [hmark] at this

lemma IsScale.isNumber (h : IsScale tail scale p) (hw : IsNumber w) : IsNumber (w ++ scale) := by
  cases h with
  | plain => rwa [append_nil]
  | @power ds _ hp =>
    have hword {cs : List Char} {n : Nat} (hcs : digits? cs = some n) : ∀ c ∈ cs, isWordChar c ∨ c = '.' :=
      fun c hc => .inl (isWordChar_of_isDigit (all_eq_true.mp (Option.ite_none_right_eq_some.mp hcs).1.2 c hc))
    unfold power? at hp
    split at hp
    all_goals obtain ⟨n, hn, -⟩ := map_eq_some_iff.mp hp
    · simpa using (hw.power (e := 'e') (c := '-') (by decide) (by decide)).append (hword hn)
    · simpa using (hw.power (e := 'e') (c := '+') (by decide) (by decide)).append (hword hn)
    · simpa using (hw.more (c := 'e') (.inl rfl)).append (hword hn)

/-- Digits with a point or an exponent behind them are a fraction. -/
lemma isNumeral_fraction (hne : before ≠ [])
    (hbefore : ∀ c ∈ before, c.isDigit) (htail : IsTail tail) (hscale : IsScale tail scale p)
    (hq : (ofDigitChars 10 (before ++ tail.drop 1) 0 : ℚ) * 10 ^ (p - (tail.drop 1).length) = q)
    (hx : RoundsTo q x) : IsNumeral (before ++ tail ++ scale) (.constant (.floating x)) := by
  have hfraction := fraction?_eq hne hbefore htail hscale
  obtain ⟨c, cs, rfl⟩ := exists_cons_of_ne_nil hne
  have hc := hbefore c mem_cons_self
  have hmantissa : IsNumber (c :: cs ++ tail) := (IsNumber.digit hc).append fun d hd => by
    rcases mem_append.mp hd with hd | hd
    · exact .inl (isWordChar_of_isDigit (hbefore d (mem_cons_of_mem c hd)))
    · exact (htail.mem hd).symm.imp isWordChar_of_isDigit id
  have hfront : ∀ d ∈ (cs ++ tail ++ scale).head?, d ≠ 'x' ∧ d ≠ 'X' := by
    intro d hd
    cases cs with
    | cons d' cs =>
      obtain rfl : d' = d := some.inj hd
      have hdigit := hbefore d' (by simp)
      exact ⟨ne_of_class hdigit rfl, ne_of_class hdigit rfl⟩
    | nil =>
      cases tail with
      | cons d' tail =>
        obtain rfl : d' = d := some.inj hd
        rw [htail.point d' rfl]
        decide
      | nil =>
        cases hscale with
        | plain htail => exact absurd rfl htail
        | power _ =>
          obtain rfl : 'e' = d := some.inj hd
          decide
  refine ⟨hscale.isNumber hmantissa, ⟨c, _, rfl, hc⟩, .floating (whole?_eq_none hfront ?_) (hq ▸ hfraction) hx⟩
  cases hscale with
  | plain htail' =>
    obtain ⟨d, ds, rfl⟩ := exists_cons_of_ne_nil htail'
    exact ⟨d, by simp, htail.point d rfl ▸ rfl⟩
  | power _ => exact ⟨'e', by simp, rfl⟩

/-! ## The shortest decimal -/

lemma toList_pushn (s : String) (c : Char) (n : Nat) : (s.pushn c n).toList = s.toList ++ replicate n c := by
  induction n with
  | zero => simp [String.pushn, Nat.repeat]
  | succ n ih =>
    have hpush : s.pushn c (n + 1) = (s.pushn c n).push c := rfl
    rw [hpush, String.toList_push, ih, replicate_succ', append_assoc]

lemma digits?_padded (n : Nat) :
    digits? (if (toString n).length < 2 then "0" ++ toString n else toString n).toList = some n := by
  have htext : (toString n).toList = toDigits 10 n := toList_repr
  split
  · rw [String.toList_append, htext, digits?_eq (by simp) (by simpa using @isDigit_toDigits n)]
    simp [ofDigitChars_cons]
  · rw [htext, digits?_eq toDigits_ne_nil isDigit_toDigits, ofDigitChars_ten_toDigits]

lemma power?_signed (hds : digits? ds = some p.natAbs) :
    power? ((if p < 0 then "-" else "+").toList ++ ds) = some p := by
  split
  · have hminus : power? ('-' :: ds) = some (-(p.natAbs : Int)) := by rw [power?, hds, map_some]
    exact hminus.trans (congrArg some (by omega))
  · have hplus : power? ('+' :: ds) = some (p.natAbs : Int) := by rw [power?, hds, map_some]
    exact hplus.trans (congrArg some (by omega))

lemma isNumeral_point {behind : List Char}
    (hne : before ≠ []) (hbefore : ∀ c ∈ before, c.isDigit) (hbehind : ∀ c ∈ behind, c.isDigit)
    (hq : (ofDigitChars 10 (before ++ behind) 0 : ℚ) * 10 ^ (-(behind.length : Int)) = q)
    (hx : RoundsTo q x) : IsNumeral (before ++ '.' :: behind) (.constant (.floating x)) := by
  have htail : IsTail ('.' :: behind) := ⟨by simp, hbehind⟩
  simpa using isNumeral_fraction hne hbefore htail (.plain (cons_ne_nil '.' behind)) (by simpa using hq) hx

/-! Each of the four notations of a decimal is a number with its value. -/

section Notation

variable {ds : List Char} {k : Int} {x : Binary64} (hne : ds ≠ [])
  (hds : ∀ c ∈ ds, c.isDigit) (hx : RoundsTo (ofDigitChars 10 ds 0 * 10 ^ k) x)

include hds hx

lemma isNumeral_below (hz : (ds.length + k : Int) = -z) :
    IsNumeral (['0'] ++ '.' :: (replicate z '0' ++ ds)) (.constant (.floating x)) := by
  refine isNumeral_point (cons_ne_nil _ _) (by simp)
    (fun c hc => (mem_append.mp hc).elim (isDigit_zeros c) (hds c)) ?_ hx
  have hlength : -((replicate z '0' ++ ds).length : Int) = k := by
    simp only [length_append, length_replicate]
    omega
  have hzeros : ofDigitChars 10 (['0'] ++ (replicate z '0' ++ ds)) 0 = ofDigitChars 10 ds 0 := by
    rw [singleton_append, ofDigitChars_cons, ofDigitChars_append, ofDigitChars_zeros]
    simp
  rw [hlength, hzeros]

include hne

lemma isNumeral_above (hz : k = z) : IsNumeral (ds ++ replicate z '0' ++ ['.', '0']) (.constant (.floating x)) := by
  refine isNumeral_point (by simp [hne]) (fun c hc => (mem_append.mp hc).elim (hds c) (isDigit_zeros c)) (by simp) ?_ hx
  rw [ofDigitChars_append, ofDigitChars_append, ofDigitChars_zeros, hz, zpow_natCast]
  simp [ofDigitChars_cons]
  ring

lemma isNumeral_inside (hn : 0 < n) (hk : (ds.length + k : Int) = n) (hlt : n < ds.length) :
    IsNumeral (ds.take n ++ '.' :: ds.drop n) (.constant (.floating x)) := by
  refine isNumeral_point (by simp [hne, hn.ne']) (fun c hc => hds c (mem_of_mem_take hc))
    (fun c hc => hds c (mem_of_mem_drop hc)) ?_ hx
  have hlength : -((ds.drop n).length : Int) = k := by
    rw [length_drop]
    omega
  rw [take_append_drop, hlength]

lemma isNumeral_scientific (hscale : power? scale = some (ds.length + k - 1)) :
    IsNumeral (ds.take 1 ++ (if (ds.drop 1).isEmpty then [] else '.' :: ds.drop 1) ++ 'e' :: scale)
      (.constant (.floating x)) := by
  have hdrop : (if (ds.drop 1).isEmpty then [] else '.' :: ds.drop 1).drop 1 = ds.drop 1 := by
    split <;> simp_all
  have htail : IsTail (if (ds.drop 1).isEmpty then [] else '.' :: ds.drop 1) := by
    refine ⟨?_, fun c hc => hds c (mem_of_mem_drop (hdrop ▸ hc))⟩
    split <;> simp
  refine isNumeral_fraction (by simp [hne]) (fun c hc => hds c (mem_of_mem_take hc)) htail (.power hscale) ?_ hx
  have hpos := length_pos_iff.mpr hne
  have hlength : (ds.length + k - 1 - (ds.drop 1).length : Int) = k := by
    rw [length_drop]
    omega
  rw [hdrop, take_append_drop, hlength]

end Notation

/-- The text of a decimal stands for the floating point number next to it. -/
lemma isNumeral_decimal {d : Decimal} (hx : RoundsTo d.value x) :
    IsNumeral d.text.toList (.constant (.floating x)) := by
  have hlength : ((toString d.digits).length : Int) = (toDigits 10 d.digits).length := by
    rw [length_toString]
  have htext : (toString d.digits).toList = toDigits 10 d.digits := toList_repr
  have hne := @toDigits_ne_nil d.digits 10
  have hds := @isDigit_toDigits d.digits
  rw [Decimal.value, ← ofDigitChars_ten_toDigits (n := d.digits)] at hx
  unfold Decimal.text
  simp only [hlength, htext]
  generalize toDigits 10 d.digits = ds at *
  split
  · split
    · simp only [String.toList_append, toList_pushn, htext]
      exact isNumeral_below hds hx (by omega)
    · split
      · simp only [String.toList_append, toList_pushn, htext]
        exact isNumeral_above hne hds hx (by omega)
      · rw [String.toList_ofList]
        exact isNumeral_inside hne hds hx (by omega) (by omega) (by omega)
  · have := isNumeral_scientific hne hds hx (power?_signed (digits?_padded (ds.length + d.exponent - 1 : Int).natAbs))
    simpa using this

/-- The text of a finite number reads back as the number. -/
lemma isNumeral_real {m : Nat} {e : Int} (h : RoundsTo q (.finite false m e)) :
    IsNumeral (Binary64.finite false m e).text.toList (.constant (.floating (.finite false m e))) := by
  cases h with
  | finite howns he =>
    rw [Binary64.text, if_neg Bool.false_ne_true]
    split
    · rename_i hm
      obtain rfl : m = 0 := by simpa using hm
      obtain rfl : e = minExponent := by
        refine le_antisymm (not_lt.mp fun hlt => ?_) howns.least
        simpa using howns.full hlt
      have hzero : IsNumeral (['0'] ++ '.' :: ['0']) (.constant (.floating (zero false))) :=
        isNumeral_point (cons_ne_nil '0' []) (by simp) (by simp) (by simp [ofDigitChars_cons]) zero_roundsTo_zero
      exact hzero
    · rename_i hm
      have hm : 0 < m := pos_of_ne_zero (by simpa using hm)
      exact isNumeral_decimal (.finite (howns.toCanonical.owns_shortest hm) he)

/-! ## Quoted texts -/

section

variable (hquote : quote = '\'' ∨ quote = '"')
include hquote

lemma escapeChar_cases (c : Char) : escapeChar quote c = [c] ∧ c ≠ quote ∧ c ≠ '\\' ∧ c ≠ '\n' ∨
      ∃ d, escapeChar quote c = ['\\', d] ∧ d ≠ '\n' ∧ escapes.lookup d = some c ∧ Token.unescape d = c := by
  unfold escapeChar
  split
  · rename_i hescaped
    refine .inr ⟨c, rfl, ?_⟩
    rcases (by simpa using hescaped : c = '\\' ∨ c = quote) with rfl | rfl
    · decide
    · rcases hquote with rfl | rfl <;> decide
  · rename_i hplain
    obtain ⟨hslash, hself⟩ : c ≠ '\\' ∧ c ≠ quote := by simpa using hplain
    split
    · exact .inr ⟨'n', rfl, by decide⟩
    · exact .inr ⟨'t', rfl, by decide⟩
    · exact .inr ⟨'r', rfl, by decide⟩
    · rename_i hline _ _
      exact .inl ⟨rfl, hself, hslash, hline⟩

lemma isBody_escape (cs : List Char) : IsBody quote (cs.flatMap (escapeChar quote)) := by
  induction cs with
  | nil => exact .done
  | cons c cs ih =>
    rw [flatMap_cons]
    rcases escapeChar_cases hquote c with ⟨heq, hself, hslash, hline⟩ | ⟨d, heq, hline, -⟩
    · rw [heq]
      exact .plain hself hslash hline ih
    · rw [heq]
      exact .escape hline ih

lemma unescape?_escape (cs : List Char) : unescape? (cs.flatMap (escapeChar quote)) = some cs := by
  induction cs with
  | nil => rfl
  | cons c cs ih =>
    rw [flatMap_cons]
    rcases escapeChar_cases hquote c with ⟨heq, -, hslash, -⟩ | ⟨d, heq, -, hd, -⟩
    · rw [heq, singleton_append, unescape?]
      · simp [hslash, ih]
      · intro d ds hd
        exact absurd hd hslash
    · rw [heq]
      simp [unescape?, hd, ih]

end

lemma Lexes.quotedChar (h : Lexes rest ts) : Lexes (("'" ++ C.charBody (.singleton c) ++ "'").toList ++ rest)
      (.constant (.char (.singleton c)) :: ts) := by
  have hbody := isBody_escape (.inl rfl) [c]
  have hvalue := unescape?_escape (.inl rfl) [c]
  have htext : ("'" ++ C.charBody (.singleton c) ++ "'").toList =
      '\'' :: ([c].flatMap (escapeChar '\'') ++ ['\'']) := by
    simp [C.charBody]
  rw [htext]
  exact .char hbody hvalue h

lemma Lexes.quotedString {s : String} (h : Lexes rest ts) :
    Lexes ((literal '"' s).toList ++ rest) (.constant (.string s) :: ts) := by
  have htext : (literal '"' s).toList = '"' :: (s.toList.flatMap (escapeChar '"') ++ ['"']) := by
    simp [literal, escape_eq (.inr rfl)]
  have hbody := isBody_escape (.inr (rfl : '"' = '"')) s.toList
  have hread := Lexes.cons (.string hbody) (.string (unescape?_escape (.inr rfl) s.toList)) (not_opensComment (by decide))
    (fun _ _ _ _ => IsLexeme.not_beyond_quote (.inr rfl) hbody) h
  rwa [String.ofList_toList, ← htext] at hread

end AlgoLang.CGrammar
