/-
# White space, and cutting it off the ends of a text

`isWhiteSpace` is the property of that name, and `isBlank` the widest class: the property and the four
information separators.  The scanner of the algorithmic language has a narrower class of its own.
-/

namespace AlgoLang.Text

def isWhiteSpace (c : Char) : Bool :=
  let n := c.toNat
  (9 ≤ n && n ≤ 13) || n == 32 || n == 0x85 || n == 0xA0 || n == 0x1680 || (0x2000 ≤ n && n ≤ 0x200A) ||
    n == 0x2028 || n == 0x2029 || n == 0x202F || n == 0x205F || n == 0x3000

/-- White space of any script, the information separators U+001C to U+001F included. -/
def isBlank (c : Char) : Bool :=
  isWhiteSpace c || (28 ≤ c.toNat && c.toNat ≤ 31)

def trimStart (cs : List Char) : List Char :=
  cs.dropWhile isBlank

def trimEnd (cs : List Char) : List Char :=
  (cs.reverse.dropWhile isBlank).reverse

def trim (cs : List Char) : List Char :=
  trimEnd (trimStart cs)

def allBlank (cs : List Char) : Bool :=
  cs.all isBlank

def dropEnd (unwanted : Char → Bool) (cs : List Char) : List Char :=
  (cs.reverse.dropWhile unwanted).reverse

def words (cs : List Char) : List (List Char) :=
  let step (c : Char) (acc : List Char × List (List Char)) : List Char × List (List Char) :=
    if isBlank c then ([], if acc.1.isEmpty then acc.2 else acc.1 :: acc.2) else (c :: acc.1, acc.2)
  let (first, others) := cs.foldr step ([], [])
  if first.isEmpty then others else first :: others

theorem trimStart_length_le (cs : List Char) : (trimStart cs).length ≤ cs.length :=
  (List.dropWhile_suffix _).length_le

theorem trimEnd_length_le (cs : List Char) : (trimEnd cs).length ≤ cs.length := by
  simpa [trimEnd] using (List.dropWhile_suffix (l := cs.reverse) isBlank).length_le

theorem trim_length_le (cs : List Char) : (trim cs).length ≤ cs.length :=
  Nat.le_trans (trimEnd_length_le _) (trimStart_length_le _)

section

open List

variable {p : Char → Bool} {xs ys gap cs : List Char} {c d : Char}

/-- Two characters differ if one of them only is in a class. -/
theorem ne_of_class (hc : p c = true) (hd : p d = false) : c ≠ d := by
  rintro rfl
  rw [hc] at hd
  cases hd

theorem takeWhile_append_stop (hxs : xs.all p = true) (hys : ∀ c ∈ ys.head?, p c = false) :
    (xs ++ ys).takeWhile p = xs := by
  rw [takeWhile_append_of_pos (all_eq_true.mp hxs)]
  cases ys with
  | nil => rw [takeWhile_nil, append_nil]
  | cons c ys => rw [takeWhile_cons_of_neg (by simp [hys c rfl]), append_nil]

theorem dropWhile_append_stop (hxs : xs.all p = true) (hys : ∀ c ∈ ys.head?, p c = false) :
    (xs ++ ys).dropWhile p = ys := by
  rw [dropWhile_append_of_pos (all_eq_true.mp hxs)]
  cases ys with
  | nil => rfl
  | cons c ys => exact dropWhile_cons_of_neg (by simp [hys c rfl])

theorem trimStart_append (hgap : allBlank gap = true) (hcs : ∀ c ∈ cs.head?, isBlank c = false) :
    trimStart (gap ++ cs) = cs :=
  dropWhile_append_stop hgap hcs

theorem dropEnd_append (hys : ys.all p = true) (hxs : ∀ c ∈ xs.getLast?, p c = false) :
    dropEnd p (xs ++ ys) = xs := by
  rw [dropEnd, reverse_append, dropWhile_append_stop (by rwa [all_reverse]) (by rwa [head?_reverse]),
    reverse_reverse]

theorem trimEnd_append (hgap : allBlank gap = true) (hcs : ∀ c ∈ cs.getLast?, isBlank c = false) :
    trimEnd (cs ++ gap) = cs :=
  dropEnd_append hgap hcs

theorem trimEnd_eq_self (hcs : ∀ c ∈ cs.getLast?, isBlank c = false) : trimEnd cs = cs := by
  simpa using trimEnd_append (show allBlank [] = true from rfl) hcs

theorem trimStart_of_allBlank (h : allBlank gap = true) : trimStart gap = [] := by
  have hnil : trimStart (gap ++ []) = [] := trimStart_append h (by simp)
  rwa [append_nil] at hnil

theorem trimEnd_of_allBlank (h : allBlank gap = true) : trimEnd gap = [] :=
  (trimEnd_append h (by simp) : trimEnd ([] ++ gap) = [])

theorem exists_eq_append_trimStart (cs : List Char) : ∃ gap, allBlank gap = true ∧ cs = gap ++ trimStart cs :=
  ⟨cs.takeWhile isBlank, all_takeWhile, takeWhile_append_dropWhile.symm⟩

theorem exists_eq_trimEnd_append (cs : List Char) : ∃ gap, allBlank gap = true ∧ cs = trimEnd cs ++ gap := by
  refine ⟨(cs.reverse.takeWhile isBlank).reverse, ?_, ?_⟩
  · rw [allBlank, all_reverse]
    exact all_takeWhile
  · rw [trimEnd, ← reverse_append, takeWhile_append_dropWhile, reverse_reverse]

theorem isBlank_of_getLast?_trimEnd (h : (trimEnd cs).getLast? = some c) : isBlank c = false := by
  have hhead := head?_dropWhile_not isBlank cs.reverse
  rw [trimEnd, getLast?_reverse] at h
  rw [h] at hhead
  exact hhead

theorem isBlank_of_head?_trim (h : (trim cs).head? = some c) : isBlank c = false := by
  obtain ⟨gap, -, hend⟩ := exists_eq_trimEnd_append (trimStart cs)
  have hhead := head?_dropWhile_not isBlank cs
  have hc : (cs.dropWhile isBlank).head? = some c := by
    rw [trim] at h
    rw [← trimStart, hend, head?_append, h]
    rfl
  rw [hc] at hhead
  exact hhead

theorem trimEnd_cons (hc : isBlank c = false) (front back : List Char) :
    trimEnd (front ++ c :: back) = front ++ c :: trimEnd back := by
  simp only [trimEnd, reverse_append, reverse_cons, append_assoc, singleton_append, dropWhile_append]
  split
  · next hempty =>
    rw [List.isEmpty_iff.mp hempty, dropWhile_cons_of_neg (by simp [hc])]
    simp
  · simp

end

end AlgoLang.Text
