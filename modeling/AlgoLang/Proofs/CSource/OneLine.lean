/-
# Pieces of one line of C

A text of one line holds no newline.  Everything that is cut out of such a text is of one line again,
and so is what comes of it if stretches give way to others that hold no more newlines than they did.
-/
import AlgoLang.CSource.Fragment
import AlgoLang.CSource.Pointer
import AlgoLang.Proofs.CSource.Quoted
import AlgoLang.Text.Line

namespace AlgoLang.Text

open List

variable {find : Finder} {sep c : Char} {r : List Char × List Char}

lemma substitute_subset {extra : List Char}
    (hfind : ∀ behind cs f, find behind cs = some f → f.instead ⊆ cs ++ extra) (cs : List Char) :
    substitute find cs ⊆ cs ++ extra := by
  have hall : ∀ (cs behind : List Char) (skip : Nat), substituteFrom find behind skip cs ⊆ cs ++ extra := by
    intro cs
    induction cs with
    | nil => exact fun _ _ => nil_subset _
    | cons c cs ih =>
      intro behind skip
      have hlater (skip : Nat) := Subset.trans (ih (c :: behind) skip) (subset_cons_self c _)
      cases skip with
      | succ n => exact hlater n
      | zero =>
        simp only [substituteFrom]
        split
        · next f hf => exact append_subset.mpr ⟨hfind behind (c :: cs) f hf, hlater f.more⟩
        · exact cons_subset.mpr ⟨mem_cons_self, hlater 0⟩
  exact hall cs [] 0

/-- The finder puts in no more characters of a kind than it takes out. -/
def Finder.Sparing (find : Finder) (p : Char → Bool) : Prop :=
  ∀ behind cs f, find behind cs = some f → f.instead.countP p ≤ (cs.take (f.more + 1)).countP p

lemma countP_substitute_le {p : Char → Bool} (hfind : find.Sparing p) (cs : List Char) :
    (substitute find cs).countP p ≤ cs.countP p := by
  have hall : ∀ (cs behind : List Char) (skip : Nat),
      (substituteFrom find behind skip cs).countP p ≤ (cs.drop skip).countP p := by
    intro cs
    induction cs with
    | nil => exact fun _ skip => Nat.zero_le _
    | cons c cs ih =>
      intro behind skip
      cases skip with
      | succ n => exact ih _ n
      | zero =>
        simp only [substituteFrom]
        split
        · next f hf =>
          rw [countP_append, drop_zero, ← take_append_drop (f.more + 1) (c :: cs), countP_append]
          exact Nat.add_le_add (hfind behind (c :: cs) f hf) (ih _ f.more)
        · rw [countP_cons, drop_zero, countP_cons]
          exact Nat.add_le_add_right (ih _ 0) _
  exact hall cs [] 0

lemma splitAt_ne_nil (sep : Char) (cs : List Char) : splitAt sep cs ≠ [] := by
  unfold splitAt
  split
  · nofun
  · split
    · nofun
    · split <;> nofun

lemma mem_of_mem_splitAt {cs ds : List Char} (h : ds ∈ splitAt sep cs) (hc : c ∈ ds) : c ∈ cs ∧ c ≠ sep := by
  induction cs generalizing ds with
  | nil =>
    obtain rfl : ds = [] := by simpa [splitAt] using h
    cases hc
  | cons d cs ih =>
    obtain ⟨first, others, hsplit⟩ := exists_cons_of_ne_nil (splitAt_ne_nil sep cs)
    rw [hsplit] at ih
    have hlater {ds : List Char} (hds : ds ∈ first :: others) (hc : c ∈ ds) : c ∈ d :: cs ∧ c ≠ sep :=
      (ih hds hc).imp_left (mem_cons_of_mem d)
    rw [splitAt, hsplit] at h
    dsimp only at h
    split at h
    · rcases mem_cons.mp h with rfl | h
      · cases hc
      · exact hlater h hc
    · next hne =>
      rcases mem_cons.mp h with rfl | h
      · rcases mem_cons.mp hc with rfl | hc
        · exact ⟨mem_cons_self, by simpa using hne⟩
        · exact hlater mem_cons_self hc
      · exact hlater (mem_cons_of_mem first h) hc

/-- The text has no newline in it. -/
def OneLine (cs : List Char) : Prop :=
  '\n' ∉ cs

instance (cs : List Char) : Decidable (OneLine cs) :=
  inferInstanceAs (Decidable ('\n' ∉ cs))

namespace OneLine

variable {cs ds : List Char}

@[simp] lemma nil : OneLine [] :=
  not_mem_nil

lemma of_subset (h : OneLine cs) (hsub : ds ⊆ cs) : OneLine ds :=
  fun hmem => h (hsub hmem)

@[simp] lemma append_iff : OneLine (cs ++ ds) ↔ OneLine cs ∧ OneLine ds := by
  simp [OneLine]

@[simp] lemma cons_iff : OneLine (c :: cs) ↔ c ≠ '\n' ∧ OneLine cs := by
  simp [OneLine, eq_comm]

lemma append (h : OneLine cs) (h' : OneLine ds) : OneLine (cs ++ ds) :=
  append_iff.mpr ⟨h, h'⟩

lemma tail (h : OneLine (c :: cs)) : OneLine cs :=
  (cons_iff.mp h).2

lemma take (h : OneLine cs) (n : Nat) : OneLine (cs.take n) :=
  h.of_subset (take_subset n cs)

lemma drop (h : OneLine cs) (n : Nat) : OneLine (cs.drop n) :=
  h.of_subset (drop_subset n cs)

lemma dropLast (h : OneLine cs) : OneLine cs.dropLast :=
  h.of_subset (dropLast_subset cs)

lemma takeWhile (h : OneLine cs) (p : Char → Bool) : OneLine (cs.takeWhile p) :=
  h.of_subset (takeWhile_subset p)

lemma dropWhile (h : OneLine cs) (p : Char → Bool) : OneLine (cs.dropWhile p) :=
  h.of_subset (dropWhile_suffix p).subset

lemma reverse (h : OneLine cs) : OneLine cs.reverse := by
  simpa [OneLine] using h

lemma trimStart (h : OneLine cs) : OneLine (trimStart cs) :=
  h.dropWhile isBlank

lemma dropEnd (h : OneLine cs) (unwanted : Char → Bool) : OneLine (dropEnd unwanted cs) :=
  (h.reverse.dropWhile unwanted).reverse

lemma trimEnd (h : OneLine cs) : OneLine (trimEnd cs) :=
  h.dropEnd isBlank

lemma trim (h : OneLine cs) : OneLine (trim cs) :=
  h.trimStart.trimEnd

lemma takeWord? {w rest : List Char} (h : OneLine cs) (hword : takeWord? cs = some (w, rest)) :
    OneLine w ∧ OneLine rest := by
  cases cs with
  | nil => cases hword
  | cons c cs =>
    simp only [takeWord?, Option.ite_none_right_eq_some, Option.some.injEq, Prod.mk.injEq] at hword
    obtain ⟨-, rfl, rfl⟩ := hword
    exact ⟨cons_iff.mpr ⟨(cons_iff.mp h).1, h.tail.takeWhile _⟩, h.tail.dropWhile _⟩

/-- The pieces between separators; a text that is cut at its newlines is cut into lines. -/
lemma of_mem_splitAt (h : OneLine cs ∨ sep = '\n') (hmem : ds ∈ splitAt sep cs) : OneLine ds := by
  intro hc
  obtain ⟨hin, hne⟩ := mem_of_mem_splitAt hmem hc
  exact h.elim (fun hcs => hcs hin) fun hsep => hne hsep.symm
end OneLine

end AlgoLang.Text

namespace AlgoLang.CSource

open Text List

/-! ## Pointers

Only blanks, commas and dots are ever added where stars, ampersands, parentheses and arrows are dropped, so that no
other character gets more frequent: neither a newline nor a letter. -/

section

variable {p : Char → Bool} {names : List (List Char)} {behind cs : List Char} {f : Found}

/-- A name lies within the stretch that gives way to it. -/
lemma firstName?_bind_stretch {fits : List Char → List Char → Option (List Char)} {ds : List Char}
    {g : List Char → List Char} (hds : ds <:+ cs) (hfits : ∀ n rest r, fits n rest = some r → r <:+ rest)
    (hg : ∀ n, (g n).countP p = n.countP p)
    (hf : ((firstName? names fits ds).bind fun (n, rest) => stretch cs rest (g n)) = some f) :
    f.instead.countP p ≤ (cs.take (f.more + 1)).countP p := by
  obtain ⟨⟨n, rest⟩, hname, hstretch⟩ := Option.bind_eq_some_iff.mp hf
  obtain ⟨m, -, hfit⟩ := exists_of_findSome?_eq_some hname
  simp only [Option.ite_none_right_eq_some, Option.map_eq_some_iff, Prod.mk.injEq, isPrefixOf_iff_prefix] at hfit
  obtain ⟨⟨ahead, rfl⟩, rest, hfit, rfl, rfl⟩ := hfit
  rw [drop_left] at hfit
  obtain ⟨between, rfl⟩ := hfits _ _ _ hfit
  obtain ⟨before, rfl⟩ := hds
  have hcs : before ++ (m ++ (between ++ rest)) = (before ++ m ++ between) ++ rest := by simp
  dsimp only [stretch] at hstretch
  rw [hcs, length_append, Nat.add_sub_cancel] at hstretch
  have hmore : f.instead = g m ∧ f.more + 1 = (before ++ m ++ between).length := by
    generalize (before ++ m ++ between).length = length at hstretch
    cases length with
    | zero => cases hstretch
    | succ k =>
      cases hstretch
      exact ⟨rfl, rfl⟩
  rw [hmore.1, hmore.2, hcs, take_left, hg, countP_append, countP_append]
  omega

lemma suffix_of_trimStart {c : Char} {ds : List Char} (h : trimStart cs = c :: ds) : ds <:+ cs :=
  (suffix_cons c ds).trans (h ▸ dropWhile_suffix isBlank)

lemma sparing_groupedDereference (names : List (List Char)) : (groupedDereference names).Sparing p := by
  intro behind cs f hf
  unfold groupedDereference at hf
  split at hf
  · split at hf
    · next hstar =>
      have hds := (suffix_of_trimStart hstar).trans (suffix_cons '(' _)
      refine firstName?_bind_stretch (g := id) ((dropWhile_suffix _).trans hds) (fun n rest r hr => ?_)
        (fun _ => rfl) hf
      split at hr
      · next hclose =>
        cases hr
        exact suffix_of_trimStart hclose
      · cases hr
    · cases hf
  · cases hf

lemma sparing_plainDereference (names : List (List Char)) : (plainDereference names).Sparing p := by
  intro behind cs f hf
  unfold plainDereference at hf
  split at hf
  · refine firstName?_bind_stretch (g := id) ((dropWhile_suffix isBlank).trans (suffix_cons '*' _))
      (fun n rest r hr => ?_) (fun _ => rfl) hf
    cases (Option.ite_none_right_eq_some.mp hr).2
    exact suffix_rfl
  · cases hf

lemma sparing_arrowAccess (hp : p '.' = false) (names : List (List Char)) : (arrowAccess names).Sparing p := by
  intro behind cs f hf
  unfold arrowAccess at hf
  split at hf
  · refine firstName?_bind_stretch (g := (· ++ ['.'])) suffix_rfl (fun n rest r hr => ?_) (fun n => ?_) hf
    · split at hr
      · next harrow =>
        cases hr
        exact (dropWhile_suffix _).trans ((suffix_cons _ _).trans (suffix_of_trimStart harrow))
      · cases hr
    · simp [hp]
  · cases hf

lemma sparing_guarded {find : Finder} (hfind : find.Sparing p) (allowed : List Char → Bool) :
    (guarded allowed find).Sparing p := by
  intro behind cs f hf
  obtain ⟨g, hg, rfl⟩ := Option.map_eq_some_iff.mp hf
  split
  · exact hfind behind cs g hg
  · exact le_rfl

lemma countP_stripDereferences_le (hp : p '.' = false) (names : List String) (cs : List Char) :
    (stripDereferences names cs).countP p ≤ cs.countP p := by
  unfold stripDereferences
  calc
    _ ≤ _ := countP_substitute_le (sparing_guarded (sparing_arrowAccess hp _) _) _
    _ ≤ _ := countP_substitute_le (sparing_guarded (sparing_plainDereference _) _) _
    _ ≤ _ := countP_substitute_le (sparing_guarded (sparing_groupedDereference _) _) cs

lemma countP_intercalate {sep : List Char} (hsep : sep.countP p = 0) (parts : List (List Char)) :
    (sep.intercalate parts).countP p = parts.flatten.countP p := by
  induction parts with
  | nil => rfl
  | cons a parts ih =>
    cases parts with
    | nil => simp
    | cons b parts =>
      rw [intercalate_cons_cons, flatten_cons, countP_append, countP_append, countP_append, ih, hsep, Nat.add_zero]

lemma flatten_splitMarked_sublist (sep : Char) (depth : Int) (ms : List (Char × Spot)) :
    (splitMarked sep depth ms).flatten <+ ms.map Prod.fst := by
  have hfirst (c : Char) (ps : List (List Char)) : (prependFirst c ps).flatten = c :: ps.flatten := by
    cases ps <;> rfl
  fun_induction splitMarked with
  | case1 => exact Sublist.slnil
  | case2 depth c ms _ ih => exact ih.cons c
  | case3 depth c ms _ ih => exact hfirst c _ ▸ ih.cons_cons c
  | case4 depth c spot ms _ ih => exact hfirst c _ ▸ ih.cons_cons c

lemma trimEnd_sublist (cs : List Char) : trimEnd cs <+ cs := by
  have hreversed := (dropWhile_sublist (l := cs.reverse) isBlank).reverse
  rwa [reverse_reverse] at hreversed

lemma trim_sublist (cs : List Char) : trim cs <+ cs :=
  (trimEnd_sublist _).trans (dropWhile_sublist _)

lemma header?_sublist {r : List Char × List Char} (h : header? cs = some r) : r.1 <+ cs ∧ r.2 <+ cs := by
  simp only [header?] at h
  split at h
  · next rest hrest =>
    obtain ⟨⟨inside, after⟩, hparens, rfl⟩ := Option.map_eq_some_iff.mp h
    have hcs := (suffix_of_trimStart hrest).sublist
    rw [closing?_eq_append hparens] at hcs
    have hinside := (sublist_append_left inside _).trans hcs
    have hafter := ((sublist_cons_self ')' after).trans (sublist_append_right inside _)).trans hcs
    exact ⟨(trim_sublist _).trans hinside, (trim_sublist _).trans hafter⟩
  · cases h

lemma withoutAddress?_sublist {arg rest : List Char} (h : withoutAddress? arg = some rest) : rest <+ arg := by
  unfold withoutAddress? at h
  split at h
  · cases h
  · next after harg =>
    cases h
    exact (trim_sublist _).trans ((sublist_cons_self _ _).trans (harg ▸ trim_sublist arg))
  · cases h

lemma passByName?_sublist {flags : List Bool} {args args' : List (List Char)}
    (h : passByName? flags args = some args') : args'.flatten <+ args.flatten := by
  simp only [passByName?, Option.ite_none_right_eq_some, Option.some.injEq] at h
  obtain ⟨-, rfl⟩ := h
  generalize 0 = start
  induction args generalizing start with
  | nil => exact Sublist.slnil
  | cons a args ih =>
    refine Sublist.append ?_ (ih (start + 1))
    dsimp only
    split
    · cases hrest : withoutAddress? a with
      | none => exact trim_sublist a
      | some rest => exact withoutAddress?_sublist hrest
    · exact trim_sublist a

lemma countP_stripAddressOf_le (hcomma : p ',' = false) (hblank : p ' ' = false) (byPointer : Keyed (List Bool))
    (cs : List Char) : (stripAddressOf byPointer cs).countP p ≤ cs.countP p := by
  have hcall (call : List Char × Nat) (cs : List Char) : (stripCall byPointer call cs).countP p ≤ cs.countP p := by
    unfold stripCall
    split
    · next flags inside after _ hparens =>
      split
      · next args hargs =>
        have hsplit := flatten_splitMarked_sublist ',' 0 (marked inside)
        rw [map_fst_marked] at hsplit
        have hinside : args.flatten.countP p ≤ inside.countP p := ((passByName?_sublist hargs).trans hsplit).countP_le
        have hsep : [',', ' '].countP p = 0 := by simp [hcomma, hblank]
        conv_rhs => rw [← take_append_drop (call.2 + 1) cs, closing?_eq_append hparens]
        simp only [countP_append, countP_intercalate hsep]
        omega
      · exact le_rfl
    · exact le_rfl
  unfold stripAddressOf
  induction callsFrom .code none 0 cs with
  | nil => exact le_rfl
  | cons call calls ih => exact (hcall call _).trans ih

end

end AlgoLang.CSource

namespace AlgoLang.Text.OneLine

open CSource List

variable {cs : List Char}

lemma splitTopLevel {p : List Char} (h : OneLine cs) (hp : p ∈ splitTopLevel sep cs) : OneLine p :=
  h.of_subset (infix_of_mem_splitTopLevel hp).subset

lemma parenthesised? (h : OneLine cs) (hr : parenthesised? cs = some r) : OneLine r.1 ∧ OneLine r.2 := by
  rw [closing?_eq_append hr, append_iff] at h
  exact ⟨h.1, h.2.tail⟩

/-! ## Pointers -/

lemma of_countP_le {ds : List Char} (h : OneLine cs) (hle : ds.countP (· == '\n') ≤ cs.countP (· == '\n')) :
    OneLine ds :=
  count_eq_zero.mp (Nat.le_zero.mp (count_eq_zero.mpr h ▸ hle))

lemma stripDereferences (names : List String) (h : OneLine cs) : OneLine (stripDereferences names cs) :=
  h.of_countP_le (countP_stripDereferences_le (by decide) names cs)

lemma stripAddressOf (byPointer : Keyed (List Bool)) (h : OneLine cs) : OneLine (stripAddressOf byPointer cs) :=
  h.of_countP_le (countP_stripAddressOf_le (by decide) (by decide) byPointer cs)

lemma intercalate {sep : List Char} {parts : List (List Char)} (hsep : OneLine sep)
    (hparts : ∀ p ∈ parts, OneLine p) : OneLine (sep.intercalate parts) := by
  have hflatten : OneLine parts.flatten := by simpa [OneLine] using hparts
  exact hflatten.of_countP_le (countP_intercalate (count_eq_zero.mpr hsep) parts).le

end AlgoLang.Text.OneLine
