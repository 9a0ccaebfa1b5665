/-
# Readings come to an end

A reader never goes back and never beyond the end of the text, and what has to be there takes a token.  An item that
makes way for others without taking a token makes way for lower ones, so an item comes up inside its own reading only
with fewer tokens left.
-/
import AlgoLang.Proofs.Agenda.Closing
import AlgoLang.Proofs.Ensures

namespace AlgoLang

open List

variable {α : Type} {i : Item} {k : TokenKind} {toks toks' : List Token} {next : List Item}

lemma Runs.suffix {c d : Stage} (h : Runs c d) : d.2 <:+ c.2 := by
  obtain ⟨before, heq, -⟩ := h.foresight
  exact ⟨before, heq.symm⟩

/-! ## Readers -/

/-- What the reader gives it has read from at least one token, and the tokens behind it are left. -/
def Progresses (read : (toks : List Token) → Reading α toks) : Prop :=
  ∀ toks taken, read toks = .ok taken → ∃ t before, toks = t :: (before ++ taken.rest)

lemma Progresses.of_follows {read : (toks : List Token) → Reading α toks} {agenda : List Item}
    (h : ∀ toks, Follows Taken.rest agenda toks (read toks)) : Progresses read := by
  intro toks taken htaken
  have hrun := h toks
  rw [htaken] at hrun
  obtain ⟨before, heq⟩ := Runs.suffix hrun
  cases before with
  | nil => exact absurd (congrArg length heq) (Nat.ne_of_lt taken.shorter)
  | cons t before => exact ⟨t, before, heq.symm⟩

/-- Every declaration of variables takes a token. -/
lemma TypeExpr.length_parseFields (last : Token) (toks : List Token) :
    Ensures (parseFields last toks) fun r => r.value.length + r.rest.length ≤ toks.length := by
  rw [parseFields]
  split
  · exact .ok (by simp [Held.stay])
  · next first last toks₁ h₁ _ =>
    refine .bind' fun more => .bind' fun colon => .bind' fun type => ?_
    obtain ⟨more, _, toks₂, h₂⟩ := more
    obtain ⟨_, _, toks₃, h₃⟩ := colon
    obtain ⟨type, last, toks₄, h₄⟩ := type
    have hlt : toks₄.length < toks₁.length := (h₄.trans h₃).trans_le h₂
    dsimp only
    obtain ⟨_, last, toks₅, h₅⟩ := Reading.skip (.mark .semicolon) last toks₄
    refine (length_parseFields last toks₅).bind fun decls hdecls => .ok ?_
    show decls.value.length + 1 + decls.rest.length ≤ toks.length
    omega
termination_by toks.length

/-! ## Nested readings -/

namespace Item

lemma height_le (i : Item) : i.height ≤ 12 := by
  cases i with
  | level l => cases l <;> decide
  | _ => simp [height]

lemma stmtMove_ne_keep : stmtMove k ≠ .keep next := by
  unfold stmtMove
  split <;> simp

/-- Without a token an item makes way for lower ones; only a list of statements comes back, behind a statement. -/
lemma height_lt_of_keep (h : i.move k = .keep next) :
    (∀ j ∈ next, j.height < i.height) ∨ i = stmts ∧ next = [stmt, stmts] := by
  cases i with
  | stmt => exact absurd h stmtMove_ne_keep
  | level l =>
    cases h
    exact .inl (by cases l <;> decide)
  | stmts =>
    simp only [move] at h
    repeat' split at h
    all_goals cases h
    · exact .inl (forall_mem_nil _)
    · exact .inr ⟨rfl, rfl⟩
  | _ =>
    simp only [move, typeMove, sectionsMove, routinesMove] at h
    repeat' split at h
    all_goals
      cases h
      try exact .inl (by simp [height, Expr.Level.rank])

end Item

/-- While the first item is read from its tokens, the second one is read from its own as a part of it. -/
def Nests (c d : Item × List Token) : Prop :=
  ∃ front back toks, Step ([c.1], c.2) (front ++ d.1 :: back, toks) ∧ Runs (front, toks) ([], d.2)

/-- Fewer tokens are left, or no more and the item is lower. -/
def Below (c d : Item × List Token) : Prop :=
  d.2 <:+ c.2 ∧ (d.2.length < c.2.length ∨ d.1.height < c.1.height)

lemma Below.trans {a b c : Item × List Token} (h : Below a b) (h' : Below b c) : Below a c := by
  have hle := h.1.length_le
  have hle' := h'.1.length_le
  exact ⟨h'.1.trans h.1, by have := h.2; have := h'.2; omega⟩

lemma length_lt_of_runs_stmt (h : Runs ([.stmt], toks) ([], toks')) : toks'.length < toks.length := by
  rcases h.cases_head with h | ⟨d, hstep, hrun⟩
  · cases h
  · cases hstep with
    | take => exact Nat.lt_succ_of_le (Runs.suffix hrun).length_le
    | keep hm => exact absurd hm Item.stmtMove_ne_keep

lemma Nests.below {c d : Item × List Token} (h : Nests c d) : Below c d := by
  obtain ⟨i, toks⟩ := c
  obtain ⟨j, left⟩ := d
  obtain ⟨front, back, toks', hstep, hrun⟩ := h
  have hsuffix : left <:+ toks' := Runs.suffix hrun
  dsimp only at hstep
  generalize hnext : front ++ j :: back = next at hstep
  cases hstep with
  | take => exact ⟨hsuffix.trans (suffix_cons _ _), .inl (Nat.lt_succ_of_le hsuffix.length_le)⟩
  | keep hm =>
    refine ⟨hsuffix, ?_⟩
    rw [append_nil] at hnext
    subst hnext
    rcases Item.height_lt_of_keep hm with hlower | ⟨rfl, hstmts⟩
    · exact .inr (hlower j (by simp))
    · cases front with
      | nil =>
        obtain ⟨rfl, -⟩ := cons.inj hstmts
        exact .inr (Nat.lt_succ_self 11)
      | cons f front =>
        obtain ⟨rfl, hrest⟩ := cons.inj hstmts
        obtain rfl : front = [] := by
          cases front <;> simp_all
        exact .inl (length_lt_of_runs_stmt hrun)

lemma length_le_of_isChain {c : Item × List Token} {cs : List (Item × List Token)} (h : (c :: cs).IsChain Nests) :
    cs.length ≤ 13 * c.2.length + c.1.height := by
  induction cs generalizing c with
  | nil => exact Nat.zero_le _
  | cons d cs ih =>
    rw [isChain_cons_cons] at h
    have hlength := ih h.2
    obtain ⟨hsuffix, hbelow⟩ := h.1.below
    have hle := hsuffix.length_le
    have hheight := d.1.height_le
    rw [length_cons]
    omega

/-- **Readings come to an end.**

* The reader of programs goes the way of the machine, and in no run of the machine the tokens that are left are
  others than the last ones.
* A statement, a branch, an expression, a type and a target take at least one token, and so does each declaration.
* If each reading of a chain is a part of the one before, the chain is no longer than the tokens allow, and no item
  comes up a second time with as many tokens left. -/
theorem readers_advance (toks : List Token) :
    Follows Taken.rest programAgenda toks (Program.parse toks) ∧
    (∀ c, Runs (programAgenda, toks) c → c.2 <:+ toks ∧ ∀ d, Runs c d → d.2 <:+ c.2) ∧
    (Progresses Stmt.parse ∧ Progresses Stmt.parseBranch ∧ Progresses Expr.parse ∧ Progresses TypeExpr.parse ∧
      Progresses Expr.parseTarget ∧ ∀ last, Ensures (TypeExpr.parseFields last toks) fun r =>
        r.rest <:+ toks ∧ r.value.length + r.rest.length ≤ toks.length) ∧
    ∀ i cs, ((i, toks) :: cs).IsChain Nests → cs.length ≤ 13 * toks.length + 12 ∧
      ((i, toks) :: cs).Pairwise fun a b => b.2 <:+ a.2 ∧ (b.1 = a.1 → b.2.length < a.2.length) := by
  refine ⟨Program.parse_follows toks, fun c hc => ⟨hc.suffix, fun d hd => hd.suffix⟩, ⟨.of_follows Stmt.parse_follows,
    .of_follows Stmt.parseBranch_follows, .of_follows Expr.parse_follows, .of_follows TypeExpr.parse_follows,
    .of_follows Expr.parseTarget_follows, fun last r hr => ⟨?_, TypeExpr.length_parseFields last toks r hr⟩⟩,
    fun i cs h => ⟨?_, ?_⟩⟩
  · have hrun := TypeExpr.parseFields_follows last toks
    rw [hr] at hrun
    exact Runs.suffix hrun
  · exact (length_le_of_isChain h).trans (Nat.add_le_add_left i.height_le _)
  · have : IsTrans _ Below := ⟨fun _ _ _ => Below.trans⟩
    refine (isChain_iff_pairwise.mp (h.imp fun _ _ => Nests.below)).imp fun hbelow => ⟨hbelow.1, fun heq => ?_⟩
    exact hbelow.2.resolve_right (by simp [heq])

theorem readers_advance_signs : ∃ (minus : Token) (cs : List (Item × List Token)),
    ((Item.signed, [minus, minus]) :: cs).IsChain Nests ∧ cs = [(.signed, [minus]), (.signed, [])] ∧
      ((Item.signed, [minus, minus]) :: cs).Pairwise fun a b => b.2 <:+ a.2 ∧ (b.1 = a.1 → b.2.length < a.2.length) := by
  let minus : Token := ⟨.mark .minus, "-", { line := 1, column := 1 }, 1⟩
  have hstep (rest : List Token) : Step ([.signed], minus :: rest) ([.signed] ++ [], rest) := .take rfl rfl
  have hnests (rest : List Token) : Nests (.signed, minus :: rest) (.signed, rest) := ⟨[], [], rest, hstep rest, .refl⟩
  have hchain : IsChain Nests [(Item.signed, [minus, minus]), (.signed, [minus]), (.signed, [])] :=
    .cons_cons (hnests _) (.cons_cons (hnests _) (.singleton _))
  exact ⟨minus, _, hchain, rfl, ((readers_advance [minus, minus]).2.2.2 .signed _ hchain).2⟩

end AlgoLang
