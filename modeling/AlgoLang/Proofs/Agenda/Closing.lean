/-
# A fault stands where the text first cannot be completed

Every item has a shortest text that closes it.  An agenda fits if no item is carried on by what closes the
items behind it, and every move keeps this.  So an agenda that comes up in a reading can be closed item by
item, and the token at which a reading stops is the first one with which the tokens so far begin no program.
-/
import AlgoLang.Proofs.Agenda.Program
import AlgoLang.Proofs.Grammar.ExprComplete
import AlgoLang.Proofs.Token.Tiling

namespace AlgoLang

open List Item

open Grammar (binds)

variable {k k' : TokenKind} {i : Item} {toks : List Token} {agenda : List Item}

/-- What takes the place of the item has the property. -/
def Move.Leaves (m : Move) (P : List Item → Prop) : Prop :=
  match m with
  | .take next | .keep next => P next
  | .refuse _ => True

namespace Item

/-! ## Closing an item -/

/-- The kinds of the tokens of a shortest text that closes the item. -/
def close : Item → List TokenKind
  | token _ kind => [kind]
  | level _ | power | signed | primary | exprs | targets | type | stmt | branch => [.identifier]
  | arguments | params => [.mark .rparen]
  | constant => [.keyword .true_]
  | number => [.real]
  | dimensions => [.identifier, .mark .rbracket]
  | param | paramList => [.identifier, .mark .colon, .identifier]
  | optional _ | moreNames _ | more _ | exponent | afterName | suffixes | moreExprs | moreTargets
  | moreDimensions | fields | afterTarget | elsePart | stmts | cases | defaultPart | stepPart | constants
  | types | sections | moreParams | routines => []

/-- The kinds of tokens that can carry on an expression or a list of them. -/
def carriesExpr (k : TokenKind) : Bool :=
  binds k != 0 || k == .mark .comma || k == .keyword .step

/-- The kinds of tokens that can carry on a statement. -/
def carriesStmt (k : TokenKind) : Bool :=
  carriesExpr k || k == .mark .assign || k == .keyword .else_ || k == .keyword .case_ || k == .keyword .default_

/-- The kinds of tokens that can carry on declarations or routines. -/
def carriesDeclarations (k : TokenKind) : Bool :=
  k == .identifier || k == .mark .semicolon || k == .keyword .const_ || k == .keyword .type_ ||
    k == .keyword .var || k == .keyword .function || k == .keyword .procedure

/-- A token of this kind, behind a text that closes the item, may be taken for a part of it.  A list of
statements is only closed before `END`. -/
def carriedOnBy (i : Item) (k : TokenKind) : Bool :=
  match i with
  | token .. | arguments | constant | number | type | param | params => false
  | optional kind => k == kind
  | moreNames _ | paramList | moreParams => k == .mark .comma
  | dimensions | moreDimensions => k == .mark .lbracket
  | level _ | more _ | power | exponent | signed | primary | afterName | suffixes | exprs | moreExprs
  | targets | moreTargets | stepPart => carriesExpr k
  | stmt | afterTarget | branch | elsePart | cases | defaultPart => carriesStmt k
  | stmts => k != .keyword .end_
  | fields | constants | types | sections | routines => carriesDeclarations k

/-- The kind of the token that the closing text of an agenda starts with, if `k` stands behind it. -/
def lead (k : TokenKind) : List Item → TokenKind
  | [] => k
  | i :: agenda => (close i).headD (lead k agenda)

/-- No item is carried on by what closes the items behind it, or by `k` behind them all. -/
def Fits (k : TokenKind) : List Item → Prop
  | [] => True
  | i :: agenda => i.carriedOnBy (lead k agenda) = false ∧ Fits k agenda

@[simp] lemma fits_nil (k : TokenKind) : Fits k [] := trivial

@[simp] lemma fits_cons : Fits k (i :: agenda) ↔ i.carriedOnBy (lead k agenda) = false ∧ Fits k agenda := .rfl

lemma lead_append (k : TokenKind) (next agenda : List Item) :
    lead k (next ++ agenda) = lead (lead k agenda) next := by
  induction next with
  | nil => rfl
  | cons i next ih => rw [cons_append, lead, ih, lead]

lemma fits_append {next : List Item} : Fits k (next ++ agenda) ↔ Fits (lead k agenda) next ∧ Fits k agenda := by
  induction next with
  | nil => simp
  | cons i next ih => rw [cons_append, fits_cons, fits_cons, ih, lead_append, and_assoc]

lemma leaves_ite {c : Prop} [Decidable c] {m m' : Move} {P : List Item → Prop} (h : m.Leaves P)
    (h' : m'.Leaves P) : Move.Leaves (if c then m else m') P := by
  split
  · exact h
  · exact h'

lemma not_semicolon_of_carriesDeclarations (h : carriesDeclarations k = false) : (k == .mark .semicolon) = false := by
  simp only [carriesDeclarations, Bool.or_eq_false_iff] at h
  exact h.1.1.1.1.1.2

lemma fits_stmtMove (hk : carriesStmt k = false) (ahead : TokenKind) : (stmtMove ahead).Leaves (Fits k) := by
  unfold stmtMove
  split
  · exact ⟨rfl, rfl, rfl, rfl, hk, hk, trivial⟩
  · exact ⟨rfl, rfl, rfl, rfl, hk, trivial⟩
  · exact ⟨rfl, rfl, rfl, rfl, rfl, trivial⟩
  · exact ⟨rfl, rfl, rfl, rfl, rfl, rfl, rfl, hk, trivial⟩
  · exact ⟨rfl, rfl, rfl, rfl, rfl, trivial⟩
  · exact ⟨rfl, rfl, trivial⟩
  · exact ⟨rfl, rfl, rfl, trivial⟩
  · exact ⟨rfl, rfl, rfl, trivial⟩
  · exact ⟨rfl, rfl, rfl, trivial⟩
  · exact ⟨hk, trivial⟩
  · trivial

lemma fits_typeMove (ahead : TokenKind) : (typeMove ahead).Leaves (Fits k) := by
  unfold typeMove
  split
  · exact ⟨rfl, rfl, rfl, rfl, trivial⟩
  · exact ⟨rfl, rfl, rfl, trivial⟩
  · exact ⟨rfl, rfl, rfl, trivial⟩
  · trivial
  · exact leaves_ite trivial trivial

lemma fits_sectionsMove (hk : carriesDeclarations k = false) (ahead : TokenKind) :
    (sectionsMove ahead).Leaves (Fits k) := by
  unfold sectionsMove
  split
  · exact ⟨hk, hk, trivial⟩
  · exact ⟨hk, hk, trivial⟩
  · exact ⟨hk, hk, trivial⟩
  · trivial

lemma fits_routinesMove (hk : carriesDeclarations k = false) (ahead : TokenKind) :
    (routinesMove ahead).Leaves (Fits k) := by
  have hs := not_semicolon_of_carriesDeclarations hk
  unfold routinesMove
  split
  · exact ⟨rfl, rfl, rfl, rfl, rfl, rfl, rfl, rfl, rfl, hs, hk, trivial⟩
  · exact ⟨rfl, rfl, rfl, rfl, rfl, rfl, rfl, hs, hk, trivial⟩
  · trivial

/-- What takes the place of an item fits where the item did. -/
lemma fits_move (hk : i.carriedOnBy k = false) (ahead : TokenKind) : (i.move ahead).Leaves (Fits k) := by
  cases i with
  | token | optional | number => exact leaves_ite trivial trivial
  | moreNames wanted => exact leaves_ite ⟨rfl, hk, trivial⟩ trivial
  | level l => exact ⟨by cases l <;> exact hk, hk, trivial⟩
  | more l => exact leaves_ite ⟨by cases l <;> exact hk, hk, trivial⟩ trivial
  | power | exprs => exact ⟨hk, hk, trivial⟩
  | exponent | moreExprs | moreTargets | moreDimensions | elsePart | stepPart | moreParams =>
    exact leaves_ite ⟨hk, trivial⟩ trivial
  | signed => exact leaves_ite ⟨hk, trivial⟩ ⟨hk, trivial⟩
  | primary => exact leaves_ite ⟨rfl, rfl, trivial⟩ (leaves_ite ⟨hk, trivial⟩ (leaves_ite trivial trivial))
  | afterName => exact leaves_ite ⟨rfl, hk, trivial⟩ ⟨hk, trivial⟩
  | suffixes => exact leaves_ite ⟨rfl, rfl, hk, trivial⟩ (leaves_ite ⟨rfl, hk, trivial⟩ trivial)
  | arguments | params => exact leaves_ite trivial ⟨rfl, rfl, trivial⟩
  | targets => exact ⟨rfl, hk, hk, trivial⟩
  | constant => exact leaves_ite ⟨rfl, trivial⟩ (leaves_ite trivial trivial)
  | dimensions => exact ⟨rfl, rfl, hk, trivial⟩
  | type => exact fits_typeMove ahead
  | fields => exact leaves_ite ⟨rfl, rfl, rfl, not_semicolon_of_carriesDeclarations hk, hk, trivial⟩ trivial
  | stmt => exact fits_stmtMove hk ahead
  | afterTarget =>
    have he : carriesExpr k = false := by simp_all [carriedOnBy, carriesStmt]
    exact leaves_ite ⟨rfl, rfl, he, trivial⟩ (leaves_ite ⟨he, trivial⟩ (leaves_ite ⟨rfl, trivial⟩ trivial))
  | branch => exact leaves_ite ⟨rfl, rfl, trivial⟩ ⟨hk, trivial⟩
  | stmts =>
    obtain rfl : k = .keyword .end_ := by simpa [carriedOnBy] using hk
    exact leaves_ite trivial (leaves_ite ⟨rfl, trivial⟩ ⟨rfl, rfl, trivial⟩)
  | cases => exact leaves_ite ⟨rfl, rfl, hk, hk, trivial⟩ trivial
  | defaultPart => exact leaves_ite ⟨rfl, hk, trivial⟩ trivial
  | constants | types =>
    exact leaves_ite ⟨rfl, rfl, not_semicolon_of_carriesDeclarations hk, hk, trivial⟩ trivial
  | sections => exact fits_sectionsMove hk ahead
  | param => exact ⟨rfl, rfl, rfl, rfl, trivial⟩
  | paramList => exact ⟨rfl, hk, trivial⟩
  | routines => exact fits_routinesMove hk ahead

/-! ## Closing an agenda -/

lemma ne_of_not_carriedOnBy (h : i.carriedOnBy k = false) (h' : i.carriedOnBy k') : k ≠ k' := by
  rintro rfl
  rw [h] at h'
  cases h'

lemma op?_eq_none_of_carriesExpr {l : Expr.Level} (h : carriesExpr k = false) : l.op? k = none := by
  unfold Expr.Level.op?
  split
  all_goals first | rfl | cases h

/-- How many times the item makes way for others while no token is taken, or while its closing text is read. -/
def height : Item → Nat
  | level l => 4 + l.rank
  | power => 4
  | signed | params => 3
  | primary | paramList => 2
  | afterName | targets | param => 1
  | exprs | dimensions | afterTarget => 10
  | arguments | stmt => 11
  | branch | stmts => 12
  | _ => 0

/-- On its closing text an item makes way for lower ones that are closed by the same text, or takes the
first token of it and makes way for lower ones that are closed by the others. -/
def Opens (i : Item) (k : TokenKind) (next : List Item) : Prop :=
  (∀ j ∈ next, j.height < i.height) ∧ (i.move (lead k [i]) = .keep next ∧ i.close = next.flatMap close ∨
      ∃ k', i.move k' = .take next ∧ i.close = k' :: next.flatMap close)

lemma opens_pass (hclose : i.close = []) (hm : i.move k = .keep []) : Opens i k [] := by
  refine ⟨by simp, .inl ⟨?_, by simpa using hclose⟩⟩
  rw [lead, hclose]
  exact hm

lemma opens_take (hclose : i.close = [k']) (hm : i.move k' = .take []) : Opens i k [] :=
  ⟨by simp, .inr ⟨k', hm, by simpa using hclose⟩⟩

lemma exists_opens (hk : i.carriedOnBy k = false) : ∃ next, Opens i k next := by
  cases i with
  | token wanted kind => exact ⟨_, opens_take rfl (if_pos rfl)⟩
  | optional | moreNames | moreDimensions | moreParams =>
    exact ⟨_, opens_pass rfl (if_neg (by simpa [carriedOnBy] using hk))⟩
  | exponent | moreExprs | moreTargets | fields | elsePart | cases | defaultPart | stepPart | constants | types =>
    exact ⟨_, opens_pass rfl (if_neg (ne_of_not_carriedOnBy hk rfl))⟩
  | level l =>
    refine ⟨[operand l, more l], ?_, .inl ⟨rfl, ?_⟩⟩
    · cases l <;> decide
    · cases l <;> rfl
  | more l =>
    refine ⟨_, opens_pass rfl (if_neg ?_)⟩
    rw [op?_eq_none_of_carriesExpr hk]
    nofun
  | power => exact ⟨[signed, exponent], by decide, .inl ⟨rfl, rfl⟩⟩
  | signed => exact ⟨[primary], by decide, .inl ⟨rfl, rfl⟩⟩
  | primary => exact ⟨[afterName], by decide, .inr ⟨.identifier, rfl, rfl⟩⟩
  | afterName => exact ⟨[suffixes], by decide, .inl ⟨if_neg (ne_of_not_carriedOnBy hk rfl), rfl⟩⟩
  | suffixes =>
    exact ⟨_, opens_pass rfl ((if_neg (ne_of_not_carriedOnBy hk rfl)).trans (if_neg (ne_of_not_carriedOnBy hk rfl)))⟩
  | exprs => exact ⟨[expr, moreExprs], by decide, .inl ⟨rfl, rfl⟩⟩
  | arguments | constant | number | type | params => exact ⟨_, opens_take rfl rfl⟩
  | targets => exact ⟨[token .identifier .identifier, suffixes, moreTargets], by decide, .inl ⟨rfl, rfl⟩⟩
  | dimensions => exact ⟨[expr, token .bracket (.mark .rbracket), moreDimensions], by decide, .inl ⟨rfl, rfl⟩⟩
  | stmt => exact ⟨[afterTarget], by decide, .inr ⟨.identifier, rfl, rfl⟩⟩
  | afterTarget =>
    refine ⟨_, opens_pass rfl ?_⟩
    rw [move, if_neg (not_or.mpr ⟨ne_of_not_carriedOnBy hk rfl, ne_of_not_carriedOnBy hk rfl⟩),
      if_neg (ne_of_not_carriedOnBy hk rfl), if_neg (ne_of_not_carriedOnBy hk rfl)]
  | branch => exact ⟨[stmt], by decide, .inl ⟨rfl, rfl⟩⟩
  | stmts =>
    obtain rfl : k = .keyword .end_ := by simpa [carriedOnBy] using hk
    exact ⟨_, opens_pass rfl rfl⟩
  | sections =>
    refine ⟨_, opens_pass rfl (sectionsMove.eq_4 k ?_ ?_ ?_)⟩
    all_goals exact ne_of_not_carriedOnBy hk rfl
  | param =>
    exact ⟨[optional (.keyword .var), token .paramName .identifier,
      token .colonAfterParam (.mark .colon), type], by decide, .inl ⟨rfl, rfl⟩⟩
  | paramList => exact ⟨[param, moreParams], by decide, .inl ⟨rfl, rfl⟩⟩
  | routines =>
    refine ⟨_, opens_pass rfl (routinesMove.eq_3 k ?_ ?_)⟩
    all_goals exact ne_of_not_carriedOnBy hk rfl

end Item

def tokenOf (k : TokenKind) : Token :=
  .onFirstLine k "0" 0

lemma exists_literal?_tokenOf (k : TokenKind) : ∃ e, Expr.literal? (tokenOf k) = .ok e := by
  refine Grammar.exists_literal?_iff.mpr fun _ => ?_
  change "0".length ≤ maxDigits
  decide

def closing (agenda : List Item) : List Token :=
  (agenda.flatMap close).map tokenOf

lemma ahead_closing (agenda : List Item) (toks : List Token) :
    ahead (closing agenda ++ toks) = lead (ahead toks) agenda := by
  induction agenda with
  | nil => rfl
  | cons i agenda ih =>
    rw [lead, ← ih]
    simp only [closing, flatMap_cons, map_append, append_assoc]
    cases i.close <;> rfl

/-- The closing text of an agenda is read, if that of every item is. -/
lemma runs_closing_of_forall (hall : ∀ i ∈ agenda, ∀ toks, i.carriedOnBy (ahead toks) = false →
      Runs ([i], closing [i] ++ toks) ([], toks)) (h : Item.Fits (ahead toks) agenda) :
    Runs (agenda, closing agenda ++ toks) ([], toks) := by
  induction agenda with
  | nil => exact .refl
  | cons i agenda ih =>
    rw [fits_cons, ← ahead_closing] at h
    have hfirst := (hall i mem_cons_self _ h.1).behind agenda
    have hlater := ih (fun j hj => hall j (mem_cons_of_mem i hj)) h.2
    have heq : closing (i :: agenda) ++ toks = closing [i] ++ (closing agenda ++ toks) := by simp [closing]
    rw [heq]
    exact hfirst.trans hlater

/-- The closing text of an item is read to its end, and nothing behind it. -/
lemma runs_closing_item (i : Item) (toks : List Token) (hk : i.carriedOnBy (ahead toks) = false) :
    Runs ([i], closing [i] ++ toks) ([], toks) := by
  obtain ⟨next, hlower, hopens⟩ := exists_opens hk
  have hlater : Item.Fits (ahead toks) next → Runs (next, closing next ++ toks) ([], toks) :=
    runs_closing_of_forall fun j hj => have := hlower j hj; runs_closing_item j
  rcases hopens with ⟨hm, hclose⟩ | ⟨k', hm, hclose⟩
  · have hfits := fits_move hk (lead (ahead toks) [i])
    rw [hm] at hfits
    rw [← ahead_closing] at hm
    have hsame : closing [i] = closing next := by simp [closing, hclose]
    refine .head (.keep hm) ?_
    rw [hsame, append_nil]
    exact hlater hfits
  · have hfits := fits_move hk k'
    rw [hm] at hfits
    obtain ⟨e, he⟩ := exists_literal?_tokenOf k'
    have hfirst : closing [i] = tokenOf k' :: closing next := by simp [closing, hclose]
    rw [hfirst]
    refine .head (.take hm he) ?_
    rw [append_nil]
    exact hlater hfits
termination_by i.height

lemma Runs.fits {c d : Stage} (h : Runs c d) (hc : Item.Fits k c.1) : Item.Fits k d.1 := by
  induction h with
  | refl => exact hc
  | tail _ hstep ih =>
    cases hstep with
    | @take i _ _ t _ _ hm _ =>
      have hnext := fits_move ih.1 t.kind
      rw [hm] at hnext
      exact fits_append.mpr ⟨hnext, ih.2⟩
    | @keep i _ _ toks hm =>
      have hnext := fits_move ih.1 (ahead toks)
      rw [hm] at hnext
      exact fits_append.mpr ⟨hnext, ih.2⟩

/-! ## Where a fault stands -/

namespace Program

/-- The tokens before a fault begin some program.  No program begins with them and a token of the kind
that the fault is at. -/
lemma parse_eq_error_unexpected {wanted : Wanted} {found : Option Token}
    (h : parse toks = .error (.unexpected wanted found)) :
    ∃ before after, toks = before ++ after ∧ found = after.head? ∧
      (∃ rest taken, parse (before ++ rest) = .ok taken) ∧
      ∀ toks', ahead toks' = ahead after → ¬∃ taken, parse (before ++ toks') = .ok taken := by
  have hfollows := parse_follows toks
  rw [h] at hfollows
  obtain ⟨⟨agenda, after⟩, hrun, hstop⟩ := hfollows
  obtain ⟨before, rfl, -, ⟨agenda', hagenda⟩, hagain⟩ := hrun.foresight
  refine ⟨before, after, rfl, ?_⟩
  cases hstop with
  | unreadable _ he =>
    obtain ⟨fault, hfault⟩ := (Expr.literal?_eq_error he).2
    cases hfault
  | @refuse i below _ _ hm =>
    refine ⟨rfl, ⟨closing agenda', ?_⟩, ?_⟩
    · have hfits := (hagenda []).fits (k := .eof) ⟨rfl, rfl, rfl, rfl, rfl, rfl, rfl, rfl, trivial⟩
      have hclose : Runs (agenda', closing agenda' ++ []) ([], []) :=
        runs_closing_of_forall (fun i _ => runs_closing_item i) hfits
      rw [append_nil] at hclose
      obtain ⟨taken, htaken, -⟩ := parse_of_runs ((hagenda (closing agenda')).trans hclose)
      exact ⟨taken, htaken⟩
    · rintro toks' hahead ⟨taken, hok⟩
      rw [← hahead] at hm
      rw [parse_of_stops (hagain toks' hahead) (.refuse hm)] at hok
      cases hok

/-- A complete list of tokens, the end of the text included, that is read as a program. -/
def Accepted (toks : List Token) : Prop :=
  ∃ scanned source program, Token.Scanned.all scanned = toks ∧ scanned.eof.kind = .eof ∧
    ofScanned scanned source = .ok (.ok program)

lemma accepted_iff {eof : Token} (heof : eof.kind = .eof) :
    Accepted (toks ++ [eof]) ↔ ∃ taken, parse toks = .ok taken := by
  constructor
  · rintro ⟨scanned, source, program, hall, -, hok⟩
    obtain ⟨rfl, -⟩ := append_inj' hall rfl
    unfold ofScanned at hok
    split at hok
    · next taken htaken => exact ⟨taken, htaken⟩
    · cases hok
    · cases hok
  · rintro ⟨taken, htaken⟩
    refine ⟨⟨toks, eof, []⟩, "", taken.value, rfl, heof, ?_⟩
    simp [ofScanned, htaken]

lemma Accepted.exists_eq (h : Accepted toks) : ∃ front eof, toks = front ++ [eof] ∧ eof.kind = .eof := by
  obtain ⟨scanned, -, -, rfl, heof, -⟩ := h
  exact ⟨scanned.tokens, scanned.eof, rfl, heof⟩

/-- If no program goes on with a token of this kind, no complete list of tokens goes on with it. -/
lemma not_accepted_append {before : List Token} {t : Token}
    (h : ∀ toks, ahead toks = t.kind → ¬∃ taken, parse (before ++ toks) = .ok taken) (rest : List Token) :
    ¬Accepted (before ++ t :: rest) := by
  intro haccepted
  obtain ⟨front, eof, heq, heof⟩ := haccepted.exists_eq
  rw [heq, accepted_iff heof] at haccepted
  rcases eq_nil_or_concat rest with rfl | ⟨rest', last, rfl⟩
  · -- The token is the end of the text itself.
    obtain ⟨rfl, hlast⟩ := append_inj' heq rfl
    cases hlast
    rw [← append_nil before] at haccepted
    exact h [] heof.symm haccepted
  · have heq : before ++ t :: rest' ++ [last] = front ++ [eof] := by simpa using heq
    obtain ⟨rfl, -⟩ := append_inj' heq rfl
    exact h (t :: rest') rfl haccepted

/-- The one fault of a reading is placed exactly.  It names the token with some number `k` and stands
where that token starts, and the first `n` tokens are the front of some list of tokens that is read as a
program just if `n` is at most `k`: with the token itself, no list begins. -/
theorem fault_placed (scanned : Token.Scanned) (source : String) (heof : scanned.eof.kind = .eof)
    {d : Diagnostic} (h : ofScanned scanned source = .ok (.error d)) :
    ∃ (k : Nat) (t : Token) (wanted : Wanted), scanned.all[k]? = some t ∧ d.location = t.start ∧
      d.message = s!"Expected {wanted.text}, got '{t.describe}'" ∧
      ∀ n, (∃ rest, Accepted (scanned.all.take n ++ rest)) ↔ n ≤ k := by
  obtain ⟨wanted, found, hparse, rfl⟩ : ∃ wanted found,
      parse scanned.tokens = .error (.unexpected wanted found) ∧
      unexpected (Text.splitLines source.toList) scanned.eof wanted found = d := by
    unfold ofScanned at h
    split at h
    · cases h
    · cases h
    · next wanted found hparse =>
      cases h
      exact ⟨wanted, found, hparse, rfl⟩
  obtain ⟨before, after, htoks, rfl, ⟨rest, hrest⟩, hnone⟩ := parse_eq_error_unexpected hparse
  -- The token that the fault is at, and those behind it.
  obtain ⟨t, behind, hbehind, ht, hkind⟩ : ∃ t behind, after ++ [scanned.eof] = t :: behind ∧
      after.head?.getD scanned.eof = t ∧ t.kind = ahead after := by
    cases after with
    | nil => exact ⟨_, _, rfl, rfl, heof⟩
    | cons t after => exact ⟨_, _, rfl, rfl, rfl⟩
  have hall : scanned.all = before ++ t :: behind := by
    rw [Token.Scanned.all, htoks, List.append_assoc, hbehind]
  have hlast : ∀ more, ¬Accepted (before ++ t :: more) :=
    not_accepted_append fun toks htoks => hnone toks (htoks.trans hkind)
  refine ⟨before.length, t, wanted, by simp [hall], ?_, ?_, ?_⟩
  · simp [unexpected, ht]
  · simp [unexpected, ht]
  · intro n
    rw [hall]
    constructor
    · rintro ⟨more, hmore⟩
      refine Nat.le_of_not_lt fun hn => ?_
      obtain ⟨m, rfl⟩ : ∃ m, n = before.length + (m + 1) := ⟨n - before.length - 1, by omega⟩
      refine hlast (behind.take m ++ more) ?_
      simpa [List.take_length_add_append] using hmore
    · intro hn
      refine ⟨before.drop n ++ rest ++ [tokenOf .eof], ?_⟩
      rw [List.take_append_of_le_length hn, ← List.append_assoc, ← List.append_assoc,
        List.take_append_drop]
      exact (accepted_iff rfl).mpr hrest

/-- `ALGORITHM a BEGIN x <- END.` -/
def unfinishedAssignment : Token.Scanned where
  tokens :=
    [.onFirstLine (.keyword .algorithm) "ALGORITHM" 0, .onFirstLine .identifier "a" 10,
     .onFirstLine (.keyword .begin_) "BEGIN" 12, .onFirstLine .identifier "x" 18,
     .onFirstLine (.mark .assign) "<-" 20, .onFirstLine (.keyword .end_) "END" 23,
     .onFirstLine (.mark .dot) "." 26]
  eof := .onFirstLine .eof "" 27
  faults := []

/-- Up to the arrow the text begins a program, and `END` cannot follow. -/
theorem fault_placed_unfinishedAssignment :
    unfinishedAssignment.eof.kind = .eof ∧
      ∃ d, ofScanned unfinishedAssignment "ALGORITHM a BEGIN x <- END." = .ok (.error d) ∧
        ∃ (k : Nat) (t : Token) (wanted : Wanted), unfinishedAssignment.all[k]? = some t ∧
          d.location = t.start ∧ d.message = s!"Expected {wanted.text}, got '{t.describe}'" ∧
          ∀ n, (∃ rest, Accepted (unfinishedAssignment.all.take n ++ rest)) ↔ n ≤ k := by
  have heval : (ofScanned unfinishedAssignment "ALGORITHM a BEGIN x <- END.").toOption.map Except.toBool = some false := by
    decide +kernel
  rcases hread : ofScanned unfinishedAssignment "ALGORITHM a BEGIN x <- END." with _ | d | p
  · simp [hread, Except.toOption] at heval
  · exact ⟨rfl, d, rfl, fault_placed unfinishedAssignment _ rfl hread⟩
  · simp [hread, Except.toOption, Except.toBool] at heval

end Program

end AlgoLang
