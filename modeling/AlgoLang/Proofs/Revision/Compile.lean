/-
# Reading and compiling revised programs

The moves of the machine of `AlgoLang.Proofs.Agenda` depend on the kinds of tokens and on whether numbers are too
long, so revised tokens are read as the revised program.  A relation of findings that keeps the order of places
and tells no error from a warning passes on to what compilations report.
-/
import AlgoLang.Proofs.Agenda.Closing
import AlgoLang.Proofs.Compile.Success
import AlgoLang.Proofs.Revision

namespace AlgoLang

open List Token

section

variable (ρ : Revision) {c : Stage}

lemma ahead_revise (toks : List Token) : ahead (toks.map (revise ρ)) = ahead toks := by
  cases toks <;> rfl

lemma Expr.literal?_revise (t : Token) : literal? (t.revise ρ) = (literal? t).map (.map (revise ρ)) := by
  have hspan : ρ.spot t.span = some (t.revise ρ).span := ρ.spot_through t t
  have hvalue : t.kind.isWord = false → (t.revise ρ).value = t.value := value_revise_of_not_isWord ρ
  have hkind : (t.revise ρ).kind = t.kind := rfl
  unfold literal?
  rw [hkind]
  split
  case h_1 hk =>
    rw [hvalue (by rw [hk]; rfl)]
    cases Numeral.read t.value.toList with
    | ok n => simp [Except.map, revise, hspan]
    | error fault => rfl
  case h_2 hk | h_3 hk | h_4 hk =>
    simp only [Except.map, Option.map_some, revise, hspan, hvalue (by rw [hk]; rfl)]
  case h_5 | h_6 => simp only [Except.map, Option.map_some, revise, hspan]
  case h_7 => rfl

lemma Short.revise {toks : List Token} (h : Short toks) : Short (toks.map (revise ρ)) := by
  intro t ht hk
  obtain ⟨u, hu, rfl⟩ := mem_map.mp ht
  change u.kind = .integer at hk
  rw [value_revise_of_not_isWord ρ (by rw [hk]; rfl)]
  exact h u hu hk

def ParseFault.revise : ParseFault → ParseFault
  | .unexpected wanted found => .unexpected wanted (found.map (Token.revise ρ))
  | .numeral fault => .numeral fault

lemma Step.revise {d : Stage} (h : Step c d) : Step (c.1, c.2.map (revise ρ)) (d.1, d.2.map (revise ρ)) := by
  cases h with
  | @take i next agenda t rest e hm he =>
    exact .take (t := t.revise ρ) hm (by rw [Expr.literal?_revise, he]; rfl)
  | @keep i next agenda toks hm =>
    rw [← ahead_revise ρ toks] at hm
    exact .keep hm

lemma Runs.revise {d : Stage} (h : Runs c d) : Runs (c.1, c.2.map (revise ρ)) (d.1, d.2.map (revise ρ)) :=
  Relation.ReflTransGen.lift (fun c : Stage => (c.1, c.2.map (Token.revise ρ))) (fun _ _ hstep => hstep.revise ρ) _ _ h

lemma Stops.revise {fault : ParseFault} (h : Stops c fault) :
    Stops (c.1, c.2.map (.revise ρ)) (fault.revise ρ) := by
  cases h with
  | @refuse i agenda toks wanted hm =>
    rw [← ahead_revise ρ toks] at hm
    rw [ParseFault.revise, ← head?_map]
    exact .refuse hm
  | @unreadable i next agenda t rest _ hm he =>
    obtain ⟨-, fault, rfl⟩ := Expr.literal?_eq_error he
    exact .unreadable (t := t.revise ρ) hm (by rw [Expr.literal?_revise, he]; rfl)

namespace Program

variable {toks toks' : List Token}

lemma parse_revise_of_ok {taken : Taken Program toks} (h : parse toks = .ok taken) :
    ∃ taken', parse (toks.map (.revise ρ)) = .ok taken' ∧ taken'.value = taken.value.revise ρ := by
  obtain ⟨ts, htoks, hshort, hprogram⟩ := Grammar.exists_isProgram_of_parse h
  obtain ⟨last, hgives⟩ := (hprogram.revise ρ).gives (hshort.revise ρ) (taken.rest.map (.revise ρ))
  obtain ⟨hlt, hgives⟩ := Reading.Gives.of_eq (by rw [← map_append, ← htoks]) hgives
  exact ⟨_, hgives, rfl⟩

lemma parse_revise_of_error {fault : ParseFault} (h : parse toks = .error fault) :
    parse (toks.map (.revise ρ)) = .error (fault.revise ρ) := by
  have hfollows := parse_follows toks
  rw [h] at hfollows
  obtain ⟨c, hrun, hstop⟩ := hfollows
  exact parse_of_stops (hrun.revise ρ) (hstop.revise ρ)

/-- Tokens that are the same once revised are read as programs that are, or refused for the same reason. -/
lemma parse_of_same_revised (h : toks.map (Token.revise ρ) = toks'.map (Token.revise ρ)) :
    (∃ taken taken', parse toks = .ok taken ∧ parse toks' = .ok taken' ∧
      taken.value.revise ρ = taken'.value.revise ρ) ∨
    ∃ fault fault', parse toks = .error fault ∧ parse toks' = .error fault' ∧ fault.revise ρ = fault'.revise ρ := by
  cases hparse : parse toks with
  | ok taken =>
    have hok := parse_revise_of_ok ρ hparse
    rw [h] at hok
    obtain ⟨revised, hrevised, hvalue⟩ := hok
    cases hparse' : parse toks' with
    | ok taken' =>
      obtain ⟨revised', hrevised', hvalue'⟩ := parse_revise_of_ok ρ hparse'
      refine .inl ⟨taken, taken', rfl, rfl, ?_⟩
      rw [← hvalue, ← hvalue', Except.ok.inj (hrevised.symm.trans hrevised')]
    | error fault' => exact nomatch hrevised.symm.trans (parse_revise_of_error ρ hparse')
  | error fault =>
    have herror := parse_revise_of_error ρ hparse
    rw [h] at herror
    cases hparse' : parse toks' with
    | ok taken' =>
      obtain ⟨revised', hrevised', -⟩ := parse_revise_of_ok ρ hparse'
      exact nomatch hrevised'.symm.trans herror
    | error fault' =>
      have herror' := parse_revise_of_error ρ hparse'
      exact .inr ⟨fault, fault', rfl, rfl, Except.error.inj (herror.symm.trans herror')⟩

end Program

end

variable {ds ds' : List Diagnostic}

/-- Related findings are of one severity, and in the same order on either side. -/
structure Parallel (S : Diagnostic → Diagnostic → Prop) : Prop where
  isWarning : ∀ {d d'}, S d d' → d.isWarning = d'.isWarning
  notAfter : ∀ {d d' e e'}, S d d' → S e e' → d.notAfter e = d'.notAfter e'

section

variable {α β γ : Type} {f : α → γ} {g : β → γ} {xs : List α} {ys : List β}

lemma map_eq_map_iff : xs.map f = ys.map g ↔ Forall₂ (fun x y => f x = g y) xs ys := by
  rw [← forall₂_eq_eq_eq, forall₂_map_left_iff, forall₂_map_right_iff]

end

lemma forall₂_mergeSort {α : Type}
    {S : α → α → Prop} {le : α → α → Bool} {xs ys : List α} (hle : ∀ a a' b b', S a a' → S b b' → le a b = le a' b')
    (h : Forall₂ S xs ys) : Forall₂ S (xs.mergeSort le) (ys.mergeSort le) := by
  obtain ⟨hlength, hpairs⟩ := forall₂_iff_zip.mp h
  -- both lists are sorted as the two halves of one list of pairs
  let ps := (xs.zip ys).mergeSort fun p q => le p.1 q.1
  have hfirst : ps.map Prod.fst = xs.mergeSort le := by
    rw [map_mergeSort (s := le) fun _ _ _ _ => rfl, map_fst_zip hlength.le]
  have hsecond : ps.map Prod.snd = ys.mergeSort le := by
    rw [map_mergeSort (s := le) fun p hp q hq => hle _ _ _ _ (hpairs hp) (hpairs hq), map_snd_zip hlength.ge]
  rw [← hfirst, ← hsecond, forall₂_map_left_iff, forall₂_map_right_iff, forall₂_same]
  intro p hp
  exact hpairs (mem_mergeSort.mp hp)

section

variable {S : Diagnostic → Diagnostic → Prop} (hS : Parallel S)
include hS

lemma Parallel.filter_warnings (h : Forall₂ S ds ds') :
    Forall₂ S (ds.filter Diagnostic.isWarning) (ds'.filter Diagnostic.isWarning) :=
  rel_filter (fun _ _ hd => iff_of_eq (congrArg (· = true) (hS.isWarning hd))) h

lemma Parallel.filter_errors (h : Forall₂ S ds ds') :
    Forall₂ S (ds.filter fun d => !d.isWarning) (ds'.filter fun d => !d.isWarning) :=
  rel_filter (fun _ _ hd => iff_of_eq (congrArg (fun b => (!b) = true) (hS.isWarning hd))) h

lemma Parallel.diagnostics {a b : Analysis} (h : Forall₂ S a.found b.found) :
    Forall₂ S a.diagnostics b.diagnostics := by
  simp only [Analysis.diagnostics, Analysis.log, Log.inOrder, Log.foldl_add, nil_append]
  exact forall₂_mergeSort (fun _ _ _ _ => hS.notAfter) (rel_append (hS.filter_errors h) (hS.filter_warnings h))

/-- Two programs with related findings, neither of which C refuses: both come out with related errors and
warnings, and with the code of the programs or without code. -/
lemma Parallel.ofProgram {p q : Program} (hp : p.Closed) (hq : q.Closed)
    (h : Forall₂ S (Analysis.ofProgram p).found (Analysis.ofProgram q).found) (c c' : Compilation)
    (hcode : c.code = none ∧ c'.code = none) (herrors : Forall₂ S c.errors c'.errors) (width : Int) :
    (∃ d d', c.ofProgram p width = .ok d ∧ c'.ofProgram q width = .ok d' ∧
      Forall₂ S d.errors d'.errors ∧ Forall₂ S d.warnings d'.warnings ∧
      (d.code = none ∧ d'.code = none ∨ ∃ indent code code', p.generate indent = .ok code ∧
        q.generate indent = .ok code' ∧ d.code = some code ∧ d'.code = some code')) ∨
    ∃ fault, c.ofProgram p width = .error fault ∧ c'.ofProgram q width = .error fault ∧
      Numeral.spaces width = .error fault := by
  have hfound := hS.diagnostics h
  have hwarnings := hS.filter_warnings hfound
  have hothers := hS.filter_errors hfound
  unfold Compilation.ofProgram
  dsimp only
  generalize (Analysis.ofProgram p).diagnostics.filter (fun d => !d.isWarning) = xs,
    (Analysis.ofProgram q).diagnostics.filter (fun d => !d.isWarning) = ys at hothers ⊢
  cases hothers with
  | nil =>
    cases hspaces : Numeral.spaces width with
    | error fault => exact .inr ⟨fault, rfl, rfl, rfl⟩
    | ok indent =>
      obtain ⟨code, hgenerate⟩ := hp.succeeds_generate indent
      obtain ⟨code', hgenerate'⟩ := hq.succeeds_generate indent
      refine .inl ⟨_, _, rfl, rfl, ?_⟩
      dsimp only
      rw [hgenerate, hgenerate']
      exact ⟨herrors, hwarnings, .inr ⟨indent, code, code', hgenerate, hgenerate', rfl, rfl⟩⟩
  | cons hd hds => exact .inl ⟨_, _, rfl, rfl, .cons hd hds, hwarnings, .inl hcode⟩

end

end AlgoLang
