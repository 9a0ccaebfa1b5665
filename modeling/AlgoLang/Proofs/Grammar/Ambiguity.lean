/-
# The modes derive the same texts

Every `ELSE` that belongs to an outer `IF` is moved inwards: the branch of the outer `IF` is grafted onto the
inner one (`IsStmt.graft`).  The trees change on the way, the tokens do not.
-/
import AlgoLang.Proofs.Grammar

namespace AlgoLang.Grammar

open IsStmt

variable {m m' : Mode} {ts : List Token}

mutual

/-- An `ELSE` behind a statement that ends in an `IF` without one goes to that `IF`. -/
lemma IsStmt.graft {dangling d l xs zs s no} (hl : l.kind = .keyword .else_) (hno : IsBlock m' d zs no) :
    IsStmt m' dangling xs s → dangling → ∃ d' s', IsStmt m' d' (xs ++ l :: zs) s' ∧ ∀ span body, s' ≠ .block span body
  | @ifThen _ inner _ _ _ _ _ _ _ _ hi ho he hc ht hyes, _ => by
    cases inner with
    | false =>
      have hif := ifElse hi ho he hc ht hyes (fun _ => rfl) hl hno
      exact ⟨d, _, by simpa using hif, by simp⟩
    | true =>
      obtain ⟨d', yes', hyes'⟩ := IsBlock.graft hl hno hyes rfl
      have hif := ifThen hi ho he hc ht hyes'
      exact ⟨true, _, by simpa using hif, by simp⟩
  | .ifElse hi ho he hc ht hyes hclosed hl' hno', hd => by
    obtain ⟨d', no', hno''⟩ := IsBlock.graft hl hno hno' hd
    have hif := ifElse hi ho he hc ht hyes hclosed hl' hno''
    exact ⟨d', _, by simpa using hif, by simp⟩
  | .whileDo hw ho he hc hdo hbody, hd => by
    obtain ⟨d', body', hbody'⟩ := IsBlock.graft hl hno hbody hd
    have hwhile := whileDo hw ho he hc hdo hbody'
    exact ⟨d', _, by simpa using hwhile, by simp⟩
  | .forDo hf hheading hbody, hd => by
    obtain ⟨d', body', hbody'⟩ := IsBlock.graft hl hno hbody hd
    have hfor := forDo hf hheading hbody'
    exact ⟨d', _, by simpa using hfor, by simp⟩
  | .doWhile .., hd | .switch .., hd | .switchDefault .., hd | .return_ .., hd | .scan .., hd
  | .print .., hd | .block .., hd | .assign .., hd | .call .., hd | .callWith .., hd => Bool.noConfusion hd

lemma IsBlock.graft {dangling d l xs zs body no}
    (hl : l.kind = .keyword .else_) (hno : IsBlock m' d zs no) : IsBlock m' dangling xs body → dangling →
      ∃ d' body', IsBlock m' d' (xs ++ l :: zs) body'
  | .list .., hd => Bool.noConfusion hd
  | .single h _, hd => by
    obtain ⟨d', s', hs', hne⟩ := IsStmt.graft hl hno h hd
    exact ⟨d', [s'], .single hs' fun _ => hne⟩

end

lemma IsStmt.exists_isBlock {dangling s} (h : IsStmt m' dangling ts s) : ∃ d body, IsBlock m' d ts body := by
  by_cases hs : ∃ span body, s = .block span body
  · obtain ⟨span, body, rfl⟩ := hs
    cases h with
    | block hb hbody hn => exact ⟨false, _, .list hb hbody hn⟩
  · exact ⟨dangling, [s], .single h fun _ span body heq => hs ⟨span, body, heq⟩⟩

mutual

lemma IsStmt.resolve {dangling ts s} : IsStmt m dangling ts s → ∃ d s', IsStmt m' d ts s'
  | .ifThen hi ho he hc ht hyes => by
    obtain ⟨d, yes', hyes'⟩ := hyes.resolve
    exact ⟨_, _, .ifThen hi ho he hc ht hyes'⟩
  | .ifElse hi ho he hc ht hyes _ hl hno => by
    obtain ⟨d, yes', hyes'⟩ := hyes.resolve
    obtain ⟨d', no', hno'⟩ := hno.resolve
    cases d with
    | false => exact ⟨_, _, .ifElse hi ho he hc ht hyes' (fun _ => rfl) hl hno'⟩
    | true =>
      obtain ⟨_, _, hyes''⟩ := IsBlock.graft hl hno' hyes' rfl
      exact ⟨_, _, .ifThen hi ho he hc ht hyes''⟩
  | .whileDo hw ho he hc hd hbody => by
    obtain ⟨d, body', hbody'⟩ := hbody.resolve
    exact ⟨_, _, .whileDo hw ho he hc hd hbody'⟩
  | .doWhile hd hbody hw ho he hc => by
    obtain ⟨d, body', hbody'⟩ := hbody.resolve
    exact ⟨_, _, .doWhile hd hbody' hw ho he hc⟩
  | .forDo hf hheading hbody => by
    obtain ⟨d, body', hbody'⟩ := hbody.resolve
    exact ⟨_, _, .forDo hf hheading hbody'⟩
  | .switch hk he hb hcases hn => by
    obtain ⟨cases', hcases'⟩ := hcases.resolve
    exact ⟨_, _, .switch hk he hb hcases' hn⟩
  | .switchDefault hk he hb hcases hd hc hbody hn => by
    obtain ⟨cases', hcases'⟩ := hcases.resolve
    obtain ⟨d, body', hbody'⟩ := hbody.resolve
    exact ⟨_, _, .switchDefault hk he hb hcases' hd hc hbody' hn⟩
  | .return_ hr ho he hc => ⟨_, _, .return_ hr ho he hc⟩
  | .scan hk ho htargets hc => ⟨_, _, .scan hk ho htargets hc⟩
  | .print hk ho hvalues hc => ⟨_, _, .print hk ho hvalues hc⟩
  | .block hb hbody hn => by
    obtain ⟨body', hbody'⟩ := hbody.resolve
    exact ⟨_, _, .block hb hbody' hn⟩
  | .assign htarget ha hvalue => ⟨_, _, .assign htarget ha hvalue⟩
  | .call hn => ⟨_, _, .call hn⟩
  | .callWith hn ho hargs hc => ⟨_, _, .callWith hn ho hargs hc⟩

lemma IsBlock.resolve {dangling ts body} : IsBlock m dangling ts body → ∃ d body', IsBlock m' d ts body'
  | .list hb hbody hn => by
    obtain ⟨body', hbody'⟩ := hbody.resolve
    exact ⟨_, _, .list hb hbody' hn⟩
  | .single h _ => by
    obtain ⟨d, s', hs'⟩ := h.resolve
    exact hs'.exists_isBlock

lemma IsStmts.resolve {ts body} : IsStmts m ts body → ∃ body', IsStmts m' ts body'
  | .nil => ⟨[], .nil⟩
  | .semicolon ht h => by
    obtain ⟨body', hbody'⟩ := h.resolve
    exact ⟨body', .semicolon ht hbody'⟩
  | .cons hs h => by
    obtain ⟨d, s', hs'⟩ := hs.resolve
    obtain ⟨body', hbody'⟩ := h.resolve
    exact ⟨_, .cons hs' hbody'⟩

lemma IsCases.resolve {ts cases} : IsCases m ts cases → ∃ cases', IsCases m' ts cases'
  | .nil => ⟨[], .nil⟩
  | .cons hk hvalues hc hbody h => by
    obtain ⟨d, body', hbody'⟩ := hbody.resolve
    obtain ⟨cases', hcases'⟩ := h.resolve
    exact ⟨_, .cons hk hvalues hc hbody' hcases'⟩

end

lemma IsBody.resolve {decls body} : IsBody m ts decls body → ∃ body', IsBody m' ts decls body'
  | .mk hdecls hb hbody hn hus => by
    obtain ⟨body', hbody'⟩ := hbody.resolve
    exact ⟨body', .mk hdecls hb hbody' hn hus⟩

lemma IsRoutines.resolve {ts fs ps} : IsRoutines m ts fs ps → ∃ fs' ps', IsRoutines m' ts fs' ps'
  | .nil => ⟨[], [], .nil⟩
  | .function hf hn ho hps hc hd htype hbody h => by
    obtain ⟨body', hbody'⟩ := hbody.resolve
    obtain ⟨fs', ps', h'⟩ := h.resolve
    exact ⟨_, _, .function hf hn ho hps hc hd htype hbody' h'⟩
  | .procedure hp hn ho hps hc hbody h => by
    obtain ⟨body', hbody'⟩ := hbody.resolve
    obtain ⟨fs', ps', h'⟩ := h.resolve
    exact ⟨_, _, .procedure hp hn ho hps hc hbody' h'⟩

lemma IsProgram.resolve {p} : IsProgram m ts p → ∃ p', IsProgram m' ts p'
  | .mk ha hn hdecls hroutines hb hbody he hd => by
    obtain ⟨fs, ps, hroutines'⟩ := hroutines.resolve
    obtain ⟨body', hbody'⟩ := hbody.resolve
    exact ⟨_, .mk ha hn hdecls hroutines' hb hbody' he hd⟩

end AlgoLang.Grammar
