/-
# How flowcharts are put together

However a statement is drawn, only a few things can happen: a box is added, maybe one that returns, parts
follow each other or stand side by side, and exits lead back to a box.  `Assembly d E d' X bs` says that the
drawing `d` with the open exits `E` became `d'` with the exits `X` in this way, by new nodes for the boxes `bs`.
What holds of all flowcharts follows by induction over assemblies, without a look at the statements.
-/
import AlgoLang.Proofs.Flow.Line
import AlgoLang.Proofs.Flow.Part

namespace AlgoLang.Flow

open Drawing List

/-! ## Boxes -/

/-- What a node stands for.  A choice is known by its stretch of source and the labels of its ways out. -/
inductive Box where
  | process
  | call
  | return
  | merge
  | declaration
  | loop
  | choice (span : Option Span) (labels : List (Option String))
  deriving DecidableEq

namespace Box

def kind : Box → NodeKind
  | process => .process
  | call => .call
  | .return => .return
  | merge => .merge
  | declaration => .declaration
  | loop => .loop
  | choice .. => .decision

def labels : Box → List (Option String)
  | loop => [some "true", some "false"]
  | choice _ labels => labels
  | _ => [none]

def choice? : Box → Option (Option Span × List (Option String))
  | choice span labels => some (span, labels)
  | _ => none

/-- The node stands for the box. -/
def Fits (b : Box) (n : Node) : Prop :=
  n.kind = b.kind ∧ ∀ span labels, b = choice span labels → n.span = span

end Box

/-! ## Choices

The choices of statements in the order of the text, each with its stretch of source and the labels of
its ways out: an `IF` has two, a switch one for every clause and one for all other values. -/

def clauseLabels (cases : List CaseClause) : List (Option String) :=
  cases.map fun c => some (Expr.formatList c.values)

mutual

def choices : Stmt → List (Option Span × List (Option String))
  | .ifThen span _ yes none => (span, [some "true", some "false"]) :: choicesEach yes
  | .ifThen span _ yes (some no) => (span, [some "true", some "false"]) :: (choicesEach yes ++ choicesEach no)
  | .while _ _ body | .doWhile _ body _ | .for _ _ _ _ _ body | .block _ body => choicesEach body
  | .switch span _ cases none => (span, clauseLabels cases ++ [some "default"]) :: choicesCases cases
  | .switch span _ cases (some other) =>
    (span, clauseLabels cases ++ [some "default"]) :: (choicesCases cases ++ choicesEach other)
  | _ => []

def choicesEach : List Stmt → List (Option Span × List (Option String))
  | [] => []
  | s :: ss => choices s ++ choicesEach ss

def choicesCases : List CaseClause → List (Option Span × List (Option String))
  | [] => []
  | ⟨_, _, body⟩ :: cs => choicesEach body ++ choicesCases cs

end

/-! ## Assemblies -/

/-- The drawing `d` with the open exits `E` becomes another one, with other open exits, by the boxes of the
list.  The first line is where the next box stands before, and the other one where it stands afterwards. -/
inductive Assembly : Drawing → Position → List Exit → Drawing → Position → List Exit → List Box → Prop
  /-- Nothing is drawn; the next node may go elsewhere. -/
  | idle (d : Drawing) (l : Position) (E : List Exit) (x y : Position) (fault : Option NumeralFault) :
      Assembly d l E { d with x, y, fault } l E []
  /-- A box that the exits lead to. -/
  | box {d : Drawing} {E X : List Exit} {n : Node} {b : Box} (y : Position) (fault : Option NumeralFault) :
      d.Lays n y → b.Fits n → X ≠ [] → X.map Exit.label = b.labels → (∀ x ∈ X, x.source = d.nextId ∧ x.kind ≠ .loop) →
      Assembly d d.y E ({ d with nodes := d.nodes ++ [n], y, fault }.join E d.nextId Exit.kind) y X [b]
  /-- A box that returns. -/
  | halt {d : Drawing} {E : List Exit} {n : Node} (y : Position) (fault : Option NumeralFault) :
      d.Lays n y → Box.return.Fits n →
      Assembly d d.y E { { d with nodes := d.nodes ++ [n], y, fault }.join E d.nextId Exit.kind with
        returns := d.returns ++ [d.nextId] } y [] [.return]
  /-- One part behind the other. -/
  | seq {d d' d'' : Drawing} {l m m' : Position} {E X Y : List Exit} {bs cs : List Box} :
      Assembly d l E d' m X bs → Assembly d' m X d'' m' Y cs → Assembly d l E d'' m' Y (bs ++ cs)
  /-- One part beside the other, or one that stands alone so far.  They begin on one line, and then go on
  below both. -/
  | beside {d d' d'' : Drawing} {l m m' l' : Position} {E F X Y : List Exit} {bs cs : List Box} :
      E ≠ [] ∨ d'.nextId = d.nextId ∧ X = [] → F ≠ [] →
      (d.layout.Drops 0 l m → d.layout.Drops 0 l m' → d.layout.Drops 0 m l' ∧ d.layout.Drops 0 m' l') →
      Assembly d l E d' m X bs → Assembly d' l F d'' m' Y cs → Assembly d l (E ++ F) d'' l' (X ++ Y) (bs ++ cs)
  /-- Exits of boxes lead back to the first box of the part.  That box, or the one that the exit belongs to, has
  another way out. -/
  | back {d d' : Drawing} {l m : Position} {E X Y : List Exit} {bs : List Box} : Assembly d l E d' m (X ++ Y) bs →
      d.nextId < d'.nextId → (∀ x ∈ X, d.nextId ≤ x.source ∧ ∃ y ∈ Y, y.source = d.nextId ∨ y.source = x.source) →
      Assembly d l E (d'.join X d.nextId fun _ => .loop) m Y bs

section

variable {d d' : Drawing} {l l' : Position} {E X : List Exit} {bs : List Box}

lemma Assembly.nextId_eq (h : Assembly d l E d' l' X bs) : d'.nextId = d.nextId + bs.length := by
  induction h with
  | idle => rfl
  | box | halt => simp [nextId, join]
  | seq _ _ ih ih' | beside _ _ _ _ _ ih ih' => rw [ih', ih, length_append, Nat.add_assoc]
  | back _ _ _ ih => exact ih

/-- Exits leave new nodes, or the nodes that were left before. -/
lemma Assembly.source_of_mem (h : Assembly d l E d' l' X bs) {x : Exit} (hx : x ∈ X) :
    (∃ z ∈ E, z.source = x.source) ∨ d.nextId ≤ x.source := by
  induction h generalizing x with
  | idle => exact .inl ⟨x, hx, rfl⟩
  | box _ _ _ _ _ _ hsource => exact .inr (hsource x hx).1.ge
  | halt => cases hx
  | seq hfirst _ ih ih' =>
    rcases ih' hx with ⟨z, hz, heq⟩ | hle
    · exact heq ▸ ih hz
    · exact .inr ((hfirst.nextId_eq ▸ Nat.le_add_right _ _).trans hle)
  | beside _ _ _ hfirst _ ih ih' =>
    rcases mem_append.mp hx with hx | hx
    · exact (ih hx).imp_left fun ⟨z, hz, heq⟩ => ⟨z, mem_append_left _ hz, heq⟩
    · refine (ih' hx).imp (fun ⟨z, hz, heq⟩ => ⟨z, mem_append_right _ hz, heq⟩) fun hle => ?_
      exact (hfirst.nextId_eq ▸ Nat.le_add_right _ _).trans hle
  | back _ _ _ ih => exact ih (mem_append_right _ hx)

end

/-- Drawn as an assembly with the given choices, and with a box that returns only if `returns` holds. -/
def Depicted (d : Drawing) (l : Position) (E : List Exit) (d' : Drawing) (l' : Position) (X : List Exit)
    (cs : List (Option Span × List (Option String))) (returns : Bool) : Prop :=
  ∃ bs, Assembly d l E d' l' X bs ∧ bs.filterMap Box.choice? = cs ∧ (Box.return ∈ bs → returns = true)

namespace Depicted

variable {d d' d'' : Drawing} {l m m' l' : Position} {E F X Y : List Exit}
  {cs cs' : List (Option Span × List (Option String))} {r r' : Bool}

lemma idle (d : Drawing) (l : Position) (E : List Exit) (x y : Position) (fault : Option NumeralFault) :
    Depicted d l E { d with x, y, fault } l E [] false :=
  ⟨[], .idle d l E x y fault, rfl, nofun⟩

lemma or_of_mem_append {bs bs' : List Box} (h : .return ∈ bs → r)
    (h' : .return ∈ bs' → r') (hmem : .return ∈ bs ++ bs') : (r || r') := by
  rw [Bool.or_eq_true]
  exact (mem_append.mp hmem).imp h h'

lemma seq (h : Depicted d l E d' m X cs r) (h' : Depicted d' m X d'' m' Y cs' r') :
    Depicted d l E d'' m' Y (cs ++ cs') (r || r') := by
  obtain ⟨bs, hbs, rfl, hr⟩ := h
  obtain ⟨bs', hbs', rfl, hr'⟩ := h'
  exact ⟨bs ++ bs', hbs.seq hbs', filterMap_append, or_of_mem_append hr hr'⟩

lemma beside (hE : E ≠ [] ∨ d'.nextId = d.nextId ∧ X = []) (hF : F ≠ []) (hl : d.layout.Drops 0 l m →
    d.layout.Drops 0 l m' → d.layout.Drops 0 m l' ∧ d.layout.Drops 0 m' l') (h : Depicted d l E d' m X cs r)
    (h' : Depicted d' l F d'' m' Y cs' r') : Depicted d l (E ++ F) d'' l' (X ++ Y) (cs ++ cs') (r || r') := by
  obtain ⟨bs, hbs, rfl, hr⟩ := h
  obtain ⟨bs', hbs', rfl, hr'⟩ := h'
  exact ⟨bs ++ bs', hbs.beside hE hF hl hbs', filterMap_append, or_of_mem_append hr hr'⟩

lemma back (hd : Depicted d l E d' m (X ++ Y) cs r) (hlt : d.nextId < d'.nextId)
    (hX : ∀ x ∈ X, d.nextId ≤ x.source ∧ ∃ y ∈ Y, y.source = d.nextId ∨ y.source = x.source) :
    Depicted d l E (d'.join X d.nextId fun _ => .loop) m Y cs r := by
  obtain ⟨bs, hbs, hcs, hr⟩ := hd
  exact ⟨bs, hbs.back hlt hX, hcs, hr⟩

lemma move (h : Depicted d l E d' m X cs r) (x y : Position) (fault : Option NumeralFault) :
    Depicted d l E { d' with x, y, fault } m X cs r := by
  have hmoved := h.seq (idle d' m X x y fault)
  rw [append_nil, Bool.or_false] at hmoved
  exact hmoved

/-! ### Boxes -/

lemma exists_place_eq (kind : NodeKind) (label : String) (span : Option Span) (calls : List String)
    (d : Drawing) (E : List Exit) : ∃ n y fault, d.place kind label span calls E =
        { d with nodes := d.nodes ++ [n], y, fault }.join E d.nextId Exit.kind ∧
      d.Lays n y ∧ n.kind = kind ∧ n.span = span := by
  obtain ⟨n, y, fault, heq, hn, hkind, hspan, -⟩ := d.exists_addNode_eq kind label span calls
  refine ⟨n, y, fault, ?_, hn, hkind, hspan⟩
  rw [place, connect_eq_join, heq]

lemma place (b : Box) (hb : b ≠ .return) {label : String} {span : Option Span} {calls : List String}
    (hspan : ∀ s labels, b = .choice s labels → span = s) (hX : X ≠ []) (hlabels : X.map Exit.label = b.labels)
    (hsource : ∀ x ∈ X, x.source = d.nextId ∧ x.kind ≠ .loop) :
    Depicted d d.y E (d.place b.kind label span calls E) (d.place b.kind label span calls E).y X
      b.choice?.toList false := by
  obtain ⟨n, y, fault, heq, hlays, hkind, hn⟩ := exists_place_eq b.kind label span calls d E
  rw [heq]
  refine ⟨[b], .box y fault hlays ⟨hkind, fun s labels h => ?_⟩ hX hlabels hsource, ?_, ?_⟩
  · rw [hn]
    exact hspan s labels h
  · cases b <;> rfl
  · intro hmem
    exact absurd (mem_singleton.mp hmem).symm hb

lemma simple (b : Box) (hb : b ≠ .return) (hlabels : b.labels = [none]) (hchoice : b.choice? = none)
    (label : String) (span : Option Span) (calls : List String) :
    Depicted d d.y E (d.simple b.kind label span calls E).1 (d.simple b.kind label span calls E).1.y
      (d.simple b.kind label span calls E).2 [] false := by
  have h : Depicted d d.y E (d.place b.kind label span calls E) _ [{ source := d.nextId }] _ _ :=
    place b hb (fun s labels heq => by rw [heq] at hchoice; cases hchoice) (by simp) hlabels.symm (by simp)
  rw [hchoice] at h
  exact h

lemma halt (label : String) (span : Option Span) (calls : List String) :
    Depicted d d.y E { d.place .return label span calls E with
      returns := (d.place .return label span calls E).returns ++ [d.nextId] }
      (d.place .return label span calls E).y [] [] true := by
  obtain ⟨n, y, fault, heq, hlays, hkind, -⟩ := exists_place_eq .return label span calls d E
  rw [heq]
  exact ⟨_, .halt y fault hlays ⟨hkind, nofun⟩, rfl, fun _ => rfl⟩

lemma merge (h : Depicted d l E d' d'.y X cs r) :
    Depicted d l E (d'.merge X).1 (d'.merge X).1.y (d'.merge X).2 cs r := by
  cases X with
  | nil => exact h
  | cons x X =>
    have hmerge := h.seq (simple .merge nofun rfl rfl "" none [] (d := d'))
    rw [append_nil, Bool.or_false] at hmerge
    exact hmerge

lemma nextId_le (h : Depicted d l E d' m X cs r) : d.nextId ≤ d'.nextId := by
  obtain ⟨bs, hbs, -⟩ := h
  rw [hbs.nextId_eq]
  exact Nat.le_add_right _ _

/-! ## Statements -/

lemma require (h : Depicted d l E d' d'.y X cs r) (measure : Except NumeralFault Unit) :
    Depicted d l E (d'.require measure) (d'.require measure).y X cs r := by
  obtain ⟨fault, heq⟩ := d'.exists_require_eq measure
  rw [heq]
  exact h.move d'.x d'.y fault

lemma skip (d : Drawing) (E : List Exit) : Depicted d d.y E d d.y E [] false :=
  idle d d.y E d.x d.y d.fault

lemma meet (h : Depicted d l E d' m X cs r) (x : Position) :
    Depicted d l E ((d'.moveTo x m).merge X).1 ((d'.moveTo x m).merge X).1.y ((d'.moveTo x m).merge X).2 cs r :=
  merge (h.move x m d'.fault)

lemma test (d : Drawing) (E : List Exit) (label : String) (span : Option Span) (calls : List String) :
    Depicted d d.y E (d.place .loop label span calls E) (d.place .loop label span calls E).y
      [⟨d.nextId, some "true", .whenTrue⟩, ⟨d.nextId, some "false", .whenFalse⟩] [] false :=
  place .loop nofun nofun (by simp) rfl (by simp)

/-- A loop that tests first: its body leads back to the test. -/
lemma testFirst {label : String} {span : Option Span} {calls : List String}
    (h : Depicted (d.place .loop label span calls E) (d.place .loop label span calls E).y
      [⟨d.nextId, some "true", .whenTrue⟩] d' m X cs r) :
    Depicted d d.y E (d'.join X d.nextId fun _ => .loop) m [⟨d.nextId, some "false", .whenFalse⟩] cs r := by
  have hpass := idle d' (d.place .loop label span calls E).y [⟨d.nextId, some "false", .whenFalse⟩] d'.x d'.y d'.fault
  have hround := (test d E label span calls).seq (h.beside (.inl (by simp)) (by simp) (fun h _ => ⟨h.finite, h⟩) hpass)
  have hlt : d.nextId < (d.place .loop label span calls E).nextId := by
    rw [nextId_place]
    exact Nat.lt_succ_self _
  simp only [nil_append, append_nil, Bool.false_or, Bool.or_false] at hround
  refine hround.back (hlt.trans_le h.nextId_le) fun x hx => ?_
  obtain ⟨bs, hbs, -⟩ := h
  have hsource : d.nextId ≤ x.source := by
    rcases hbs.source_of_mem hx with ⟨z, hz, heq⟩ | hle
    · rw [← heq, mem_singleton.mp hz]
    · exact hlt.le.trans hle
  exact ⟨hsource, _, mem_singleton.mpr rfl, .inl rfl⟩

end Depicted

/-- Branches side by side, drawn so far for the exits `E`. -/
def Fork (d : Drawing) (l : Position) (E : List Exit) (d' : Drawing) (l' : Position) (X : List Exit)
    (cs : List (Option Span × List (Option String))) (returns : Bool) : Prop :=
  Depicted d l E d' l' X cs returns ∧ (E ≠ [] ∨ d'.nextId = d.nextId ∧ X = [])

namespace Fork

variable {d d' d'' : Drawing} {l m m' : Position} {E F X Y : List Exit}
  {cs cs' : List (Option Span × List (Option String))} {r r' : Bool}

lemma start (d : Drawing) : Fork d d.y [] d d.y [] [] false :=
  ⟨.skip d [], .inr ⟨rfl, rfl⟩⟩

lemma branch {x : Position} (h : Fork d l E d' m X cs r) (h' : Depicted (d'.moveTo x l) l F d'' m' Y cs' r')
    (hF : F ≠ []) : Fork d l (E ++ F) d'' (m.max m') (X ++ Y) (cs ++ cs') (r || r') :=
  ⟨h.1.beside h.2 hF Layout.Drops.max ((Depicted.idle d' l F x l _).seq h'), .inl (append_ne_nil_of_right_ne_nil E hF)⟩

end Fork

def entries (t : Nat) (cases : List CaseClause) : List Exit :=
  cases.map fun c => ⟨t, some (Expr.formatList c.values), .case⟩

mutual

lemma depicted_draw : ∀ (s : Stmt) (d : Drawing) (E : List Exit),
    Depicted d d.y E (draw d E s).1 (draw d E s).1.y (draw d E s).2 (choices s) s.returns
  | .assign .., d, E | .print .., d, E | .scan .., d, E => by
    simp only [draw, choices, Stmt.returns]
    exact .simple .process nofun rfl rfl _ _ _
  | .call .., d, E => by
    simp only [draw, choices, Stmt.returns]
    exact .simple .call nofun rfl rfl _ _ _
  | .return .., d, E => by
    simp only [draw, choices, Stmt.returns]
    exact .halt _ _ _
  | .ifThen span c yes no, d, E => by
    have htest : Depicted d d.y E (d.place .decision c.format span c.calls E).requireBranches _
        ([⟨d.nextId, some "true", .whenTrue⟩] ++ [⟨d.nextId, some "false", .whenFalse⟩])
        [(span, [some "true", some "false"])] false :=
      ((Depicted.place (.choice span [some "true", some "false"]) nofun (by rintro _ _ ⟨⟩; rfl) (by simp)
        rfl (by simp)).require _).require _
    have hyes := fun x => (Fork.start (d.place .decision c.format span c.calls E).requireBranches).branch
      (depicted_drawEach yes (moveTo _ x _) [⟨d.nextId, some "true", .whenTrue⟩]) (by simp)
    cases no with
    | none =>
      have hboth := fun x x' => htest.seq ((hyes x).branch (.skip (moveTo _ x' _) _) (by simp)).1
      simp only [append_nil, nil_append, Bool.or_false, Bool.false_or] at hboth
      simp only [draw, choices, Stmt.returns]
      exact (hboth _ _).meet _
    | some no =>
      have hboth := fun x x' =>
        htest.seq ((hyes x).branch (depicted_drawEach no (moveTo _ x' _) _) (by simp)).1
      simp only [nil_append, Bool.false_or] at hboth
      simp only [draw, choices, Stmt.returns]
      exact (hboth _ _).meet _
  | .while span c body, d, E => by
    simp only [draw, choices, Stmt.returns, connectBack_eq_join]
    exact .testFirst (depicted_drawEach body _ _)
  | .doWhile span body c, d, E => by
    have hbody := depicted_drawEach body d E
    simp only [draw, choices, Stmt.returns]
    generalize drawEach d E body = drawn at hbody ⊢
    obtain ⟨d', X⟩ := drawn
    have hround := hbody.seq (Depicted.test d' X c.format span c.calls)
    have hlt : d.nextId < (d'.place .loop c.format span c.calls X).nextId := by
      rw [nextId_place]
      exact Nat.lt_succ_of_le hbody.nextId_le
    have hback := hround.back (X := [⟨d'.nextId, some "true", .whenTrue⟩]) hlt (by simp [hbody.nextId_le])
    rw [append_nil, Bool.or_false] at hback
    exact hback
  | .for span n a b step body, d, E => by
    have hfirst := Depicted.simple .process nofun rfl rfl (n ++ " ← " ++ a.format) span a.calls (d := d) (E := E)
    have hfor := fun label => hfirst.seq (.testFirst ((depicted_drawEach body
      ((d.place .process (n ++ " ← " ++ a.format) span a.calls E).place .loop label span b.calls _) _).seq
        (.simple .process nofun rfl rfl (n ++ " ← " ++ n ++ " " ++ stepText step) span [])))
    simp only [append_nil, nil_append, Bool.or_false, Bool.false_or] at hfor
    simp only [draw, choices, Stmt.returns]
    exact hfor _
  | .switch span e cases default, d, E => by
    have htest : Depicted d d.y E (d.place .decision ("Switch " ++ e.format) span e.calls E).requireColumns _
        (entries d.nextId cases ++ [⟨d.nextId, some "default", .case⟩])
        [(span, clauseLabels cases ++ [some "default"])] false :=
      (Depicted.place (.choice span (clauseLabels cases ++ [some "default"])) nofun (by rintro _ _ ⟨⟩; rfl) (by simp)
        (by simp [clauseLabels, Box.labels])
        (forall_mem_append.mpr ⟨forall_mem_map.mpr fun _ _ => ⟨rfl, by simp⟩, by simp⟩)).require _
    have hcases := fork_drawCases cases
      (.start (d.place .decision ("Switch " ++ e.format) span e.calls E).requireColumns) d.nextId
    cases default with
    | none =>
      have hall := fun center column x =>
        htest.seq ((hcases center column).branch (.skip (moveTo _ x _) _) (by simp)).1
      simp only [append_nil, nil_append, Bool.or_false, Bool.false_or] at hall
      simp only [draw, choices, Stmt.returns]
      exact (hall _ _ _).meet _
    | some body =>
      have hall := fun center column x =>
        htest.seq ((hcases center column).branch (depicted_drawEach body (moveTo _ x _) _) (by simp)).1
      simp only [nil_append, Bool.false_or] at hall
      simp only [draw, choices, Stmt.returns]
      exact (hall _ _ _).meet _
  | .block _ body, d, E => by
    simp only [draw, choices, Stmt.returns]
    exact depicted_drawEach body d E
  | .unknown _, d, E => by
    simp only [draw, choices, Stmt.returns]
    exact .skip d E

lemma depicted_drawEach : ∀ (ss : List Stmt) (d : Drawing) (E : List Exit),
    Depicted d d.y E (drawEach d E ss).1 (drawEach d E ss).1.y (drawEach d E ss).2 (choicesEach ss) (Stmt.returnsAny ss)
  | [], d, E => by
    rw [drawEach, choicesEach, Stmt.returnsAny]
    exact .skip d E
  | s :: ss, d, E => by
    rw [drawEach, choicesEach, Stmt.returnsAny]
    exact (depicted_draw s d E).seq (depicted_drawEach ss _ _)

lemma fork_drawCases : ∀ (cs : List CaseClause) {d d' l m E X made r}, Fork d l E d' m X made r →
    ∀ (t : Nat) (center : Position) (column : Int),
    Fork d l (E ++ entries t cs) (drawCases d' t center l column m cs).1 (drawCases d' t center l column m cs).2.1
      (X ++ (drawCases d' t center l column m cs).2.2) (made ++ choicesCases cs) (r || Stmt.returnsCases cs)
  | [], d, d', l, m, E, X, made, r, h, t, center, column => by
    rw [drawCases, choicesCases, Stmt.returnsCases, append_nil, append_nil, Bool.or_false]
    exact (append_nil E).symm ▸ h
  | ⟨_, values, body⟩ :: cs, d, d', l, m, E, X, made, r, h, t, center, column => by
    have hclause := h.branch (depicted_drawEach body (d'.moveTo (d'.columnAt center column) l) [⟨t,
      some (Expr.formatList values), .case⟩]) (by simp)
    have hcases := fork_drawCases cs hclause t center (column + 2)
    simp only [append_assoc, Bool.or_assoc] at hcases
    rw [drawCases, choicesCases, Stmt.returnsCases]
    exact hcases

end

/-! ## Whole charts -/

lemma depicted_declarations : ∀ (declared : List (String × Option Span)) (d : Drawing) (E : List Exit),
    Depicted d d.y E (d.declarations E declared).1 (d.declarations E declared).1.y (d.declarations E declared).2 [] false
  | [], d, E => .skip d E
  | (label, span) :: declared, _, _ =>
    (Depicted.simple .declaration nofun rfl rfl label span []).seq (depicted_declarations declared _ _)

/-- The drawing with its end, which the open exits and the returns lead to. -/
def Drawing.ended (d : Drawing) (X : List Exit) (stop : Node) (y : Position) (fault : Option NumeralFault) :
    Drawing :=
  ({ d with nodes := d.nodes ++ [stop], y, fault }.join X d.nextId Exit.kind).join
    (d.returns.map ({ source := · })) d.nextId Exit.kind

lemma Drawing.exists_ended (d : Drawing) (label : String) (X : List Exit) :
    ∃ stop y fault, d.finish label X = d.ended X stop y fault ∧ d.Lays stop y ∧ stop.kind = .stop := by
  obtain ⟨stop, y, fault, heq, hlays, hkind, -⟩ := Depicted.exists_place_eq .stop label none [] d X
  refine ⟨stop, y, fault, ?_, hlays, hkind⟩
  rw [finish, connect_eq_join, heq]
  rfl

/-- How the chart of a body came about: `opened` has the start only and `drawn` all but the end; then the
nodes were moved on the sheet. -/
structure Blueprint (layout : Layout) (c : Chart) (body : List Stmt) where
  opened : Drawing
  drawn : Drawing
  exits : List Exit
  boxes : List Box
  start : Node
  stop : Node
  y : Position
  fault : Option NumeralFault
  moved : Node → Node
  opened_layout : opened.layout = layout
  opened_nodes : opened.nodes = [start]
  opened_edges : opened.edges = []
  opened_returns : opened.returns = []
  start_lays : Drawing.Lays { layout } start opened.y
  start_kind : start.kind = .start
  assembly : Assembly opened opened.y [{ source := 1 }] drawn drawn.y exits boxes
  choices : boxes.filterMap Box.choice? = choicesEach body
  returns : Box.return ∈ boxes → Stmt.returnsAny body = true
  stop_lays : drawn.Lays stop y
  stop_kind : stop.kind = .stop
  moved_eq : ∀ n, (moved n).id = n.id ∧ (moved n).kind = n.kind ∧ (moved n).span = n.span
  nodes : c.nodes = (drawn.nodes ++ [stop]).map moved
  edges : c.edges = (drawn.ended exits stop y fault).edges
  chart : ∃ name role, c = (drawn.ended exits stop y fault).chart name role

lemma Blueprint.start_id {layout : Layout} {c : Chart} {body : List Stmt} (b : Blueprint layout c body) :
    b.start.id = 1 :=
  b.start_lays.1

lemma nonempty_blueprint (layout : Layout)
    (routines : Keyed String) (startLabel stopLabel : String) (declared : List (String × Option Span))
    (body : List Stmt) (name : String) (role : Role) : Nonempty (Blueprint layout
      ((ofBody layout routines startLabel stopLabel declared body).chart name role) body) := by
  obtain ⟨start, y, fault, hstart, hlays, hkind, -⟩ :=
    Depicted.exists_place_eq .start startLabel none [] { layout, routines } []
  have hdeclared := depicted_declarations (if layout.showDeclarations then declared else [])
    (({ layout, routines } : Drawing).place .start startLabel none [] []) [{ source := 1 }]
  obtain ⟨bs, hbs, hchoices, hreturns⟩ := hdeclared.seq (depicted_drawEach body _ _)
  generalize hlast : drawEach _ _ body = last at hbs
  obtain ⟨drawn, X⟩ := last
  obtain ⟨stop, y', fault', hstop, hstopLays, hstopKind⟩ := drawn.exists_ended stopLabel X
  have hbody : ofBody layout routines startLabel stopLabel declared body = drawn.ended X stop y' fault' := by
    rw [← hstop, ofBody_eq]
    exact congrArg (fun last => finish last.1 stopLabel last.2) hlast
  rw [hbody]
  obtain ⟨f, hf, hnodes, hedges⟩ :=
    (drawn.ended X stop y' fault').exists_chart_eq (by simp [ended, join]) name role
  exact ⟨⟨_, drawn, X, bs, start, stop, y', fault', f, by rw [hstart]; rfl, by rw [hstart]; rfl, by rw [hstart]; rfl,
    by rw [hstart]; rfl, by rw [hstart]; exact hlays, hkind, hbs, hchoices, by simpa using hreturns, hstopLays,
    hstopKind, fun n => ⟨(hf n).1, (hf n).2.1, (hf n).2.2.1⟩, hnodes, hedges, name, role, rfl⟩⟩

end AlgoLang.Flow
