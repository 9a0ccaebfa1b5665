/-
# Closed trees have a text in C, and it is well nested

Every closed tree is written in C.  If its names are words and its characters single ones, a reader of C comes
through its text with the brackets as they were.
-/
import AlgoLang.Proofs.CText
import AlgoLang.Proofs.Grammar.Closed

namespace AlgoLang

open CText List C.Format Expr CGrammar C.Line Text
open String (join)

variable {e : Expr} {n text : String} {es : List Expr} {t : TypeExpr} {texts : List String}

/-! ## Steps that succeed -/

/-- The step does not fail, and its result has the property. -/
def CText.Yields {ε α : Type} (x : Except ε α) (Q : α → Prop) : Prop :=
  ∃ a, x = .ok a ∧ Q a

namespace CText.Yields

variable {ε α β : Type} {P : α → Prop} {Q : β → Prop}

lemma pure {b : β} (h : Q b) : Yields (.ok b : Except ε β) Q :=
  ⟨b, rfl, h⟩

lemma mono {Q : α → Prop} {x : Except ε α} (h : Yields x P) (hPQ : ∀ a, P a → Q a) : Yields x Q :=
  h.imp fun a ha => ⟨ha.1, hPQ a ha.2⟩

lemma bind {x : Except ε α} {f : α → Except ε β} (hx : Yields x P) (hf : ∀ a, P a → Yields (f a) Q) :
    Yields (x >>= f) Q := by
  obtain ⟨a, rfl, ha⟩ := hx
  exact hf a ha

lemma mapM {f : α → Except ε β} {as : List α} (h : ∀ a ∈ as, Yields (f a) Q) :
    Yields (as.mapM f) fun bs => ∀ b ∈ bs, Q b := by
  induction as with
  | nil => exact .pure (forall_mem_nil _)
  | cons a as ih =>
    obtain ⟨ha, has⟩ := forall_mem_cons.mp h
    rw [mapM_cons]
    exact ha.bind fun _ hb => (ih has).bind fun _ hbs => .pure (forall_mem_cons.mpr ⟨hb, hbs⟩)

end CText.Yields

/-! ## Spellings -/

/-- Names are words, and characters are single ones. -/
structure Stock.Spelled (S : Stock) : Prop where
  name : ∀ {n}, S.name n → n.toList.all CGrammar.isWordChar = true
  char : ∀ {s}, S.char s → ∃ c, s = String.singleton c

lemma Stock.Spelled.isFlat {S : Stock} (hS : S.Spelled) (hn : S.name n) : IsFlat n.toList :=
  .of_class (hS.name hn) rfl

lemma Stock.Spelled.flat {S : Stock} (hS : S.Spelled) (hn : S.name n) : Flat n :=
  .of_isFlat (hS.isFlat hn)

lemma Stock.Spelled.inline {S : Stock} (hS : S.Spelled) (hn : S.name n) : Inline n :=
  (hS.flat hn).inline

/-! ## Expressions -/

lemma CGrammar.IsNumeral.flat {t : Terminal} (h : IsNumeral text.toList t) : Flat text :=
  .of_class h.number.all rfl

lemma flat_integer (n : Int) : Flat (toString n) := by
  cases n with
  | ofNat n => exact (isNumeral_integer n).flat
  | negSucc n =>
    have hminus : Flat "-" := .plain rfl
    exact hminus.append (isNumeral_integer (n + 1)).flat

lemma Binary64.flat_text (x : Binary64) : Flat x.text := by
  cases x with
  | finite negative m e =>
    have hbody : Flat (if m == 0 then "0.0" else (shortest m e).text) := by
      split
      · exact .plain rfl
      · exact (isNumeral_decimal (ofDecimal_roundsTo _ _)).flat
    have hminus : Flat "-" := .plain rfl
    unfold text
    dsimp only
    split
    · exact hminus.append hbody
    · exact hbody
  | infinite negative => cases negative <;> exact .plain rfl
  | undefined => exact .plain rfl

lemma BinaryOp.inC_cases (op : BinaryOp) :
    op.inC = none ∨ ∃ sign, op.inC = some sign ∧ Inline (" " ++ sign ++ " ") := by
  cases op with
  | pow => exact .inl rfl
  | div | intDiv => exact .inr ⟨_, rfl, _, .division, by decide⟩
  | _ => exact .inr ⟨_, rfl, (Flat.of_isFlat (by decide)).inline⟩

lemma CText.Inline.joined {left right : String} (op : BinaryOp) (hl : Inline left) (hr : Inline right) :
    Inline (C.joined op left right) := by
  unfold C.joined
  rcases op.inC_cases with hop | ⟨sign, hop, hsign⟩
  · have hcomma : Inline ", " := .plain rfl
    have hcall : Inline ("pow(" ++ _ ++ ")") :=
      .around "pow" "" ((hl.append hcomma).append hr).paren rfl rfl (.plain rfl) (.plain rfl)
    simpa only [hop, String.append_assoc] using hcall
  · simpa only [hop, String.append_assoc] using ((hl.append hsign).append hr).paren

lemma Stock.Spelled.inline_callee {S : Stock} (hS : S.Spelled) (hn : S.name n)
    (routines : List String) : Inline (C.callee routines n) := by
  have hall : ∀ p ∈ C.renamed, p.2.toList.all CGrammar.isWordChar := by decide
  unfold C.callee
  dsimp only
  split
  · exact hS.inline hn
  · cases h : C.renamed.get? (lower n) with
    | none => exact hS.inline hn
    | some w =>
      obtain ⟨l, l', heq, -⟩ := lookup_eq_some_iff.mp h
      have hmem : (lower n, w) ∈ C.renamed := heq ▸ by simp
      exact Flat.inline (.of_class (hall _ hmem) rfl)

variable {S : Stock} {routines : List String}

/-- The text of a spelled tree can stand in a line. -/
def Emits (S : Stock) (text : String) : Prop :=
  S.Spelled → Inline text

namespace Expr

lemma emits_each (h : ∀ e ∈ es, Yields (e.toC routines) (Emits S)) :
    Yields (toCEach routines es) fun texts => ∀ t ∈ texts, Emits S t := by
  induction es with
  | nil => exact .pure (forall_mem_nil _)
  | cons e es ih =>
    obtain ⟨he, hes⟩ := forall_mem_cons.mp h
    exact he.bind fun _ ht => (ih hes).bind fun _ hts => .pure (forall_mem_cons.mpr ⟨ht, hts⟩)

lemma inline_brackets (h : ∀ t ∈ texts, Emits S t) (hS : S.Spelled) :
    Inline (join (texts.map fun i => "[" ++ i ++ "]")) :=
  .join (forall_mem_map.mpr fun t ht => (h t ht hS).bracket)

lemma inline_arguments (h : ∀ t ∈ texts, Emits S t) (hS : S.Spelled) :
    Inline ("(" ++ ", ".intercalate texts ++ ")") :=
  (Inline.intercalate (.plain rfl) fun t ht => h t ht hS).paren

lemma Made.flat (h : e.Made S) (hliteral : e.isLiteral) (routines : List String) :
    Yields (e.toC routines) fun text => S.Spelled → Flat text := by
  cases h with
  | integer => exact .pure fun _ => flat_integer _
  | real => exact .pure fun _ => Binary64.flat_text _
  | @boolean _ b => exact .pure fun _ => by cases b <;> exact .plain rfl
  | @char _ _ hc =>
    refine .pure fun hS => ?_
    obtain ⟨c, rfl⟩ := hS.char hc
    exact .quoted (.inl rfl) [c] (by simp [C.charBody])
  | @string _ s => exact .pure fun _ => .quoted (.inr rfl) s.toList (by simp [literal, escape_eq (.inr rfl)])
  | _ => cases hliteral

lemma Made.emits_literal (h : e.Made S) (hliteral : e.isLiteral) : Yields (e.toC routines) (Emits S) :=
  (h.flat hliteral routines).mono fun _ hflat hS => (hflat hS).inline

lemma Made.emits (h : e.Made S) (routines : List String) : Yields (e.toC routines) (Emits S) := by
  induction h with
  | integer => exact Made.integer.emits_literal rfl
  | real hx => exact (Made.real hx).emits_literal rfl
  | boolean => exact Made.boolean.emits_literal rfl
  | @char _ _ hc => exact (Made.char (h := hc)).emits_literal rfl
  | string => exact Made.string.emits_literal rfl
  | @name _ _ hn => exact .pure fun hS => hS.inline hn
  | binary _ _ ihl ihr => exact ihl.bind fun _ hl => ihr.bind fun _ hr => .pure fun hS => .joined _ (hl hS) (hr hS)
  | @unary _ op _ _ ih =>
    have hop : Inline op.inC := by cases op <;> exact .plain rfl
    exact ih.bind fun _ he => .pure fun hS => hop.append (he hS)
  | index _ _ iha ihis =>
    exact (emits_each ihis).bind fun _ his => iha.bind fun _ ha => .pure fun hS =>
      (ha hS).append (inline_brackets his hS)
  | @field _ _ _ hf _ ih => exact ih.bind fun _ ho => .pure fun hS => ((ho hS).append (.plain rfl)).append (hS.inline hf)
  | @call _ _ _ hn _ ih =>
    refine (emits_each ih).bind fun _ hargs => .pure fun hS => ?_
    simpa only [String.append_assoc] using (hS.inline_callee hn routines).append (inline_arguments hargs hS)
  | paren _ ih => exact ih.bind fun _ he => .pure fun hS => (he hS).paren

lemma emits_toCEach (h : ∀ e ∈ es, e.Made S) (routines : List String) :
    Yields (toCEach routines es) fun texts => ∀ t ∈ texts, Emits S t :=
  emits_each fun e he => (h e he).emits routines

lemma flat_literalInC (hliteral : e.isLiteral) (h : e.Made S) :
    Yields e.literalInC fun text => S.Spelled → Flat text := by
  rw [literalInC, if_pos hliteral]
  exact h.flat hliteral []

end Expr

/-! ## Types and declarations -/

lemma Primitive.inline_inC (p : Primitive) : Inline p.inC := by
  cases p with
  | other => exact (.plain rfl : Inline "int")
  | _ => exact .plain rfl

namespace TypeExpr

lemma Made.emits_suffixInC (h : t.Made S) : Yields t.suffixInC (Emits S) := by
  induction h with
  | array hds _ ih =>
    exact (emits_toCEach hds []).bind fun _ hds => ih.bind fun _ hmore => .pure fun hS =>
      (inline_brackets hds hS).append (hmore hS)
  | primitive | record | enumeration | named => exact .pure fun _ => .plain rfl

lemma inline_declared {type suffix : String} (htype : Emits S type) (hsuffix : Emits S suffix) (hn : S.name n)
    (hS : S.Spelled) : Inline (type ++ " " ++ n ++ suffix) :=
  (((htype hS).append (.plain rfl)).append (hS.inline hn)).append (hsuffix hS)

lemma emits_fieldsToC {fields : List VarDecl} (hnames : ∀ f ∈ fields, ∀ n ∈ f.names, S.name n)
    (h : ∀ f ∈ fields, Yields f.type.toC (Emits S) ∧ Yields f.type.suffixInC (Emits S)) :
    Yields (fieldsToC fields) fun texts => ∀ t ∈ texts, Emits S t := by
  induction fields with
  | nil => exact .pure (forall_mem_nil _)
  | cons f fields ih =>
    obtain ⟨⟨htype, hsuffix⟩, hrest⟩ := forall_mem_cons.mp h
    obtain ⟨hnames, hothers⟩ := forall_mem_cons.mp hnames
    obtain ⟨s, names, t⟩ := f
    cases names with
    | nil => exact ih hothers hrest
    | cons n names =>
      refine htype.bind fun _ ht => hsuffix.bind fun _ hd => (ih hothers hrest).bind fun _ hts => .pure ?_
      refine forall_mem_append.mpr ⟨forall_mem_map.mpr fun m hm hS => ?_, hts⟩
      exact (inline_declared ht hd (hnames m hm) hS).append (.plain rfl)

lemma Made.emits_toC (h : t.Made S) : Yields t.toC (Emits S) := by
  induction h with
  | @primitive _ p => exact .pure fun _ => p.inline_inC
  | @enumeration _ vs hvs =>
    refine .pure fun hS => ?_
    have hnames : Inline (", ".intercalate vs) := .intercalate (.plain rfl) fun v hv => hS.inline (hvs v hv)
    exact .around "enum " "" hnames.brace rfl rfl (.plain rfl) (.plain rfl)
  | @named _ _ hn => exact .pure fun hS => hS.inline hn
  | array _ _ ih => exact ih
  | @record _ fields hnames hfields ih =>
    have hboth := emits_fieldsToC hnames fun f hf => ⟨ih f hf, (hfields f hf).emits_suffixInC⟩
    refine hboth.bind fun texts htexts => .pure fun hS => ?_
    have hfields : Inline (" ".intercalate texts) := .intercalate (.plain rfl) fun t ht => htexts t ht hS
    exact .around "struct " "" hfields.brace rfl rfl (.plain rfl) (.plain rfl)

end TypeExpr

lemma VarDecl.silent_toC {d : VarDecl} (h : d.type.Made S) (hnames : ∀ n ∈ d.names, S.name n) (depth : Nat) :
    Yields (d.toC depth) fun ls => S.Spelled → Silent ls := by
  refine h.emits_toC.bind fun _ ht => h.emits_suffixInC.bind fun _ hd => .pure fun hS => ?_
  rw [map_eq_flatMap]
  exact .flatMap fun n hn => .statement (TypeExpr.inline_declared ht hd (hnames n hn) hS)

lemma TypeDecl.silent_toC {d : TypeDecl} (h : d.definition.Made S) (hn : S.name d.name) (depth : Nat) :
    Yields (d.toC depth) fun ls => S.Spelled → Silent ls := by
  obtain ⟨s, name, t⟩ := d
  have hother (ht : t.Made S) : Yields (do return [⟨depth, "typedef " ++ (← t.declareInC name) ++ ";"⟩] :
      Except C.Unsupported (List C.Line)) fun ls => S.Spelled → Silent ls := by
    have hdeclared : Yields (t.declareInC name) (Emits S) :=
      ht.emits_toC.bind fun _ htype => ht.emits_suffixInC.bind fun _ hsuffix => .pure fun hS =>
        TypeExpr.inline_declared htype hsuffix hn hS
    refine hdeclared.bind fun _ htext => .pure fun hS => ?_
    exact .statement ((.plain rfl : Inline "typedef ").append (htext hS))
  cases h with
  | @record _ fields hnames hfields =>
    have hmembers := Yields.mapM fun f hf => VarDecl.silent_toC (hfields f hf) (hnames f hf) (depth + 1)
    refine hmembers.bind fun members hmembers => .pure fun hS => ?_
    have hbody : Silent members.flatten := .flatten fun ls hls => hmembers ls hls hS
    exact .block (.plain rfl : Inline "typedef struct ") hbody.whole ((.plain rfl : Inline " ").append (hS.inline hn))
  | @enumeration _ vs hvs =>
    refine .pure fun hS => ?_
    have hvalues : Inline (", ".intercalate vs) := .intercalate (.plain rfl) fun v hv => hS.inline (hvs v hv)
    exact .statement ((hvalues.brace.around "typedef enum " " ").append (hS.inline hn))
  | primitive => exact hother .primitive
  | array hds ht => exact hother (.array hds ht)
  | @named _ _ hm => exact hother (.named (h := hm))

namespace ConstDecl

variable {d : ConstDecl}

lemma silent_defineInC (hliteral : d.value.isLiteral) (h : d.value.Made S) (hn : S.name d.name) :
    Yields d.defineInC fun l => S.Spelled → Silent [l] := by
  refine (flat_literalInC hliteral h).bind fun _ hvalue => .pure fun hS => .flat ?_
  exact (((.plain rfl : Flat "#define ").append (hS.flat hn)).append (.plain rfl)).append (hvalue hS)

lemma silent_toC (hliteral : d.value.isLiteral) (h : d.value.Made S) (hn : S.name d.name) (depth : Nat) :
    Yields (d.toC depth) fun l => S.Spelled → Silent [l] := by
  refine (flat_literalInC hliteral h).bind fun _ hvalue => .pure fun hS => .statement ?_
  have htype : Inline d.value.literalTypeInC := by
    unfold literalTypeInC
    split <;> exact .plain rfl
  exact (((((.plain rfl : Inline "const ").append htype).append (.plain rfl)).append (hS.inline hn)).append (.plain rfl)).append (hvalue hS).inline

end ConstDecl

lemma Param.emits_toC {p : Param} (h : p.type.Made S) (hn : S.name p.name) : Yields p.toC (Emits S) := by
  refine h.emits_toC.bind fun _ htype => h.emits_suffixInC.bind fun _ hsuffix => .pure fun hS => ?_
  have hstar : Inline (if p.byReference then "*" else "") := by split <;> exact .plain rfl
  exact ((((htype hS).append (.plain rfl)).append hstar).append (hS.inline hn)).append (hsuffix hS)

/-! ## Statements -/

lemma C.Format.inline_scanned (f : C.Format) : Inline ("\"" ++ f.scanned ++ "\"") :=
  Flat.inline (.quoted (.inr rfl) f.scanned.toList (by cases f <;> rfl))

lemma C.Format.inline_printed (fs : List C.Format) : Inline ("\"" ++ join (fs.map printed) ++ "\\n\"") := by
  have hescape : (join (fs.map printed)).toList.flatMap (escapeChar '"') = (join (fs.map printed)).toList := by
    induction fs with
    | nil => rfl
    | cons f fs ih =>
      rw [map_cons, String.join_cons, String.toList_append, flatMap_append, ih]
      cases f <;> rfl
  refine Flat.inline (.quoted (.inr rfl) ((join (fs.map printed)).toList ++ ['\n']) ?_)
  rw [flatMap_append, hescape]
  simp [escapeChar]

/-- A reader comes through the lines if the names are words. -/
def Lays (S : Stock) (ls : List C.Line) : Prop :=
  S.Spelled → Whole ls

namespace Stmt

variable {ctx : C.Context} {depth : Nat}

lemma lays_each {body : List Stmt} (h : ∀ s ∈ body, Yields (s.toC ctx depth) (Lays S)) :
    Yields (toCEach ctx depth body) (Lays S) := by
  induction body with
  | nil => exact .pure fun _ => .nil trivial
  | cons s body ih =>
    obtain ⟨hs, hbody⟩ := forall_mem_cons.mp h
    exact hs.bind fun _ hs => (ih hbody).bind fun _ hrest => .pure fun hS => (hs hS).append (hrest hS)

lemma lays_casesToC {cases : List CaseClause} (hvalues : ∀ c ∈ cases, ∀ v ∈ c.values, v.Made S)
    (hbodies : ∀ c ∈ cases, ∀ s ∈ c.body, Yields (s.toC ctx (depth + 1)) (Lays S)) :
    Yields (casesToC ctx depth cases) (Lays S) := by
  induction cases with
  | nil => exact .pure fun _ => .nil trivial
  | cons c cases ih =>
    obtain ⟨s, values, body⟩ := c
    obtain ⟨hvs, hvalues⟩ := forall_mem_cons.mp hvalues
    obtain ⟨hbody, hbodies⟩ := forall_mem_cons.mp hbodies
    have hlabels : Yields (labelsInC ctx depth values) (Lays S) := by
      refine (emits_toCEach hvs ctx.routines).bind fun texts htexts => .pure fun hS => ?_
      rw [map_eq_flatMap]
      exact .flatMap fun v hv => .line (((.plain rfl : Inline "case ").append (htexts v hv hS)).append (.plain rfl))
    refine hlabels.bind fun _ hlabels => (lays_each hbody).bind fun _ hinner =>
      (ih hvalues hbodies).bind fun _ hrest => .pure fun hS => ?_
    have hbreak : Whole [⟨depth + 1, "break;"⟩] := .line (.plain rfl)
    exact ((hlabels hS).append (hinner hS)).append (hbreak.append (hrest hS))

lemma lays_scanInC {t : Expr} (h : t.Made S) : Yields (scanInC ctx depth t) fun l => Lays S [l] := by
  refine (h.emits _).bind fun _ hplace => .pure fun hS => .line ?_
  have hargs := ((inline_scanned (t.readAs ctx)).append (.plain rfl : Inline ", &")).append (hplace hS)
  exact (((.plain rfl : Inline "scanf").append hargs.paren).append (.plain rfl : Inline ";")).cast (by simp)

lemma lays_printInC (h : ∀ e ∈ es, e.Made S) : Yields (printInC ctx depth es) fun l => Lays S [l] := by
  refine (emits_toCEach h _).bind fun texts htexts => .pure fun hS => .line ?_
  have hformats : Inline ("\"" ++ join (es.map fun e => (e.shownAs ctx).printed) ++ "\\n\"") := by
    simpa [Function.comp_def] using inline_printed (es.map (·.shownAs ctx))
  have hmore : Inline (join (texts.map (", " ++ ·))) :=
    .join (forall_mem_map.mpr fun t ht => (.plain rfl : Inline ", ").append (htexts t ht hS))
  exact (((.plain rfl : Inline "printf").append (hformats.append hmore).paren).append (.plain rfl : Inline ";")).cast (by simp)

lemma emits_forInC {counter : String} {a b : Expr} {step : Option Expr} (hn : S.name counter) (ha : a.Made S)
    (hb : b.Made S) (hstep : ∀ e ∈ step, e.Made S) : Yields (forInC ctx depth counter a b step) fun l =>
      l.depth = depth ∧ (S.Spelled → ∃ head, Inline head ∧ l.text.toList = head.toList ++ ['\x7b']) := by
  refine (ha.emits _).bind fun start hstart => (hb.emits _).bind fun stop hstop => ?_
  have hhead {update : String} (hupdate : Emits S update) (hS : S.Spelled) : Inline ("for (" ++
      (counter ++ " = " ++ start ++ "; " ++ counter ++ " <= " ++ stop ++ "; " ++ update) ++ ") ") :=
    have hcounter := hS.inline hn
    .around "for " " " (((((((((hcounter.append (.plain rfl)).append (hstart hS)).append (.plain rfl)).append hcounter).append
      (.plain rfl)).append (hstop hS)).append (.plain rfl)).append (hupdate hS)).paren)
  cases step with
  | none =>
    have hupdate : Emits S (counter ++ "++") := fun hS => (hS.inline hn).append (.plain rfl)
    exact .pure ⟨rfl, fun hS => ⟨_, hhead hupdate hS, by simp⟩⟩
  | some e =>
    refine ((hstep e rfl).emits _).bind fun by_ he => ?_
    have hupdate : Emits S (counter ++ " += " ++ by_) := fun hS => ((hS.inline hn).append (.plain rfl)).append (he hS)
    exact .pure ⟨rfl, fun hS => ⟨_, hhead hupdate hS, by simp⟩⟩

lemma Made.lays {s : Stmt} (h : s.Made S) (ctx : C.Context) (depth : Nat) : Yields (s.toC ctx depth) (Lays S) := by
  induction h generalizing depth with
  | assign ht hv =>
    exact (ht.emits _).bind fun _ ht => (hv.emits _).bind fun _ hv => .pure fun hS =>
      .line ((((ht hS).append (.plain rfl)).append (hv hS)).append (.plain rfl))
  | @ifThen _ _ _ no hc _ _ ihyes ihno =>
    rw [toC]
    refine (hc.emits _).bind fun _ hc => (lays_each fun s hs => ihyes s hs _).bind fun _ hyes => ?_
    have hhead (hS : S.Spelled) := (hc hS).paren.around "if " " "
    match no, ihno with
    | none, _ | some [], _ =>
      refine .pure fun hS => ?_
      simpa using .block (hhead hS) (hyes hS) (.plain rfl : Inline "")
    | some (s :: ss), ihno =>
      refine (lays_each fun x hx => ihno _ rfl x hx _).bind fun _ hno => .pure fun hS => ?_
      exact .choice (hhead hS) (hyes hS) (hno hS)
  | «while» hc _ ih =>
    exact (hc.emits _).bind fun _ hc => (lays_each fun s hs => ih s hs _).bind fun _ hbody => .pure fun hS =>
      .block ((hc hS).paren.around "while " " ") (hbody hS) (.plain rfl : Inline "")
  | doWhile _ hc ih =>
    exact (lays_each fun s hs => ih s hs _).bind fun _ hbody => (hc.emits _).bind fun _ hc => .pure fun hS =>
      .block (.plain rfl : Inline "do ") (hbody hS) ((hc hS).paren.around " while " ";")
  | @«for» _ _ _ _ _ _ hn ha hb hstep _ ih =>
    refine (emits_forInC hn ha hb hstep).bind fun l hl => (lays_each fun s hs => ih s hs _).bind fun _ hbody =>
      .pure fun hS => ?_
    obtain ⟨rfl, hl⟩ := hl
    obtain ⟨head, hhead, hfirst⟩ := hl hS
    exact .block hhead (hbody hS) (.plain rfl : Inline "") hfirst
  | @switch _ _ _ default he hvalues _ _ ihcases ihdefault =>
    rw [toC]
    refine (he.emits _).bind fun _ he => (lays_casesToC hvalues fun c hc s hs => ihcases c hc s hs _).bind
      fun _ hcases => ?_
    have hhead (hS : S.Spelled) := (he hS).paren.around "switch " " "
    match default, ihdefault with
    | none, _ =>
      refine .pure fun hS => ?_
      simpa using .block (hhead hS) (hcases hS) (.plain rfl : Inline "")
    | some body, ihdefault =>
      refine (lays_each fun s hs => ihdefault _ rfl s hs _).bind fun _ hbody => .pure fun hS => ?_
      have hlabel : Whole [⟨depth + 1, "default:"⟩] := .line (.plain rfl)
      have hbreak : Whole [⟨depth + 2, "break;"⟩] := .line (.plain rfl)
      have hdefault := (hlabel.append (hbody hS)).append hbreak
      exact .block (hhead hS) ((hcases hS).append hdefault) (.plain rfl : Inline "")
  | @call _ _ _ hn hargs =>
    refine (emits_toCEach hargs _).bind fun _ hargs => .pure fun hS => .line ?_
    have hcall := (hS.inline_callee hn ctx.routines).append (inline_arguments hargs hS)
    exact (hcall.append (.plain rfl : Inline ";")).cast (by simp)
  | @scan _ ts hts =>
    have hscans : Yields (ts.mapM (scanInC ctx depth)) fun ls => ∀ l ∈ ls, Lays S [l] :=
      .mapM fun t ht => lays_scanInC (hts t ht)
    exact hscans.mono fun ls hls hS => .each fun l hl => hls l hl hS
  | print hes => exact (lays_printInC hes).bind fun _ hl => .pure hl
  | «return» he =>
    exact (he.emits _).bind fun _ he => .pure fun hS =>
      .line (((.plain rfl : Inline "return ").append (he hS)).append (.plain rfl))
  | block _ ih => exact lays_each fun s hs => ih s hs _

end Stmt

/-! ## Programs -/

lemma silent_mapM {α : Type} {f : α → Except C.Unsupported (List C.Line)} {as : List α}
    (h : ∀ a ∈ as, Yields (f a) fun ls => S.Spelled → Silent ls) :
    Yields (as.mapM f) fun lss => S.Spelled → Silent lss.flatten :=
  (Yields.mapM h).mono fun _ hlss hS => .flatten fun ls hls => hlss ls hls hS

lemma silent_mapM_line {α : Type} {f : α → Except C.Unsupported C.Line} {as : List α}
    (h : ∀ a ∈ as, Yields (f a) fun l => S.Spelled → Silent [l]) : Yields (as.mapM f) fun ls => S.Spelled → Silent ls :=
  (Yields.mapM h).mono fun _ hls hS => .each fun l hl => hls l hl hS

namespace Routine

variable {r : Routine}

/-- What is shown of the head of a routine ends in its name and the brackets. -/
def Heads (r : Routine) (text : String) : Prop :=
  ∃ type, Stretch text.toList (type ++ ' ' :: (r.name.toList ++ ['(', ')'])) ∧ '\n' ∉ type

lemma Heads.inline (h : r.Heads text) (hn : S.name r.name) (hS : S.Spelled) : Inline text := by
  obtain ⟨type, hs, hline⟩ := h
  exact ⟨_, hs, by simp [hline, (hS.isFlat hn).2]⟩

lemma Made.signatureInC (h : r.Made S) : Yields r.signatureInC fun text => S.Spelled → r.Heads text := by
  have hresult : Yields (r.result.elim (.ok "void") TypeExpr.toC) (Emits S) := by
    cases hr : r.result with
    | none => exact .pure fun _ => .plain rfl
    | some t => exact (h.result t hr).emits_toC
  have hparams := Yields.mapM fun p hp => Param.emits_toC (h.params p hp) (h.paramNames p hp)
  refine hresult.bind fun result hresult => hparams.bind fun params hparams => .pure fun hS => ?_
  obtain ⟨type, htype, hline⟩ := hresult hS
  have hlist : Inline (if params.isEmpty then "void" else ", ".intercalate params) := by
    split
    · exact .plain rfl
    · exact .intercalate (.plain rfl) fun p hp => hparams p hp hS
  obtain ⟨_, hlist, -⟩ := hlist
  have hname : Stretch r.name.toList r.name.toList := .plain (hS.isFlat h.name).1
  have hspace : Stretch [' '] [' '] := .plain (by decide)
  refine ⟨type, ?_, hline⟩
  simpa using ((htype.append hspace).append hname).append (hlist.enclosed (o := '(') rfl)

lemma Made.toC (h : r.Made S) (ctx : C.Context) :
    Yields (r.toC ctx) fun ls => S.Spelled → Lines (Defines [r.name]) ls := by
  refine h.signatureInC.bind fun _ hhead =>
    (silent_mapM fun t ht => TypeDecl.silent_toC (h.locals.types t ht) (h.locals.typeNames t ht) 1).bind fun _ htypes =>
    (silent_mapM_line fun c hc => ConstDecl.silent_toC (h.locals.constants c hc) (h.locals.values c hc)
      (h.locals.constantNames c hc) 1).bind fun _ hconstants =>
    (silent_mapM fun v hv => VarDecl.silent_toC (h.locals.vars v hv) (h.locals.varNames v hv) 1).bind fun _ hvars =>
    (Stmt.lays_each fun s hs => (h.body s hs).lays _ 1).bind fun _ hbody => .pure fun hS => ?_
  obtain ⟨type, htype, hline⟩ := hhead hS
  have hspace : Stretch " ".toList [' '] := .plain (by decide)
  have hinner := (((htypes hS).append (hconstants hS)).append (hvars hS)).whole.append (hbody hS)
  have hnothing : Stretch "".toList [] := .nil
  refine .block (String.toList_append ▸ htype.append hspace) hinner hnothing (fun margin hmargin => ?_) (by simp) rfl
  have hfront : '\n' ∉ margin ++ type := by simp [hmargin.2, hline]
  simpa using Defines.function (hS.name h.name) hfront

end Routine

namespace Program

variable {p : Program}

lemma silent_empty : Silent [empty] :=
  .flat (.plain rfl)

lemma silent_headingInC (hS : S.Spelled) (hn : S.name p.name) : Silent p.headingInC := by
  have horigin : Silent [⟨0, "// Generated from USDB Algorithmic Language"⟩] :=
    .comment (by simp : '\n' ∉ " Generated from USDB Algorithmic Language".toList) (by simp)
  have hname : Silent [⟨0, "// Algorithm: " ++ p.name⟩] :=
    .comment (by simp [(hS.isFlat hn).2] : '\n' ∉ (" Algorithm: " ++ p.name).toList) (by simp)
  have hheaders : Silent (C.headers.map fun h => ⟨0, "#include <" ++ h ++ ">"⟩) := by
    have hflat : ∀ h ∈ C.headers, IsFlat h.toList := by decide
    exact .each (forall_mem_map.mpr fun h hh => .flat (((.plain rfl : Flat "#include <").append (.of_isFlat (hflat h hh))).append (.plain rfl)))
  exact (((horigin.append hname).append silent_empty).append hheaders).append silent_empty

lemma defines_routines {rs : List Routine} (h : ∀ r ∈ rs, r.Made S) (ctx : C.Context) :
    Yields (rs.mapM (Routine.toC ctx)) fun lss => S.Spelled →
      Lines (Defines (rs.map (·.name))) (lss.flatMap (· ++ [empty])) := by
  induction rs with
  | nil => exact .pure fun _ => .nil fun _ => rfl
  | cons r rs ih =>
    obtain ⟨hr, hrs⟩ := forall_mem_cons.mp h
    rw [mapM_cons]
    refine (hr.toC ctx).bind fun _ hfirst => (ih hrs).bind fun _ hrest => .pure fun hS => ?_
    exact ((hfirst hS).append silent_empty fun _ _ h h' => h.append h').append (hrest hS) fun _ _ h h' => h.append h'

/-- **The text of a program.**  What stands before the main function defines one function for each routine. -/
lemma Made.toC (h : p.Made S) : Yields p.toC fun ls => S.Spelled → ∃ front body,
    ls = front ++ ⟨0, "int main(void) \x7b"⟩ :: body ++ [⟨0, "\x7d"⟩] ∧
      Lines (Defines (p.routines.map (·.name))) front ∧ Whole body := by
  have hprototypes : Yields (p.routines.mapM fun r => do return (⟨0, (← r.signatureInC) ++ ";"⟩ : C.Line))
      fun ls => S.Spelled → Silent ls :=
    silent_mapM_line fun r hr => (h.routines r hr).signatureInC.bind fun _ hhead => .pure fun hS =>
      .statement ((hhead hS).inline (h.routines r hr).name hS)
  refine (Yields.mapM fun t ht => TypeDecl.silent_toC (h.globals.types t ht) (h.globals.typeNames t ht) 0).bind
      fun types htypes =>
    (silent_mapM_line fun c hc => ConstDecl.silent_defineInC (h.globals.constants c hc) (h.globals.values c hc)
      (h.globals.constantNames c hc)).bind fun constants hconstants =>
    (silent_mapM fun v hv => VarDecl.silent_toC (h.globals.vars v hv) (h.globals.varNames v hv) 0).bind fun _ hvars =>
    hprototypes.bind fun prototypes hprototypes => (defines_routines h.routines p.contextInC).bind fun _ hdefinitions =>
    (Stmt.lays_each fun s hs => (h.body s hs).lays _ 1).bind fun _ hbody => .pure fun hS => ?_
  have hgap : Silent (if p.globals.constants.isEmpty && p.globals.vars.isEmpty then [] else [empty]) := by
    split
    · exact .flatten (forall_mem_nil _)
    · exact silent_empty
  have hgapAfter : Silent (C.gapAfter prototypes) := by
    cases prototypes with
    | nil => exact .flatten (forall_mem_nil _)
    | cons => exact silent_empty
  have hreturn : Whole [⟨1, "return 0;"⟩] := .line (.plain rfl)
  have hfront := ((((((silent_headingInC hS h.name).append
    (.flatMap fun ls hls => (htypes ls hls hS).append silent_empty)).append
      ((hconstants hS).append (hvars hS))).append hgap).append (hprototypes hS)).append hgapAfter)
  exact ⟨_, _, by simp, .append hfront (hdefinitions hS) fun _ _ h h' => h.append h', (hbody hS).append hreturn⟩

end Program

end AlgoLang
