/-
# Small and capital letters of any script

Every scope is keyed by the name in small letters.  Names that were written in a program are ASCII; one handed
to the library by a caller may be in any script.  A few letters have a counterpart of more than one character,
and the capital sigma is a final sigma at the end of a word.
-/
import AlgoLang.Text.Cased

namespace AlgoLang.Text

/-- Letters that lie `step` apart and whose counterparts all lie at one distance. -/
structure CaseRun where
  first : Nat
  last : Nat
  step : Nat
  shift : Int

def CaseRun.counterpart? (r : CaseRun) (n : Nat) : Option Nat :=
  if r.first ≤ n && n ≤ r.last && (n - r.first) % r.step == 0 then some (n + r.shift).toNat else none

/-- Runs in the order of their letters.  Of each are given the way to its first letter from the letter
before, how many letters it has, how far apart they lie, and how far off their counterparts are. -/
def caseRuns (before : Nat) : List (Nat × Nat × Nat × Int) → List CaseRun
  | [] => []
  | (gap, count, step, shift) :: runs =>
    let first := before + gap
    let last := first + (count - 1) * step
    ⟨first, last, step, shift⟩ :: caseRuns last runs

/-- Capital letters beyond ASCII and the way to their small letters. -/
def toSmall : List CaseRun :=
  caseRuns 0
    [(192,23,1,32),(2,7,1,32),(34,24,2,1),(4,3,2,1),(3,8,2,1),(3,23,2,1),(2,1,1,-121),(1,3,2,1),
     (4,1,1,210),(1,2,2,1),(2,1,1,206),(1,1,1,1),(2,2,1,205),(1,1,1,1),(3,1,1,79),(1,1,1,202),
     (1,1,1,203),(1,1,1,1),(2,1,1,205),(1,1,1,207),(2,1,1,211),(1,1,1,209),(1,1,1,1),(4,1,1,211),
     (1,1,1,213),(2,1,1,214),(1,3,2,1),(2,1,1,218),(1,1,1,1),(2,1,1,218),(3,1,1,1),(2,1,1,218),
     (1,1,1,1),(2,2,1,217),(1,2,2,1),(2,1,1,219),(1,1,1,1),(4,1,1,1),(8,1,1,2),(1,1,1,1),(2,1,1,2),
     (1,1,1,1),(2,1,1,2),(1,9,2,1),(3,9,2,1),(3,1,1,2),(1,2,2,1),(2,1,1,-97),(1,1,1,-56),(1,20,2,1),
     (2,1,1,-130),(2,9,2,1),(8,1,1,10795),(1,1,1,1),(2,1,1,-163),(1,1,1,10792),(3,1,1,1),
     (2,1,1,-195),(1,1,1,69),(1,1,1,71),(1,5,2,1),(290,2,2,1),(4,1,1,1),(9,1,1,116),(7,1,1,38),
     (2,3,1,37),(2,1,1,64),(2,2,1,63),(2,17,1,32),(2,9,1,32),(36,1,1,8),(9,12,2,1),(6,1,1,-60),
     (3,1,1,1),(2,1,1,-7),(1,1,1,1),(3,3,1,-130),(1,16,1,80),(1,32,1,32),(49,17,2,1),(10,27,2,1),
     (2,1,1,15),(1,7,2,1),(3,48,2,1),(3,38,1,48),(2890,38,1,7264),(2,1,1,7264),(6,1,1,7264),
     (723,80,1,38864),(1,6,1,8),(2203,43,1,-3008),(3,3,1,-3008),(321,75,2,1),(10,1,1,-7615),
     (2,48,2,1),(10,8,1,-8),(9,6,1,-8),(11,8,1,-8),(9,8,1,-8),(9,6,1,-8),(12,4,2,-8),(9,8,1,-8),
     (25,8,1,-8),(9,8,1,-8),(9,8,1,-8),(9,2,1,-8),(1,2,1,-74),(1,1,1,-9),(12,4,1,-86),(1,1,1,-9),
     (12,2,1,-8),(1,2,1,-100),(13,2,1,-8),(1,2,1,-112),(1,1,1,-7),(12,2,1,-128),(1,2,1,-126),
     (1,1,1,-9),(298,1,1,-7517),(4,1,1,-8383),(1,1,1,-8262),(7,1,1,28),(46,16,1,16),(20,1,1,1),
     (819,26,1,26),(1841,48,1,48),(49,1,1,1),(2,1,1,-10743),(1,1,1,-3814),(1,1,1,-10727),(3,3,2,1),
     (2,1,1,-10780),(1,1,1,-10749),(1,1,1,-10783),(1,1,1,-10782),(2,1,1,1),(3,1,1,1),(9,2,1,-10815),
     (1,50,2,1),(9,2,2,1),(5,1,1,1),(31054,23,2,1),(20,14,2,1),(136,7,2,1),(4,31,2,1),(11,2,2,1),
     (2,1,1,-35332),(1,5,2,1),(5,1,1,1),(2,1,1,-42280),(3,2,2,1),(4,10,2,1),(2,1,1,-42308),
     (1,1,1,-42319),(1,1,1,-42315),(1,1,1,-42305),(1,1,1,-42308),(2,1,1,-42258),(1,1,1,-42282),
     (1,1,1,-42261),(1,1,1,928),(1,8,2,1),(2,1,1,-48),(1,1,1,-42307),(1,1,1,-35384),(1,2,2,1),
     (7,1,1,1),(6,2,2,1),(29,1,1,1),(22316,26,1,32),(1222,40,1,40),(137,36,1,40),(157,11,1,39),
     (2,15,1,39),(2,7,1,39),(2,2,1,39),(1771,51,1,64),(3054,32,1,32),(21889,32,1,32),(31393,34,1,34)
     ]

def CaseRun.reversed (r : CaseRun) : CaseRun where
  first := (r.first + r.shift).toNat
  last := (r.last + r.shift).toNat
  step := r.step
  shift := -r.shift

/-- Small letters beyond ASCII that are the counterpart of no capital letter, and the way to theirs. -/
def toCapitalOnly : List CaseRun :=
  caseRuns 0
    [(181,1,1,743),(124,1,1,-232),(78,1,1,-300),(70,1,1,-1),(3,1,1,-1),(3,1,1,-1),(39,1,1,-1),
     (339,1,1,84),(125,1,1,-31),(14,1,1,-62),(1,1,1,-57),(4,1,1,-47),(1,1,1,-54),(26,1,1,-86),
     (1,1,1,-80),(4,1,1,-96),(6283,1,1,-6254),(1,1,1,-6253),(1,1,1,-6244),(1,2,1,-6242),
     (1,1,1,-6243),(1,1,1,-6236),(1,1,1,-6181),(1,1,1,35266),(531,1,1,-59),(291,1,1,-7205)]

/-- Small letters beyond ASCII and the way to their capital letters. -/
def toCapital : List CaseRun :=
  toCapitalOnly ++ toSmall.map CaseRun.reversed

def toSmallMany : List (Nat × List Nat) :=
  [(0x130, [0x69, 0x307])]

/-- Greek vowels with an iota below, in three rows of eight small and eight capital letters. -/
def withIota : List (Nat × List Nat) :=
  [(0x1F80, 0x1F08), (0x1F90, 0x1F28), (0x1FA0, 0x1F68)].flatMap fun (first, capital) =>
    (List.range 16).map fun i => (first + i, [capital + i % 8, 0x399])

def toCapitalMany : List (Nat × List Nat) :=
  withIota ++
  [(0xDF,[0x53,0x53]),(0x149,[0x2BC,0x4E]),(0x1F0,[0x4A,0x30C]),(0x390,[0x399,0x308,0x301]),
   (0x3B0,[0x3A5,0x308,0x301]),(0x587,[0x535,0x552]),(0x1E96,[0x48,0x331]),(0x1E97,[0x54,0x308]),
   (0x1E98,[0x57,0x30A]),(0x1E99,[0x59,0x30A]),(0x1E9A,[0x41,0x2BE]),(0x1F50,[0x3A5,0x313]),
   (0x1F52,[0x3A5,0x313,0x300]),(0x1F54,[0x3A5,0x313,0x301]),(0x1F56,[0x3A5,0x313,0x342]),
   (0x1FB2,[0x1FBA,0x399]),(0x1FB3,[0x391,0x399]),(0x1FB4,[0x386,0x399]),(0x1FB6,[0x391,0x342]),
   (0x1FB7,[0x391,0x342,0x399]),(0x1FBC,[0x391,0x399]),(0x1FC2,[0x1FCA,0x399]),
   (0x1FC3,[0x397,0x399]),(0x1FC4,[0x389,0x399]),(0x1FC6,[0x397,0x342]),
   (0x1FC7,[0x397,0x342,0x399]),(0x1FCC,[0x397,0x399]),(0x1FD2,[0x399,0x308,0x300]),
   (0x1FD3,[0x399,0x308,0x301]),(0x1FD6,[0x399,0x342]),(0x1FD7,[0x399,0x308,0x342]),
   (0x1FE2,[0x3A5,0x308,0x300]),(0x1FE3,[0x3A5,0x308,0x301]),(0x1FE4,[0x3A1,0x313]),
   (0x1FE6,[0x3A5,0x342]),(0x1FE7,[0x3A5,0x308,0x342]),(0x1FF2,[0x1FFA,0x399]),
   (0x1FF3,[0x3A9,0x399]),(0x1FF4,[0x38F,0x399]),(0x1FF6,[0x3A9,0x342]),
   (0x1FF7,[0x3A9,0x342,0x399]),(0x1FFC,[0x3A9,0x399]),(0xFB00,[0x46,0x46]),(0xFB01,[0x46,0x49]),
   (0xFB02,[0x46,0x4C]),(0xFB03,[0x46,0x46,0x49]),(0xFB04,[0x46,0x46,0x4C]),(0xFB05,[0x53,0x54]),
   (0xFB06,[0x53,0x54]),(0xFB13,[0x544,0x546]),(0xFB14,[0x544,0x535]),(0xFB15,[0x544,0x53B]),
   (0xFB16,[0x54E,0x546]),(0xFB17,[0x544,0x53D])]

/-- One letter through a table of runs and a table of longer counterparts. -/
def mapCase (runs : List CaseRun) (many : List (Nat × List Nat)) (c : Char) : List Char :=
  match many.lookup c.toNat with
  | some ns => ns.map Char.ofNat
  | none => [(runs.findSome? (·.counterpart? c.toNat)).elim c Char.ofNat]

def lowerChar (c : Char) : List Char :=
  if c.toNat < 128 then [c.toLower] else mapCase toSmall toSmallMany c

def upperChar (c : Char) : List Char :=
  if c.toNat < 128 then [c.toUpper] else mapCase toCapital toCapitalMany c

/-- The small counterpart of a capital sigma: the final one if a letter stands before it, nearest
character first, and none after it. -/
def smallSigma (behind ahead : List Char) : Char :=
  if meetsCased behind && !meetsCased ahead then 'ς' else 'σ'

/-- Characters in small letters; `behind` are those before them, nearest first. -/
def lowerFrom (behind : List Char) : List Char → List Char
  | [] => []
  | c :: cs => (if c == 'Σ' then [smallSigma behind cs] else lowerChar c) ++ lowerFrom (c :: behind) cs

def lower (s : String) : String :=
  String.ofList (lowerFrom [] s.toList)

def upper (s : String) : String :=
  String.ofList (s.toList.flatMap upperChar)

/-- In ASCII every letter is made small by itself. -/
theorem lowerFrom_of_ascii {cs : List Char} (h : ∀ c ∈ cs, c.toNat < 128) (behind : List Char) :
    lowerFrom behind cs = cs.map Char.toLower := by
  induction cs generalizing behind with
  | nil => rfl
  | cons c cs ih =>
    have hc : c.toNat < 128 := h c List.mem_cons_self
    have hs : (c == 'Σ') = false := by
      rw [beq_eq_false_iff_ne]
      rintro rfl
      exact absurd hc (by decide)
    simp [lowerFrom, lowerChar, hs, hc, ih fun d hd => h d (List.mem_cons_of_mem c hd)]

end AlgoLang.Text
