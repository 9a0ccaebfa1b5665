/-
# The inside of string and character literals

Both languages escape alike: a backslash before a backslash and before the quote, and a letter for
newline, tab and return.  Every other character stands for itself.  Strings are escaped by one replacement
after the other, the backslash first; character by character it comes to the same.
-/

namespace AlgoLang.Text

def escapeChar (quote c : Char) : List Char :=
  if c == '\\' || c == quote then ['\\', c]
  else match c with
    | '\n' => ['\\', 'n']
    | '\t' => ['\\', 't']
    | '\r' => ['\\', 'r']
    | _ => [c]

/-- A backslash and `d` in all places where `c` stands. -/
def escapeAll (c d : Char) (cs : List Char) : List Char :=
  cs.flatMap fun x => if x == c then ['\\', d] else [x]

def escape (quote : Char) (s : String) : String :=
  String.ofList (s.toList |> escapeAll '\\' '\\' |> escapeAll quote quote |> escapeAll '\n' 'n' |> escapeAll '\t' 't' |>
    escapeAll '\r' 'r')

theorem escape_eq {quote : Char} (h : quote = '\'' ∨ quote = '"') (s : String) :
    escape quote s = String.ofList (s.toList.flatMap (escapeChar quote)) := by
  simp only [escape, escapeAll, List.flatMap_assoc]
  congr 2
  funext c
  by_cases hc : c = '\\' ∨ c = quote ∨ c = '\n' ∨ c = '\t' ∨ c = '\r'
  · rcases hc with rfl | rfl | rfl | rfl | rfl <;> rcases h with rfl | rfl <;> rfl
  · simp only [not_or] at hc
    simp [escapeChar, hc]

def literal (quote : Char) (s : String) : String :=
  quote.toString ++ escape quote s ++ quote.toString

end AlgoLang.Text
