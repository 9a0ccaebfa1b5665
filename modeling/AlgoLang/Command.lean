/-
# The three tools

Each reads its arguments and then does its work.  Asked for its version, a tool says that and looks at
nothing else, as long as the arguments can be read at all.
-/
import AlgoLang.Command.Algoc
import AlgoLang.Command.Algoflow
import AlgoLang.Command.C2Algo

namespace AlgoLang

inductive Command where
  | algoc
  | c2algo
  | algoflow
  deriving DecidableEq

namespace Command

def name : Command → String
  | algoc => "algoc"
  | c2algo => "c2algo"
  | algoflow => "algoflow"

def ofName? (name : String) : Option Command :=
  [algoc, c2algo, algoflow].find? fun c => c.name == name

def version : String := "1.0.0"

def switches : Command → List Switch
  | algoc => Algoc.switches
  | c2algo => C2Algo.switches
  | algoflow => Algoflow.switches

def work {m : Type → Type} [Monad m] (h : Host m) (settings : Settings) (input : Path) (a : Arguments) :
    Command → Tool m Unit
  | algoc => Algoc.run h settings (.ofArguments input a)
  | c2algo => C2Algo.run h settings (.ofArguments input a)
  | algoflow => Algoflow.run h settings (.ofArguments input a)

def run {m : Type → Type} [Monad m] (c : Command) (h : Host m) (settings : Settings) (args : List String) :
    m (Except ArgumentFault Report) := do
  match Arguments.read c.switches args with
  | .error fault => return .error fault
  | .ok a =>
    if a.has "version" then
      return .ok (← (Tool.say (c.name ++ ", version " ++ version) : Tool m Unit).report)
    match ← a.check h with
    | .error fault => return .error fault
    | .ok input => return .ok (← (c.work h settings (Path.ofText input) a).report)

end Command

end AlgoLang
