import AlgoLang.Compile.File
import AlgoLang.Main
import AlgoLang.Proofs.Agenda.Progress
import AlgoLang.Proofs.CGrammar.Faithful
import AlgoLang.Proofs.CSource.Lookup
import AlgoLang.Proofs.CSource.Placed
import AlgoLang.Proofs.CText.Frame
import AlgoLang.Proofs.CText.Program
import AlgoLang.Proofs.Flow.Descent
import AlgoLang.Proofs.Flow.Reachability
import AlgoLang.Proofs.Flow.Simulation
import AlgoLang.Proofs.LetterCase.Compile
import AlgoLang.Proofs.Lift.Compound
import AlgoLang.Proofs.Lift.Format
import AlgoLang.Proofs.Lift.Literals
import AlgoLang.Proofs.Lift.SourceMap
import AlgoLang.Proofs.Lift.Structured.Core
import AlgoLang.Proofs.Lift.Variables
import AlgoLang.Proofs.ProgramName
import AlgoLang.Proofs.Relocation.Compile
import AlgoLang.Proofs.Scoping.RoutineOrder
import AlgoLang.Proofs.Scoping.Undefined
import AlgoLang.Proofs.Token.Respaced
import AlgoLang.Store
