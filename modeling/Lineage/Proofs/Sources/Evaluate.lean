import Lineage.Proofs.Sources.Spec

/-!
# Expressions of pure string programs

Each specification for a bound follows from those for smaller bounds. Most steps
only need the next smaller bound. Literals, assignments to variables and the
first statement of a function are taken apart further: there a string is for a
moment without its source.
-/

namespace Lineage.Eval

variable {fuel : Nat} {m m' : Machine}

/-! ## Parts of a pure form -/

end Lineage.Eval
