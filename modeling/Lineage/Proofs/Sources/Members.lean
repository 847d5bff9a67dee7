import Lineage.Proofs.Sources.Evaluate

/-!
# Members in pure string programs

Objects have no accessors here, so a member is read without running anything,
and what is read has the log of the latest write as its source. A property is
written before the write has a log; until then it is the only one without a
source.
-/

namespace Lineage.Eval

variable {fuel : Nat} {m m' : Machine}

/-! ## Reading -/

end Lineage.Eval
