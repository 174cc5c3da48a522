/-!
# Sets of code points

A set of code points is given by ranges (first and last), or by runs, where a run takes every
first or every second code point from its first to its last.
-/

namespace Concordance.Chars

/-- Whether a code point lies in one of the ranges. -/
def inRanges (ranges : List (Nat × Nat)) (n : Nat) : Bool :=
  ranges.any fun r => r.1 ≤ n && n ≤ r.2

/-- Whether a code point lies on one of the runs. -/
def inRuns (runs : List (Nat × Nat × Nat)) (n : Nat) : Bool :=
  runs.any fun r => r.1 ≤ n && n ≤ r.2.1 && (n - r.1) % r.2.2 == 0

end Concordance.Chars
