/-!
# Doubles by rank

A double is read off its 64 bits: the top bit is the sign, and the other 63,
taken as a number, are its *rank*. Rank counts the magnitudes in order, from
zero over the subnormals and the normals up to infinity; every larger rank is
not a number.

Each finite magnitude is a whole number of *steps* of 2⁻¹⁰⁷⁴, the least positive
double, so exact questions about doubles become questions about natural numbers.
The rank of infinity stands for 2¹⁰²⁴, the value that would come next if
exponents went on; with that reading the neighbours of every finite double are
given by the ranks one below and one above, and no case is needed at the top.
-/

namespace Rpn.Binary64

/-- How many ranks share one exponent: 2⁵². -/
def binade : Nat := 0x10000000000000

/-- The weight of the sign bit: 2⁶³. -/
def signWeight : Nat := 0x8000000000000000

/-- The rank of infinity, one above the largest finite double. -/
def infinityRank : Nat := 2047 * binade

/-- The magnitude of a rank, in steps of 2⁻¹⁰⁷⁴. The first two binades have a
spacing of one step, and every later one twice the spacing of the one before. -/
def steps (rank : Nat) : Nat :=
  if rank < binade then rank
  else (binade + rank % binade) <<< (rank / binade - 1)

/-- One, in steps of 2⁻¹⁰⁷⁴. -/
def oneInSteps : Nat := 1 <<< 1074

/-- The bits without the sign. -/
def rank (x : Float) : Nat :=
  x.toBits.toNat % signWeight

/-- Whether the sign bit is set. Zeros have a sign too. -/
def isNegative (x : Float) : Bool :=
  decide (signWeight ≤ x.toBits.toNat)

/-- The double with a given sign and rank. -/
def ofRank (negative : Bool) (rank : Nat) : Float :=
  Float.ofBits (UInt64.ofNat (if negative then signWeight + rank else rank))

/-- Positive infinity. -/
def infinity : Float := ofRank false infinityRank

/-- The double that is not a number. -/
def nan : Float := ofRank false (infinityRank + binade / 2)

/-- The magnitude of the first double under the sign of the second. -/
def copySign (magnitude sign : Float) : Float :=
  ofRank (isNegative sign) (rank magnitude)

end Rpn.Binary64
