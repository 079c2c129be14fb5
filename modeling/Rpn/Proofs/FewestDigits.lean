import Rpn.Proofs.Shortest

/-!
# No shorter decimal reads back, and none as short is nearer

`Decimal.shortest` searches grids of powers of ten, the coarsest first, and
tries two points on each. Why this finds a decimal of the fewest digits takes
two steps. If any point of a grid lies in the interval of the numbers that round
to the double, so does one of the two, because the double itself lies in that
interval: so no coarser grid than the one found has a point in it
(`le_coarsest`). And if some decimal of fewer digits did, a power of ten would
lie between it and the one found, hence in the interval too, and on a coarser
grid.

The search begins at `powerAbove`, and this is far enough: no coarser grid has a
point in the interval, since it does not reach to twice the double.

Of the points on its own grid the decimal found is the nearest to the double,
and even if another is as near. One on a finer grid could still be as short, but
only with a single digit where the decimal found has one too, and then the step
of the coarser grid lies between them. That leaves one question, which has
nothing to do with the search: whether nine tenths of a power of ten can be as
near to a double as the power is, although the power rounds to it
(`nineteen_lt`).
-/

namespace Rpn

open Binary64

namespace Decimal

/-! ## The coarsest grid -/

theorem lt_powerAbove (units : Nat) : units < 10 ^ powerAbove units := by
  have hlog : units < 2 ^ (units.log2 + 1) := Nat.lt_log2_self
  refine Nat.lt_of_lt_of_le hlog ?_
  rw [powerAbove]
  generalize units.log2 + 1 = n
  have hbase : 2 ^ 93 ≤ 10 ^ 28 := by decide
  have hdiv : 28 * n ≤ (28 * n / 93 + 1) * 93 := by omega
  refine (Nat.pow_le_pow_iff_left (show 93 ≠ 0 by decide)).1 ?_
  calc (2 ^ n) ^ 93 = (2 ^ 93) ^ n := Nat.pow_right_comm 2 n 93
    _ ≤ (10 ^ 28) ^ n := Nat.pow_le_pow_left hbase n
    _ = 10 ^ (28 * n) := (Nat.pow_mul 10 28 n).symm
    _ ≤ 10 ^ ((28 * n / 93 + 1) * 93) := Nat.pow_le_pow_right (by decide) hdiv
    _ = (10 ^ (28 * n / 93 + 1)) ^ 93 := Nat.pow_mul 10 _ 93

/-- From `k` on, a step is not more than one part in `k` of the magnitude. -/
theorem steps_succ_le {k r : Nat} (hk : k ≤ binade) (h : k ≤ r) :
    k * steps (r + 1) ≤ (k + 1) * steps r := by
  rcases Nat.lt_or_ge r binade with hlow | hlow
  · rw [steps_of_le (by omega), steps_of_le (by omega), Nat.mul_succ,
      Nat.succ_mul]
    exact Nat.add_le_add_left h _
  · obtain ⟨s, m, rfl, hm, hm'⟩ := exists_place hlow
    rw [steps_place hm (by omega), Nat.add_assoc,
      steps_place (by omega) (by omega), ← Nat.mul_assoc, ← Nat.mul_assoc,
      Nat.mul_succ, Nat.succ_mul]
    exact Nat.mul_le_mul_right _ (Nat.add_le_add_left (hk.trans hm) _)

namespace Basin

theorem contains_between {r a b n : Nat}
    (ha : (ofRank r).contains a = true) (hb : (ofRank r).contains b = true)
    (han : a ≤ n) (hnb : n ≤ b) : (ofRank r).contains n = true := by
  have hlow := (contains_ofRank.1 ha).1
  have hhigh := (contains_ofRank.1 hb).2
  refine contains_ofRank.2 ⟨?_, ?_⟩
  · omega
  · omega

theorem pos_of_contains {r k grid : Nat} (hr : 0 < r)
    (h : (ofRank r).contains (k * grid) = true) : 0 < k := by
  refine Nat.pos_of_ne_zero fun hzero => ?_
  have hlow := (contains_ofRank.1 h).1
  have hsteps := steps_strictMono hr
  have hpos := Nat.mul_pos
    (show 0 < steps (r - 1) + steps r by omega) stepInUnits_pos
  rw [hzero, Nat.zero_mul] at hlow
  omega

/-- Below a grid's step, and so on the grid itself, the interval ends. -/
theorem le_powerAbove_of_contains {r k j : Nat} (hr : 0 < r)
    (h : (ofRank r).contains (k * 10 ^ j) = true) :
    j ≤ powerAbove (steps r * stepInUnits) := by
  have hhigh := (contains_ofRank.1 h).2
  have hk := pos_of_contains hr h
  have hwidth : (steps r + steps (r + 1)) * stepInUnits ≤
      3 * (steps r * stepInUnits) := by
    have hsucc := steps_succ_le (by decide) hr
    rw [← Nat.mul_assoc]
    exact Nat.mul_le_mul_right _ (by omega)
  have hunits := lt_powerAbove (steps r * stepInUnits)
  have hgrid := Nat.le_mul_of_pos_left (10 ^ j) hk
  refine Nat.le_of_lt_succ ((Nat.pow_lt_pow_iff_right (show 1 < 10 by decide)).1 ?_)
  rw [Nat.pow_succ]
  omega

/-- If a point of a grid lies in the interval, one of the double's neighbours on
the grid does. -/
theorem nearestOn_isSome {r units grid k : Nat} (hgrid : 0 < grid)
    (hself : (ofRank r).contains units = true)
    (hk : (ofRank r).contains (k * grid) = true) :
    ((ofRank r).nearestOn? units grid).isSome = true := by
  have hle := Nat.div_mul_le_self units grid
  have hlt := Nat.lt_div_mul_add (a := units) hgrid
  have hside : (ofRank r).contains (units / grid * grid) = true ∨
      (ofRank r).contains ((units / grid + 1) * grid) = true := by
    rcases Nat.lt_or_ge (units / grid) k with h | h
    · have hpoint := Nat.mul_le_mul_right grid h
      refine Or.inr (contains_between hself hk ?_ hpoint)
      rw [Nat.succ_mul]
      omega
    · exact Or.inl (contains_between hk hself (Nat.mul_le_mul_right grid h) hle)
  rw [nearestOn?]
  rcases hside with h | h
  · rw [h]
    cases (ofRank r).contains ((units / grid + 1) * grid) <;> rfl
  · rw [h]
    cases (ofRank r).contains (units / grid * grid) <;> rfl

theorem le_search {r units k j : Nat}
    (hself : (ofRank r).contains units = true)
    (hk : (ofRank r).contains (k * 10 ^ j) = true) {top : Nat} (h : j ≤ top) :
    j ≤ ((ofRank r).search units top).2 := by
  induction top with
  | zero => exact Nat.le_trans h (Nat.zero_le _)
  | succ top ih =>
      rw [search]
      split
      · exact h
      · next hnone =>
          refine ih (Nat.le_of_lt_succ (Nat.lt_of_le_of_ne h fun heq => ?_))
          rw [heq] at hk
          have hsome := nearestOn_isSome (Nat.pow_pos (by decide)) hself hk
          rw [← Nat.pow_eq, hnone] at hsome
          cases hsome

end Basin

/-- No coarser grid than the one found has a point in the interval. -/
theorem le_coarsest {r k j : Nat} (hr : 0 < r)
    (h : (Basin.ofRank r).contains (k * 10 ^ j) = true) :
    j ≤ (coarsest r).2 :=
  Basin.le_search (Basin.contains_self hr) h
    (Basin.le_powerAbove_of_contains hr h)

/-! ## The fewest digits -/

theorem coefficient_lt (d : Decimal) : d.coefficient < 10 ^ d.length :=
  (Nat.length_toDigits_le_iff (by decide) d.length_pos).1 (Nat.le_refl _)

/-- Whole numbers of units above a decimal lie above the lower end of the
interval that the decimal lies in. -/
theorem low_le_of_rank {d : Decimal} {r units : Nat} (h : d.rank = r)
    (hlt : d.numerator * 10 ^ 1074 < units * d.denominator) :
    (steps (r - 1) + steps r) * stepInUnits + r % 2 ≤ 2 * units := by
  have hlow := (isNearest_nearestRank d.numerator d.denominator_pos).low
  rw [← rank_eq, h] at hlow
  have hodd := Nat.mod_lt r (by decide : 0 < 2)
  have hscaled : (steps (r - 1) + steps r) * stepInUnits * d.denominator ≤
      2 * (d.numerator * 10 ^ 1074) := by
    have hmul := Nat.mul_le_mul_right stepInUnits
      (Nat.le_trans (Nat.le_add_right _ _) hlow)
    calc (steps (r - 1) + steps r) * stepInUnits * d.denominator
        = (steps (r - 1) + steps r) * d.denominator * stepInUnits := by ring
      _ ≤ 2 * (d.numerator * oneInSteps) * stepInUnits := hmul
      _ = 2 * (d.numerator * 10 ^ 1074) := by rw [units_eq]; ring
  have hbelow : (steps (r - 1) + steps r) * stepInUnits * d.denominator <
      2 * units * d.denominator := by
    rw [Nat.mul_assoc 2]
    omega
  have hlt' := Nat.lt_of_mul_lt_mul_right hbelow
  -- Strictly above leaves room for the end that an odd rank does not include.
  omega

theorem numerator_lt {d : Decimal} {power shift : Nat}
    (h : d.length + (d.exponent + shift) ≤ power) :
    d.numerator * 10 ^ shift < 10 ^ power * d.denominator := by
  have hpow : d.length + (d.exponent.toNat + shift) ≤
      power + (-d.exponent).toNat := by omega
  calc d.numerator * 10 ^ shift
      = d.coefficient * 10 ^ (d.exponent.toNat + shift) := by
        rw [numerator, Nat.pow_add]
        ring
    _ < 10 ^ d.length * 10 ^ (d.exponent.toNat + shift) :=
        Nat.mul_lt_mul_of_pos_right d.coefficient_lt (Nat.pow_pos (by decide))
    _ = 10 ^ (d.length + (d.exponent.toNat + shift)) := (Nat.pow_add ..).symm
    _ ≤ 10 ^ (power + (-d.exponent).toNat) :=
        Nat.pow_le_pow_right (by decide) hpow
    _ = 10 ^ power * d.denominator := by
        rw [Nat.pow_add, denominator]

/-- A power of ten between a decimal of the rank and the one found is in the
interval, too. -/
theorem contains_power {d : Decimal} {r power : Nat} (hr : 0 < r)
    (h : d.rank = r) (hlow : d.length + (d.exponent + 1074) ≤ power)
    (hhigh : 10 ^ power ≤ (coarsest r).1 * 10 ^ (coarsest r).2) :
    (Basin.ofRank r).contains (1 * 10 ^ power) = true := by
  have hcoarsest := (Basin.contains_ofRank.1 (contains_coarsest hr)).2
  rw [Nat.one_mul]
  refine Basin.contains_ofRank.2 ⟨low_le_of_rank h (numerator_lt hlow), ?_⟩
  omega

theorem exponent_le_coarsest {d : Decimal} {r : Nat} (hr : 0 < r)
    (hfinite : r < infinityRank) (h : d.rank = r) :
    d.exponent + 1074 ≤ (coarsest r).2 := by
  rcases Int.lt_or_le (d.exponent + 1074) 0 with hneg | hpos
  · omega
  · obtain ⟨power, hpower⟩ := Int.eq_ofNat_of_zero_le hpos
    have hexponent : d.exponent = (power : Int) - 1074 := by omega
    have hcontains := (rank_eq_iff_contains hfinite).1
      (show rank ⟨d.negative, d.coefficient, (power : Int) - 1074⟩ = r by
        rw [← hexponent]; exact h)
    have hle := le_coarsest hr hcontains
    omega

theorem length_coarsest_le {d : Decimal} {r : Nat} (hr : 0 < r)
    (hfinite : r < infinityRank) (h : d.rank = r) :
    (Nat.toDigits 10 (coarsest r).1).length ≤ d.length := by
  have hexponent := exponent_le_coarsest hr hfinite h
  have hlength := d.length_pos
  refine (Nat.length_toDigits_le_iff (by decide) hlength).2 ?_
  refine Nat.lt_of_not_le fun hmore => ?_
  -- The first power of ten with more digits than `d`, on the grid found.
  have hhigh : 10 ^ (d.length + (coarsest r).2) ≤
      (coarsest r).1 * 10 ^ (coarsest r).2 := by
    rw [Nat.pow_add]
    exact Nat.mul_le_mul_right _ hmore
  have hle := le_coarsest hr (contains_power hr h (by omega) hhigh)
  omega

/-- A decimal on a finer grid can be as short as the one found only if both are
of one digit and the grid's step lies between them. -/
theorem length_eq_one_of_finer {d : Decimal} {r : Nat} (hr : 0 < r)
    (h : d.rank = r) (hfiner : d.exponent + 1074 < (coarsest r).2)
    (hlength : d.length ≤ (Nat.toDigits 10 (coarsest r).1).length) :
    d.length = 1 ∧
      (Basin.ofRank r).contains (1 * 10 ^ (coarsest r).2) = true := by
  have hpos := d.length_pos
  have hcoefficient := Basin.pos_of_contains hr (contains_coarsest hr)
  obtain ⟨more, hmore⟩ : ∃ more,
      (Nat.toDigits 10 (coarsest r).1).length = more + 1 :=
    Nat.exists_eq_add_one.2 Nat.length_toDigits_pos
  have hpower : 10 ^ more ≤ (coarsest r).1 := by
    rcases Nat.eq_zero_or_pos more with hzero | hmore'
    · rw [hzero]
      exact hcoefficient
    · refine Nat.le_of_not_lt fun hlt => ?_
      have hle := (Nat.length_toDigits_le_iff (by decide) hmore').2 hlt
      omega
  -- The power of ten of the first digit found is above all of `d`, and on no
  -- coarser grid only if that digit is the last.
  have hcontains := contains_power hr h
    (show _ ≤ ((more + (coarsest r).2 : Nat) : Int) by omega)
    (by rw [Nat.pow_add]; exact Nat.mul_le_mul_right _ hpower)
  have hle := le_coarsest hr hcontains
  obtain rfl : more = 0 := by omega
  rw [Nat.zero_add] at hcontains
  exact ⟨by omega, hcontains⟩

/-! ## The nearest on its grid -/

/-- How far two numbers of units are apart. -/
def apart (units units' : Nat) : Nat :=
  ((units' : Int) - units).natAbs

namespace Basin

/-- The neighbour on the other side of a point in the interval is taken only
where it is nearer, or as near and even. -/
theorem nearestOn_side {r units grid c k : Nat} (hgrid : 0 < grid)
    (hself : (ofRank r).contains units = true)
    (h : (ofRank r).nearestOn? units grid = some c)
    (hk : (ofRank r).contains (k * grid) = true) :
    (c = units / grid ∧ (units / grid < k → 2 * (units % grid) < grid ∨
      (2 * (units % grid) = grid ∧ c % 2 = 0))) ∨
    (c = units / grid + 1 ∧ (k ≤ units / grid → grid < 2 * (units % grid) ∨
      (2 * (units % grid) = grid ∧ c % 2 = 0))) := by
  have hle := Nat.div_mul_le_self units grid
  have hlt := Nat.lt_div_mul_add (a := units) hgrid
  rw [nearestOn?] at h
  split at h
  · obtain rfl := Option.some.inj h
    rw [roundQuotient]
    split
    · next hnear => exact Or.inl ⟨rfl, fun _ => Or.inl hnear⟩
    · split
      · next hfar => exact Or.inr ⟨rfl, fun _ => Or.inl hfar⟩
      · omega
  · -- The point cannot be above, with the neighbour there between it and the
    -- double.
    next _ habove =>
      refine Or.inl ⟨(Option.some.inj h).symm, fun hpoint => ?_⟩
      have hmul := Nat.mul_le_mul_right grid (Nat.succ_le_of_lt hpoint)
      have hsucc : units ≤ (units / grid + 1) * grid := by
        rw [Nat.succ_mul]
        exact Nat.le_of_lt hlt
      rw [contains_between hself hk hsucc hmul] at habove
      cases habove
  · next hbelow _ =>
      refine Or.inr ⟨(Option.some.inj h).symm, fun hpoint => ?_⟩
      have hmul := Nat.mul_le_mul_right grid hpoint
      rw [contains_between hk hself hmul hle] at hbelow
      cases hbelow
  · cases h

/-- The point that is answered is the nearest of the interval, and of two the
even one. -/
theorem nearestOn_nearest {r units grid c k : Nat} (hgrid : 0 < grid)
    (hself : (ofRank r).contains units = true)
    (h : (ofRank r).nearestOn? units grid = some c)
    (hk : (ofRank r).contains (k * grid) = true) :
    apart units (c * grid) ≤ apart units (k * grid) ∧
      (apart units (c * grid) = apart units (k * grid) → k = c ∨ c % 2 = 0) := by
  have hdiv := Nat.div_add_mod' units grid
  have hmod := Nat.mod_lt units hgrid
  have hside := nearestOn_side hgrid hself h hk
  rw [apart, apart]
  generalize units / grid = below at *
  generalize units % grid = excess at *
  have hbelow : k < below → k * grid + grid ≤ below * grid := by
    intro hlt
    rw [← Nat.succ_mul]
    exact Nat.mul_le_mul_right grid hlt
  have habove : below + 1 < k → below * grid + 2 * grid ≤ k * grid := by
    intro hlt
    rw [← Nat.add_mul]
    exact Nat.mul_le_mul_right grid hlt
  have hsucc : (below + 1) * grid = below * grid + grid := Nat.succ_mul _ _
  have hcases : k < below ∨ k = below ∨ k = below + 1 ∨ below + 1 < k := by
    omega
  rcases hside with ⟨rfl, hside⟩ | ⟨rfl, hside⟩
  · rcases hcases with hk | rfl | rfl | hk
    · have hgap := hbelow hk
      omega
    · omega
    · rw [hsucc]
      omega
    · have hgap := habove hk
      omega
  · rw [hsucc]
    rcases hcases with hk | rfl | rfl | hk
    · have hgap := hbelow hk
      omega
    · omega
    · rw [hsucc]
      omega
    · have hgap := habove hk
      omega

theorem search_cases (b : Basin) (units top : Nat) :
    b.search units top = (units, 0) ∨
      b.nearestOn? units (10 ^ (b.search units top).2) =
        some (b.search units top).1 := by
  induction top with
  | zero => exact Or.inl rfl
  | succ top ih =>
      rw [search]
      split
      · next c hc => exact Or.inr hc
      · exact ih

end Basin

theorem nearest_coarsest {r coefficient power k : Nat} (hr : 0 < r)
    (hfound : coarsest r = (coefficient, power))
    (hk : (Basin.ofRank r).contains (k * 10 ^ power) = true) :
    apart (steps r * stepInUnits) (coefficient * 10 ^ power) ≤
        apart (steps r * stepInUnits) (k * 10 ^ power) ∧
      (apart (steps r * stepInUnits) (coefficient * 10 ^ power) =
          apart (steps r * stepInUnits) (k * 10 ^ power) →
        k = coefficient ∨ coefficient % 2 = 0) := by
  have hcases := Basin.search_cases (Basin.ofRank r) (steps r * stepInUnits)
    (powerAbove (steps r * stepInUnits))
  rw [← coarsest, hfound] at hcases
  rcases hcases with hself | hanswer
  · obtain ⟨hcoefficient, hpower⟩ := Prod.mk.inj hself
    rw [hpower, hcoefficient, Nat.pow_zero, Nat.mul_one, Nat.mul_one, apart,
      apart]
    generalize steps r * stepInUnits = units
    omega
  · exact Basin.nearestOn_nearest (Nat.pow_pos (by decide))
      (Basin.contains_self hr) hanswer hk

/-- Of the least ten doubles only the second has a power of ten above it that
rounds to it. -/
theorem nineteen_lt_of_small {r power : Nat} (hr : 0 < r) (hsmall : r < 10)
    (habove : r * stepInUnits < 10 ^ power * 10)
    (hhigh : 2 * (10 ^ power * 10) ≤ (r + (r + 1)) * stepInUnits) :
    19 * 10 ^ power < 2 * (r * stepInUnits) := by
  have hlow : 19 * 10 ^ 750 < 4 * stepInUnits := by decide +kernel
  have hfour : 4 * stepInUnits < 20 * 10 ^ 750 := by decide +kernel
  have hone := Nat.mul_le_mul_right stepInUnits hr
  have hnine := Nat.mul_le_mul_right stepInUnits
    (show r + (r + 1) ≤ 19 by omega)
  -- One step is above `10 ^ 750` units, and nine and a half are below `10 ^ 752`.
  have hpower : power = 750 := by
    have hleast : 10 ^ 750 < 10 ^ (power + 1) := by
      rw [Nat.pow_succ]
      omega
    have hmost : 10 ^ power < 10 ^ (750 + 1) := by
      rw [Nat.pow_add 10 750 1]
      omega
    have hleast := (Nat.pow_lt_pow_iff_right (by decide)).1 hleast
    have hmost := (Nat.pow_lt_pow_iff_right (by decide)).1 hmost
    omega
  subst hpower
  have htwo : 2 ≤ r := by
    refine Nat.lt_of_le_of_ne hr fun hleast => ?_
    subst hleast
    omega
  have hdouble := Nat.mul_le_mul_right stepInUnits htwo
  omega

/-- A power of ten above a double that rounds to it is nearer to it than nine
tenths of that power are. -/
theorem nineteen_lt {r power : Nat} (hr : 0 < r)
    (habove : steps r * stepInUnits < 10 ^ (power + 1))
    (h : (Basin.ofRank r).contains (1 * 10 ^ (power + 1)) = true) :
    19 * 10 ^ power < 2 * (steps r * stepInUnits) := by
  have hhigh := (Basin.contains_ofRank.1 h).2
  rw [Nat.one_mul, Nat.pow_succ] at hhigh
  rw [Nat.pow_succ] at habove
  have hhigh := Nat.le_trans (Nat.le_add_right _ _) hhigh
  rcases Nat.lt_or_ge r 10 with hsmall | hlarge
  · have hbinade : 10 ≤ binade := by decide
    rw [steps_of_le (by omega)] at habove ⊢
    rw [steps_of_le (by omega), steps_of_le (by omega)] at hhigh
    exact nineteen_lt_of_small hr hsmall habove hhigh
  · have hgap := Nat.mul_le_mul_right stepInUnits
      (steps_succ_le (by decide) hlarge)
    rw [Nat.mul_assoc, Nat.mul_assoc] at hgap
    rw [Nat.add_mul] at hhigh
    omega

end Decimal

/-! ## Shortest decimals -/

/-- The value of a finite double. -/
def Binary64.toRat (x : Float) : ℚ :=
  (if isNegative x then -1 else 1) * (steps (rank x) / oneInSteps)

namespace Decimal

/-- The value of a decimal. -/
def toRat (d : Decimal) : ℚ :=
  (if d.negative then -1 else 1) * (d.coefficient * 10 ^ d.exponent)

/-- A decimal that reads as a double, of as few digits as any that does, and of
those as near to the double as any, and even where another is as near. -/
structure IsShortest (d : Decimal) (x : Float) : Prop where
  reads : d.toFloat = x
  fewest : ∀ d' : Decimal, d'.toFloat = x → d.length ≤ d'.length
  nearest : ∀ d' : Decimal, d'.toFloat = x → d'.length ≤ d.length →
    |d.toRat - Binary64.toRat x| ≤ |d'.toRat - Binary64.toRat x|
  even : ∀ d' : Decimal, d'.toFloat = x → d'.length ≤ d.length →
    |d.toRat - Binary64.toRat x| = |d'.toRat - Binary64.toRat x| →
    d'.toRat = d.toRat ∨ d.coefficient % 2 = 0

theorem rank_le (d : Decimal) : d.rank ≤ infinityRank := by
  rw [rank_eq]
  exact (isNearest_nearestRank d.numerator d.denominator_pos).bound

theorem rank_of_toFloat {d : Decimal} {x : Float} (h : d.toFloat = x) :
    d.rank = Binary64.rank x := by
  rw [← h, toFloat, rank_ofRank d.rank_le]

theorem negative_of_toFloat {d : Decimal} {x : Float} (h : d.toFloat = x) :
    d.negative = isNegative x := by
  rw [← h, toFloat, isNegative_ofRank d.rank_le]

/-! ### Distances -/

theorem abs_sub_of_sign (negative : Bool) (a b : ℚ) :
    |(if negative then -1 else 1) * a - (if negative then -1 else 1) * b| =
      |a - b| := by
  cases negative with
  | false => simp
  | true => rw [if_pos rfl, ← mul_sub, abs_mul, abs_neg, abs_one, one_mul]

theorem coefficient_units (coefficient power : Nat) :
    (coefficient : ℚ) * 10 ^ ((power : Int) - 1074) =
      (coefficient * 10 ^ power : Nat) / (stepInUnits * oneInSteps : Nat) := by
  rw [zpow_sub₀ (by norm_num), zpow_natCast, zpow_ofNat, ← units_eq,
    ← mul_div_assoc, Nat.cast_mul, Nat.cast_pow, Nat.cast_pow, Nat.cast_ofNat]

theorem steps_units (r : Nat) :
    (steps r : ℚ) / oneInSteps =
      (steps r * stepInUnits : Nat) / (stepInUnits * oneInSteps : Nat) := by
  have hstep : ((stepInUnits : Nat) : ℚ) ≠ 0 :=
    Nat.cast_ne_zero.2 (Nat.ne_of_gt stepInUnits_pos)
  rw [Nat.cast_mul, Nat.cast_mul, mul_comm ((stepInUnits : Nat) : ℚ),
    mul_div_mul_right _ _ hstep]

theorem units_ne_zero : ((stepInUnits * oneInSteps : Nat) : ℚ) ≠ 0 :=
  Nat.cast_ne_zero.2
    (Nat.mul_ne_zero stepInUnits_pos.ne' oneInSteps_pos.ne')

/-- The distance from a decimal to a double, in units. -/
theorem abs_toRat_sub (x : Float) (coefficient power : Nat) :
    |toRat ⟨isNegative x, coefficient, (power : Int) - 1074⟩ -
        Binary64.toRat x| =
      (apart (steps (Binary64.rank x) * stepInUnits)
        (coefficient * 10 ^ power) : ℚ) / (stepInUnits * oneInSteps : Nat) := by
  rw [toRat, Binary64.toRat, abs_sub_of_sign, coefficient_units, steps_units,
    ← sub_div, abs_div, Nat.abs_cast, apart, Nat.cast_natAbs]
  push_cast
  rfl

/-- The decimal found is as near to the double as any that is on its grid and
reads as the double. -/
theorem nearest_of_found {x : Float} {coefficient power k : Nat}
    (hzero : Binary64.rank x ≠ 0)
    (hfound : coarsest (Binary64.rank x) = (coefficient, power))
    (hcontains : (Basin.ofRank (Binary64.rank x)).contains
      (k * 10 ^ power) = true) :
    |toRat ⟨isNegative x, coefficient, (power : Int) - 1074⟩ -
          Binary64.toRat x| ≤
        |toRat ⟨isNegative x, k, (power : Int) - 1074⟩ - Binary64.toRat x| ∧
      (|toRat ⟨isNegative x, coefficient, (power : Int) - 1074⟩ -
            Binary64.toRat x| =
          |toRat ⟨isNegative x, k, (power : Int) - 1074⟩ - Binary64.toRat x| →
        k = coefficient ∨ coefficient % 2 = 0) := by
  obtain ⟨hle, htie⟩ :=
    nearest_coarsest (Nat.pos_of_ne_zero hzero) hfound hcontains
  rw [abs_toRat_sub, abs_toRat_sub]
  refine ⟨div_le_div_of_nonneg_right (Nat.cast_le.2 hle) (Nat.cast_nonneg _),
    fun heq => htie ?_⟩
  exact Nat.cast_injective ((div_left_inj' units_ne_zero).1 heq)

theorem toRat_le_of_finer {d : Decimal} {power : Nat} (hone : d.length = 1)
    (hfiner : d.exponent + 1074 < power) :
    (d.coefficient : ℚ) * 10 ^ d.exponent ≤
      9 * (10 ^ ((power : Int) - 1074) / 10) := by
  have hcoefficient : (d.coefficient : ℚ) ≤ 9 := by
    have hlt := d.coefficient_lt
    rw [hone, Nat.pow_one] at hlt
    exact_mod_cast Nat.le_of_lt_succ hlt
  have hpower : (10 : ℚ) ^ d.exponent ≤ 10 ^ ((power : Int) - 1074) / 10 := by
    rw [div_eq_mul_inv, ← zpow_sub_one₀ (by norm_num)]
    exact zpow_le_zpow_right₀ (by norm_num) (by omega)
  exact mul_le_mul hcoefficient hpower (by positivity) (by norm_num)

/-- If the step of a grid rounds to a double, it is nearer to it than any decimal
of one digit on a finer grid. -/
theorem abs_power_lt {x : Float} {d : Decimal} {power : Nat}
    (hzero : Binary64.rank x ≠ 0) (hsign : d.negative = isNegative x)
    (hone : d.length = 1) (hfiner : d.exponent + 1074 < power)
    (hcontains : (Basin.ofRank (Binary64.rank x)).contains
      (1 * 10 ^ power) = true) :
    |toRat ⟨isNegative x, 1, (power : Int) - 1074⟩ - Binary64.toRat x| <
      |d.toRat - Binary64.toRat x| := by
  have hvalue := toRat_le_of_finer hone hfiner
  have hunits : (0 : ℚ) < (stepInUnits * oneInSteps : Nat) :=
    units_ne_zero.symm.lt_of_le (Nat.cast_nonneg _)
  have hpower := coefficient_units 1 power
  rw [toRat, toRat, Binary64.toRat, hsign, abs_sub_of_sign, abs_sub_of_sign,
    Nat.cast_one, one_mul]
  rw [Nat.cast_one, one_mul, Nat.one_mul] at hpower
  have hpos : (0 : ℚ) < 10 ^ ((power : Int) - 1074) := by positivity
  rcases Nat.lt_or_ge (steps (Binary64.rank x) * stepInUnits) (10 ^ power)
    with habove | hbelow
  · have hnineteen : 19 * 10 ^ power <
        20 * (steps (Binary64.rank x) * stepInUnits) := by
      cases power with
      | zero =>
          have hsteps := steps_strictMono (Nat.pos_of_ne_zero hzero)
          have hmul := Nat.mul_pos (Nat.zero_lt_of_lt hsteps) stepInUnits_pos
          omega
      | succ power =>
          have hlt := nineteen_lt (Nat.pos_of_ne_zero hzero) habove hcontains
          rw [Nat.pow_succ]
          omega
    have hlt : 19 * (10 : ℚ) ^ ((power : Int) - 1074) <
        20 * (steps (Binary64.rank x) / oneInSteps) := by
      rw [hpower, steps_units, ← mul_div_assoc, ← mul_div_assoc]
      refine div_lt_div_of_pos_right ?_ hunits
      exact_mod_cast hnineteen
    have hlt' : steps (Binary64.rank x) / oneInSteps <
        (10 : ℚ) ^ ((power : Int) - 1074) := by
      rw [hpower, steps_units]
      exact div_lt_div_of_pos_right (Nat.cast_lt.2 habove) hunits
    rw [abs_of_pos (by linarith), abs_of_neg (by linarith)]
    linarith
  · have hle : (10 : ℚ) ^ ((power : Int) - 1074) ≤
        steps (Binary64.rank x) / oneInSteps := by
      rw [hpower, steps_units]
      exact div_le_div_of_nonneg_right (Nat.cast_le.2 hbelow) hunits.le
    rw [abs_of_nonpos (by linarith), abs_of_nonpos (by linarith)]
    linarith

theorem exists_coarsest {x : Float} (h : Binary64.rank x ≠ 0) :
    ∃ coefficient power, coarsest (Binary64.rank x) = (coefficient, power) ∧
      shortest x = ⟨isNegative x, coefficient, (power : Int) - 1074⟩ := by
  cases hfound : coarsest (Binary64.rank x) with
  | mk coefficient power =>
      refine ⟨coefficient, power, rfl, ?_⟩
      simp only [shortest, if_neg h, hfound]

theorem shortest_of_zero {x : Float} (h : Binary64.rank x = 0) :
    shortest x = ⟨isNegative x, 0, 0⟩ := by
  rw [shortest, if_pos h]

theorem nearest_shortest {x : Float} {d : Decimal}
    (h : Binary64.rank x < infinityRank) (hzero : Binary64.rank x ≠ 0)
    (hd : d.toFloat = x) (hlength : d.length ≤ (shortest x).length) :
    |(shortest x).toRat - Binary64.toRat x| ≤ |d.toRat - Binary64.toRat x| ∧
      (|(shortest x).toRat - Binary64.toRat x| = |d.toRat - Binary64.toRat x| →
        d.toRat = (shortest x).toRat ∨ (shortest x).coefficient % 2 = 0) := by
  have hr := Nat.pos_of_ne_zero hzero
  have hrank := rank_of_toFloat hd
  have hsign := negative_of_toFloat hd
  have hexponent := exponent_le_coarsest hr h hrank
  have hfiner := length_eq_one_of_finer hr hrank
  obtain ⟨coefficient, power, hfound, hshortest⟩ := exists_coarsest hzero
  rw [hfound] at hexponent hfiner
  rw [hshortest] at hlength ⊢
  rcases Int.lt_or_eq_of_le hexponent with hlt | heq
  · obtain ⟨hone, hcontains⟩ := hfiner hlt hlength
    have hnear := (nearest_of_found hzero hfound hcontains).1.trans_lt
      (abs_power_lt hzero hsign hone hlt hcontains)
    exact ⟨hnear.le, fun htie => absurd htie hnear.ne⟩
  · obtain ⟨negative, k, exponent⟩ := d
    obtain rfl : negative = isNegative x := hsign
    obtain rfl : exponent = (power : Int) - 1074 := by
      simp only [] at heq
      omega
    obtain ⟨hle, htie⟩ := nearest_of_found hzero hfound
      ((rank_eq_iff_contains h).1 hrank)
    refine ⟨hle, fun hsame => (htie hsame).imp_left fun heq => ?_⟩
    rw [heq]

theorem isShortest_shortest {x : Float}
    (h : Binary64.rank x < infinityRank) : (shortest x).IsShortest x where
  reads := toFloat_shortest h
  fewest := by
    intro d hd
    by_cases hzero : Binary64.rank x = 0
    · rw [shortest_of_zero hzero, length, digits, Nat.toDigits_zero]
      exact d.length_pos
    · obtain ⟨coefficient, power, hfound, hshortest⟩ := exists_coarsest hzero
      have hle := length_coarsest_le (Nat.pos_of_ne_zero hzero) h
        (rank_of_toFloat hd)
      rw [hfound] at hle
      rw [hshortest]
      exact hle
  nearest := by
    intro d hd hlength
    by_cases hzero : Binary64.rank x = 0
    · have hself : (shortest x).toRat = Binary64.toRat x := by
        rw [shortest_of_zero hzero, toRat, Binary64.toRat, hzero, steps_zero,
          Nat.cast_zero, zero_div, zero_mul]
      rw [hself, sub_self, abs_zero]
      exact abs_nonneg _
    · exact (nearest_shortest h hzero hd hlength).1
  even := by
    intro d hd hlength htie
    by_cases hzero : Binary64.rank x = 0
    · rw [shortest_of_zero hzero]
      exact Or.inr rfl
    · exact (nearest_shortest h hzero hd hlength).2 htie

end Decimal

end Rpn
