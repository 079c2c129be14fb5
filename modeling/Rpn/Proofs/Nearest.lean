import Mathlib.Order.Monotone.Basic
import Mathlib.Tactic.Ring
import Rpn.Binary64.Nearest

/-!
# Rounding finds the nearest double

`nearestRank` computes a rank from a binary logarithm and one rounded quotient.
What it computes is said here without either of them: the number lies between
the half way points to the two neighbouring doubles, and a half way point
belongs to the double with the even rank (`IsNearest`). Because magnitudes grow
with the rank, only one rank can be so placed (`IsNearest.unique`), and
`isNearest_nearestRank` says that rounding finds it.

The proof follows a double's place: rank `s * binade + m` with `m` between
`binade` and twice that has the magnitude `m * 2 ^ s`. Both ends are allowed
for `m`, since the end of one binade is the beginning of the next, and this is
what lets a rounded quotient that reaches the next power of two go without a
case. The first binade, where `s` is zero and `m` may be less, obeys the same
equation.

That a nearest rank is unique also shows that rounding depends on the value of
a quotient alone (`nearestRank_congr`), which the definition does not.
-/

namespace Rpn.Binary64

/-! ## Magnitudes by place -/

theorem binade_pos : 0 < binade := by decide

theorem steps_of_le {r : Nat} (h : r ≤ 2 * binade) : steps r = r := by
  rw [steps]
  split
  · rfl
  · next hlt =>
      rcases Nat.lt_or_ge r (2 * binade) with h' | h'
      · have hquot : r / binade = 1 := Nat.div_eq_of_lt_le (by omega) (by omega)
        have hmod := Nat.mod_add_div r binade
        rw [hquot] at hmod ⊢
        rw [Nat.sub_self, Nat.shiftLeft_zero]
        omega
      · obtain rfl : r = 2 * binade := by omega
        decide

theorem steps_place {s m : Nat} (hlow : binade ≤ m) (hhigh : m ≤ 2 * binade) :
    steps (s * binade + m) = m * 2 ^ s := by
  rcases Nat.lt_or_ge m (2 * binade) with h | h
  · have hrank : s * binade + m = (s + 1) * binade + (m - binade) := by
      rw [Nat.succ_mul]
      omega
    have hquot : (s * binade + m) / binade = s + 1 := by
      rw [hrank, Nat.add_comm, Nat.add_mul_div_right _ _ binade_pos,
        Nat.div_eq_of_lt (by omega), Nat.zero_add]
    have hmod : (s * binade + m) % binade = m - binade := by
      rw [hrank, Nat.add_comm, Nat.add_mul_mod_self_right,
        Nat.mod_eq_of_lt (by omega)]
    rw [steps, if_neg (by omega), hquot, hmod, Nat.shiftLeft_eq,
      Nat.add_sub_cancel, Nat.add_sub_cancel' hlow]
  · obtain rfl : m = 2 * binade := by omega
    have hrank : s * binade + 2 * binade = (s + 2) * binade := by ring
    rw [steps, if_neg (by omega), hrank, Nat.mul_mod_left,
      Nat.mul_div_cancel _ binade_pos, Nat.shiftLeft_eq, Nat.add_zero]
    show binade * 2 ^ (s + 1) = _
    rw [Nat.pow_succ]
    ring

theorem exists_place {r : Nat} (h : binade ≤ r) :
    ∃ s m, r = s * binade + m ∧ binade ≤ m ∧ m < 2 * binade := by
  have hmod := Nat.mod_lt r binade_pos
  have hpos : 1 ≤ r / binade := (Nat.one_le_div_iff binade_pos).2 h
  refine ⟨r / binade - 1, binade + r % binade, ?_, by omega, by omega⟩
  have hdiv := Nat.div_add_mod' r binade
  obtain ⟨q, hq⟩ : ∃ q, r / binade = q + 1 := ⟨r / binade - 1, by omega⟩
  rw [hq, Nat.succ_mul] at hdiv
  rw [hq, Nat.add_sub_cancel]
  omega

theorem steps_lt_succ (r : Nat) : steps r < steps (r + 1) := by
  rcases Nat.lt_or_ge r binade with h | h
  · rw [steps_of_le (by omega), steps_of_le (by omega)]
    omega
  · obtain ⟨s, m, rfl, hlow, hhigh⟩ := exists_place h
    rw [steps_place hlow (by omega), Nat.add_assoc,
      steps_place (by omega) (by omega), Nat.add_mul]
    have := Nat.two_pow_pos s
    omega

theorem steps_strictMono : StrictMono steps :=
  strictMono_nat_of_lt_succ steps_lt_succ

theorem steps_mono : Monotone steps := steps_strictMono.monotone

theorem steps_zero : steps 0 = 0 := by decide

theorem steps_pos {r : Nat} (h : 0 < r) : 0 < steps r :=
  Nat.lt_of_le_of_lt (Nat.zero_le _) (steps_strictMono h)

theorem infinityRank_pos : 0 < infinityRank := by decide

theorem oneInSteps_pos : 0 < oneInSteps :=
  Nat.lt_of_lt_of_eq (Nat.two_pow_pos _) (Nat.one_shiftLeft _).symm

theorem oneInSteps_eq : oneInSteps = 2 ^ 1074 := by decide +kernel

theorem two_in_steps : 2 * oneInSteps = 2 ^ 1075 := by decide +kernel

/-! ## The nearest rank -/

/-- A number of steps, `num / den`, lies between the half way points below and
above the magnitude of a rank, and on one of them only if the rank is even.
Nothing lies above infinity. -/
structure IsNearest (r num den : Nat) : Prop where
  bound : r ≤ infinityRank
  low : (steps (r - 1) + steps r) * den + r % 2 ≤ 2 * num
  high : r < infinityRank →
    2 * num + r % 2 ≤ (steps r + steps (r + 1)) * den

theorem IsNearest.le {r r' num den : Nat} (hden : 0 < den)
    (h : IsNearest r num den) (h' : IsNearest r' num den) : r' ≤ r := by
  refine Nat.le_of_not_lt fun hlt => ?_
  have hhigh := h.high (by have := h'.bound; omega)
  have hlow := h'.low
  rcases Nat.lt_or_ge (r + 1) r' with hgap | hgap
  · have hle : (steps r + steps (r + 1)) * den ≤
        (steps (r' - 1) + steps r') * den :=
      Nat.mul_le_mul_right _ (Nat.add_le_add
        (steps_mono (by omega)) (steps_mono (by omega)))
    have hlt' : (steps r + steps (r + 1)) * den <
        (steps (r' - 1) + steps r') * den :=
      Nat.mul_lt_mul_of_pos_right (Nat.add_lt_add_of_le_of_lt
        (steps_mono (by omega)) (steps_strictMono hgap)) hden
    omega
  · obtain rfl : r' = r + 1 := by omega
    rw [Nat.add_sub_cancel] at hlow
    omega

/-- No number is nearest to two ranks: between neighbours the half way point
goes to the one that is even. -/
theorem IsNearest.unique {r r' num den : Nat} (hden : 0 < den)
    (h : IsNearest r num den) (h' : IsNearest r' num den) : r = r' :=
  Nat.le_antisymm (h'.le hden h) (h.le hden h')

theorem IsNearest.scale {r num den : Nat} (h : IsNearest r num den) {k : Nat}
    (hk : 0 < k) : IsNearest r (num * k) (den * k) where
  bound := h.bound
  low := by
    have hlow := Nat.mul_le_mul_right k h.low
    have hodd := Nat.le_mul_of_pos_right (r % 2) hk
    rw [Nat.add_mul] at hlow
    rw [← Nat.mul_assoc, ← Nat.mul_assoc]
    omega
  high := by
    intro hlt
    have hhigh := Nat.mul_le_mul_right k (h.high hlt)
    have hodd := Nat.le_mul_of_pos_right (r % 2) hk
    rw [Nat.add_mul] at hhigh
    rw [← Nat.mul_assoc, ← Nat.mul_assoc]
    omega

theorem add_le_of_scale {a b odd k : Nat} (hk : 0 < k) (hodd : odd ≤ 1)
    (h : a * k + odd ≤ b * k) : a + odd ≤ b := by
  rcases Nat.le_one_iff_eq_zero_or_eq_one.1 hodd with rfl | rfl
  · exact Nat.le_of_mul_le_mul_right h hk
  · exact Nat.lt_of_mul_lt_mul_right h

theorem IsNearest.of_scale {r num den k : Nat} (hk : 0 < k)
    (h : IsNearest r (num * k) (den * k)) : IsNearest r num den where
  bound := h.bound
  low := by
    have hlow := h.low
    rw [← Nat.mul_assoc, ← Nat.mul_assoc] at hlow
    exact add_le_of_scale hk (Nat.le_of_lt_succ (Nat.mod_lt r (by decide))) hlow
  high := by
    intro hlt
    have hhigh := h.high hlt
    rw [← Nat.mul_assoc, ← Nat.mul_assoc] at hhigh
    exact add_le_of_scale hk (Nat.le_of_lt_succ (Nat.mod_lt r (by decide))) hhigh

/-! ## Rounding a quotient -/

theorem roundQuotient_le (num den : Nat) :
    roundQuotient num den ≤ num / den + 1 := by
  rw [roundQuotient]
  split
  · omega
  · split <;> omega

theorem le_roundQuotient (num den : Nat) :
    num / den ≤ roundQuotient num den := by
  rw [roundQuotient]
  split
  · omega
  · split <;> omega

/-- A rounded quotient is at most half away, and only if it is even is it so
much. -/
theorem roundQuotient_close (num : Nat) {den : Nat} (hden : 0 < den) :
    2 * roundQuotient num den * den + roundQuotient num den % 2 ≤
        2 * num + den ∧
      2 * num + roundQuotient num den % 2 ≤
        2 * roundQuotient num den * den + den := by
  have hdiv := Nat.div_add_mod' num den
  have hmod := Nat.mod_lt num hden
  rw [roundQuotient]
  generalize num / den = q at *
  split
  · rw [Nat.mul_assoc]
    omega
  · split
    · rw [Nat.mul_assoc, Nat.add_mul q, Nat.one_mul]
      omega
    · rcases Nat.mod_two_eq_zero_or_one q with h | h
      · rw [h, Nat.mul_assoc, Nat.add_zero]
        omega
      · rw [h, Nat.mul_assoc, Nat.add_mul q, Nat.one_mul]
        omega

/-! ## Rounding finds the nearest rank

A quotient of `num` by `den` steps is rounded to a whole number `m` of
spacings of `2 ^ s` steps. The place `s * binade + m` is nearest to it, as
far as both neighbours are concerned; that there may be no such finite double
is settled last. -/

/-- The whole number `m` is in the right binade: in the first one all are. -/
def InPlace (s m : Nat) : Prop :=
  m ≤ 2 * binade ∧ (s = 0 ∨ binade ≤ m)

theorem InPlace.steps_eq {s m : Nat} (h : InPlace s m) :
    steps (s * binade + m) = m * 2 ^ s := by
  rcases Nat.lt_or_ge m binade with hlow | hlow
  · obtain rfl : s = 0 := by
      have := h.2
      omega
    rw [Nat.zero_mul, Nat.zero_add, steps_of_le h.1, Nat.pow_zero, Nat.mul_one]
  · exact steps_place hlow h.1

/-- Any mantissa that is not too long makes up a magnitude. -/
theorem exists_steps {m : Nat} (h : m ≤ 2 * binade) (s : Nat) :
    ∃ r, steps r = m * 2 ^ s := by
  induction s generalizing m with
  | zero =>
      have hplace : InPlace 0 m := ⟨h, Or.inl rfl⟩
      exact ⟨_, hplace.steps_eq⟩
  | succ s ih =>
      rcases Nat.lt_or_ge m binade with hlow | hhigh
      · obtain ⟨r, hr⟩ := ih (m := 2 * m) (by omega)
        refine ⟨r, ?_⟩
        rw [hr, Nat.pow_succ']
        ring
      · have hplace : InPlace (s + 1) m := ⟨h, Or.inr hhigh⟩
        exact ⟨_, hplace.steps_eq⟩

/-- The next magnitude is at least one spacing away: at the end of a binade it
is two. -/
theorem InPlace.le_steps_succ {s m : Nat} (h : InPlace s m) :
    (m + 1) * 2 ^ s ≤ steps (s * binade + m + 1) := by
  rcases Nat.lt_or_ge m (2 * binade) with hhigh | hhigh
  · have hnext : InPlace s (m + 1) := ⟨hhigh, h.2.imp_right (by omega)⟩
    rw [Nat.add_assoc, hnext.steps_eq]
  · obtain rfl : m = 2 * binade := Nat.le_antisymm h.1 hhigh
    have hrank : s * binade + 2 * binade + 1 =
        (s + 1) * binade + (binade + 1) := by ring
    have hspacing : (binade + 1) * 2 ^ (s + 1) = (2 * binade + 2) * 2 ^ s := by
      ring
    rw [hrank, steps_place (by omega) (by decide), hspacing]
    exact Nat.mul_le_mul_right _ (by omega)

/-- The magnitude before is at most one spacing away, unless the binade begins
here. -/
theorem InPlace.steps_pred {s m : Nat} (h : InPlace s m) (hpos : 0 < m)
    (hinside : s = 0 ∨ binade < m) :
    steps (s * binade + m - 1) = (m - 1) * 2 ^ s := by
  have hbefore : InPlace s (m - 1) :=
    ⟨by have := h.1; omega, hinside.imp_right (by omega)⟩
  rw [Nat.add_sub_assoc hpos, hbefore.steps_eq]

theorem place_mod_two {s m : Nat} : (s * binade + m) % 2 = m % 2 := by
  rw [binade]
  omega

/-- The half way point below the place of a rounded quotient. At the beginning
of a binade the quotient itself was not below the place. -/
theorem place_low {num den s : Nat} (hden : 0 < den)
    (hplace : InPlace s (roundQuotient num (den * 2 ^ s)))
    (hstart : s = 0 ∨ binade ≤ num / (den * 2 ^ s)) :
    let r := s * binade + roundQuotient num (den * 2 ^ s)
    (steps (r - 1) + steps r) * den + r % 2 ≤ 2 * num := by
  have hspacing : 0 < den * 2 ^ s := Nat.mul_pos hden (Nat.two_pow_pos s)
  have hlow := (roundQuotient_close num hspacing).1
  have hquot := le_roundQuotient num (den * 2 ^ s)
  have hdiv := Nat.div_mul_le_self num (den * 2 ^ s)
  generalize roundQuotient num (den * 2 ^ s) = m at *
  intro r
  have hr : r % 2 = m % 2 := place_mod_two
  rw [hr]
  by_cases hinside : 0 < m ∧ (s = 0 ∨ binade < m)
  · have hsum : (steps (r - 1) + steps r) * den + den * 2 ^ s =
        2 * m * (den * 2 ^ s) := by
      rw [hplace.steps_pred hinside.1 hinside.2, hplace.steps_eq]
      obtain ⟨k, rfl⟩ : ∃ k, m = k + 1 := ⟨m - 1, by omega⟩
      rw [Nat.add_sub_cancel]
      ring
    omega
  · -- The place is zero, or the beginning of a binade: both are even.
    have heven : m % 2 = 0 := by
      have hstart' : m = 0 ∨ m = binade := by
        have := hplace.2
        omega
      rcases hstart' with rfl | rfl
      · rfl
      · decide
    have hsum : (steps (r - 1) + steps r) * den ≤ 2 * (m * (den * 2 ^ s)) := by
      have hmono : steps (r - 1) ≤ steps r := steps_mono (Nat.sub_le r 1)
      have htwice : (steps (r - 1) + steps r) * den ≤ 2 * steps r * den :=
        Nat.mul_le_mul_right _ (by omega)
      have hmagnitude : 2 * steps r * den = 2 * (m * (den * 2 ^ s)) := by
        rw [hplace.steps_eq]
        ring
      omega
    have hbelow : m * (den * 2 ^ s) ≤ num := by
      rcases Nat.eq_zero_or_pos m with rfl | hpos
      · omega
      · refine Nat.le_trans (Nat.mul_le_mul_right _ ?_) hdiv
        have := hplace.2
        omega
    omega

theorem place_high {num den s : Nat} (hden : 0 < den)
    (hplace : InPlace s (roundQuotient num (den * 2 ^ s))) :
    let r := s * binade + roundQuotient num (den * 2 ^ s)
    2 * num + r % 2 ≤ (steps r + steps (r + 1)) * den := by
  have hspacing : 0 < den * 2 ^ s := Nat.mul_pos hden (Nat.two_pow_pos s)
  have hhigh := (roundQuotient_close num hspacing).2
  generalize roundQuotient num (den * 2 ^ s) = m at *
  intro r
  have hr : r % 2 = m % 2 := place_mod_two
  have hnext : (m + 1) * 2 ^ s ≤ steps (r + 1) := hplace.le_steps_succ
  have hsum : 2 * m * (den * 2 ^ s) + den * 2 ^ s ≤
      (steps r + steps (r + 1)) * den := by
    calc 2 * m * (den * 2 ^ s) + den * 2 ^ s
        = (m * 2 ^ s + (m + 1) * 2 ^ s) * den := by ring
      _ ≤ (steps r + steps (r + 1)) * den := by
          rw [hplace.steps_eq]
          exact Nat.mul_le_mul_right _ (Nat.add_le_add_left hnext _)
  rw [hr]
  omega

/-- The spacing found from the logarithm puts the quotient in its binade. -/
theorem quotient_place {t s : Nat} (hs : s = t.log2 - 52) :
    t / 2 ^ s < 2 * binade ∧ (s = 0 ∨ binade ≤ t / 2 ^ s) := by
  have hbinade : binade = 2 ^ 52 := by decide
  have hlt : t < 2 ^ (t.log2 + 1) := Nat.lt_log2_self
  rcases Nat.eq_zero_or_pos s with h0 | hpos
  · subst h0
    refine ⟨?_, Or.inl rfl⟩
    have hle : 2 ^ (t.log2 + 1) ≤ 2 ^ 53 :=
      Nat.pow_le_pow_right (by decide) (by omega)
    rw [Nat.pow_zero, Nat.div_one, hbinade]
    omega
  · have hlog : t.log2 = 52 + s := by omega
    have hne : t ≠ 0 := by
      rintro rfl
      rw [Nat.log2_zero] at hlog
      omega
    have hle : 2 ^ t.log2 ≤ t := Nat.log2_self_le hne
    refine ⟨?_, Or.inr ?_⟩
    · rw [Nat.div_lt_iff_lt_mul (Nat.two_pow_pos s), hbinade]
      refine Nat.lt_of_lt_of_le hlt (Nat.le_of_eq ?_)
      rw [hlog]
      ring
    · rw [Nat.le_div_iff_mul_le (Nat.two_pow_pos s), hbinade, ← Nat.pow_add,
        ← hlog]
      exact hle

theorem isNearest_nearestRank (num : Nat) {den : Nat} (hden : 0 < den) :
    IsNearest (nearestRank num den) (num * oneInSteps) den := by
  rw [nearestRank]
  generalize num * oneInSteps = n
  generalize hs : (n / den).log2 - 52 = s
  rw [Nat.shiftLeft_eq]
  obtain ⟨hlt, hstart⟩ := quotient_place hs.symm
  rw [Nat.div_div_eq_div_mul] at hlt hstart
  have hle := roundQuotient_le n (den * 2 ^ s)
  have hge := le_roundQuotient n (den * 2 ^ s)
  have hplace : InPlace s (roundQuotient n (den * 2 ^ s)) :=
    ⟨by omega, hstart.imp_right (by omega)⟩
  have hlow := place_low hden hplace hstart
  have hhigh := place_high hden hplace
  generalize s * binade + roundQuotient n (den * 2 ^ s) = r at *
  rcases Nat.lt_or_ge infinityRank r with hover | hfinite
  · -- Past the largest double: the half way point below infinity is lower yet.
    rw [Nat.min_eq_left (Nat.le_of_lt hover)]
    refine ⟨Nat.le_refl _, ?_, fun h => absurd h (Nat.lt_irrefl _)⟩
    have heven : infinityRank % 2 = 0 := by decide
    have hsum : (steps (infinityRank - 1) + steps infinityRank) * den ≤
        (steps (r - 1) + steps r) * den :=
      Nat.mul_le_mul_right _ (Nat.add_le_add
        (steps_mono (by omega)) (steps_mono (by omega)))
    omega
  · rw [Nat.min_eq_right hfinite]
    exact ⟨hfinite, hlow, fun _ => hhigh⟩

/-- Rounding answers with the rank that is nearest, and with no other. -/
theorem nearestRank_eq_iff {num den r : Nat} (hden : 0 < den) :
    nearestRank num den = r ↔ IsNearest r (num * oneInSteps) den := by
  refine ⟨fun h => h ▸ isNearest_nearestRank num hden, fun h => ?_⟩
  exact (isNearest_nearestRank num hden).unique hden h

/-- Rounding depends on the value of a quotient, not on how it is written. -/
theorem nearestRank_congr {num den num' den' : Nat} (hden : 0 < den)
    (hden' : 0 < den') (h : num * den' = num' * den) :
    nearestRank num den = nearestRank num' den' := by
  have hleft := (isNearest_nearestRank num hden).scale hden'
  have hright := (isNearest_nearestRank num' hden').scale hden
  have hnum : num * oneInSteps * den' = num' * oneInSteps * den := by
    rw [Nat.mul_right_comm, h, Nat.mul_right_comm]
  rw [hnum, Nat.mul_comm den den'] at hleft
  exact hleft.unique (Nat.mul_pos hden' hden) hright

end Rpn.Binary64
