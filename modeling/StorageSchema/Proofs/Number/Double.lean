/-
This file says which double a decimal gives. It is the nearest one, of two that are equally near the
even one, and infinity from halfway beyond the greatest finite one.
-/
import Mathlib.Algebra.Order.Field.Basic
import Mathlib.Algebra.Order.Field.Rat
import Mathlib.Data.Nat.Dist
import Mathlib.Tactic.NormNum
import Mathlib.Tactic.Ring
import StorageSchema.Number.Double

namespace StorageSchema

/-- A magnitude of this rank is made up of so many grains. -/
def Double.grains (rank : Nat) : Nat :=
  (rank - (rank / Nat.pow 2 52 - 1) * Nat.pow 2 52) * Nat.pow 2 (rank / Nat.pow 2 52 - 1)

/-- The magnitude of a finite double is its significand at its spacing. -/
def Double.magnitude (number : Double) : ℚ :=
  number.significand * 2 ^ number.doublings / Double.granularity

/-- The magnitude of a decimal is its units at its scale. -/
def Decimal.magnitude (decimal : Decimal) : ℚ := decimal.units / 10 ^ decimal.scale

/-- A quotient is nearer to one whole number than to another, or equally near to both while a
condition holds that tells two neighbours apart. -/
def IsNearer (dividend divisor chosen other : Nat) (isEven : Prop) : Prop :=
  Nat.dist (chosen * divisor) dividend < Nat.dist (other * divisor) dividend ∨
    Nat.dist (chosen * divisor) dividend = Nat.dist (other * divisor) dividend ∧ isEven

/-- A quotient is rounded down if its rest is small, and up if its rest is great. -/
theorem roundQuotient_cases (dividend divisor : Nat) :
    (roundQuotient dividend divisor = dividend / divisor ∧
      (2 * (dividend % divisor) < divisor ∨
        2 * (dividend % divisor) = divisor ∧ dividend / divisor % 2 = 0)) ∨
    (roundQuotient dividend divisor = dividend / divisor + 1 ∧
      (divisor < 2 * (dividend % divisor) ∨
        2 * (dividend % divisor) = divisor ∧ (dividend / divisor + 1) % 2 = 0)) := by
  unfold roundQuotient
  dsimp only
  split
  · left
    omega
  · right
    omega

/-- Whole numbers that are apart make products that are a factor apart. -/
theorem mul_add_le_mul_of_lt {lower upper : Nat} (below : lower < upper) (divisor : Nat) :
    lower * divisor + divisor ≤ upper * divisor := by
  rw [← Nat.succ_mul]
  exact Nat.mul_le_mul_right divisor below

/-- A quotient is rounded to the nearest whole number, and a half to the even one. -/
theorem roundQuotient_nearest {dividend divisor other : Nat} (positive : 0 < divisor)
    (different : other ≠ roundQuotient dividend divisor) :
    IsNearer dividend divisor (roundQuotient dividend divisor) other
      (roundQuotient dividend divisor % 2 = 0) := by
  have divided := Nat.div_add_mod' dividend divisor
  have rest := Nat.mod_lt dividend positive
  have next := Nat.add_one_mul (dividend / divisor) divisor
  unfold IsNearer Nat.dist
  rcases roundQuotient_cases dividend divisor with ⟨down, near⟩ | ⟨up, near⟩
  · rw [down] at different ⊢
    rcases Nat.lt_or_gt_of_ne different with below | above
    · have apart := mul_add_le_mul_of_lt below divisor
      omega
    · have apart := mul_add_le_mul_of_lt above divisor
      omega
  · rw [up] at different ⊢
    rcases Nat.lt_or_gt_of_ne different with below | above
    · have apart := mul_add_le_mul_of_lt below divisor
      omega
    · have apart := mul_add_le_mul_of_lt above divisor
      omega

/-! ### Ranks -/

theorem pow_positive (exponent : Nat) : 0 < Nat.pow 2 exponent := Nat.two_pow_pos exponent

theorem pow_next (exponent : Nat) : Nat.pow 2 (exponent + 1) = 2 * Nat.pow 2 exponent :=
  Nat.pow_succ'

theorem pow_half : Nat.pow 2 53 = 2 * Nat.pow 2 52 := pow_next 52

theorem pow_even : Nat.pow 2 52 % 2 = 0 := rfl

theorem pow_less : Nat.pow 2 52 < Nat.pow 2 53 := by
  have positive := pow_positive 52
  have half := pow_half
  omega

/-- A rank with so many doublings holds its significand. -/
theorem Double.grains_add {doublings significand : Nat} (normal : Nat.pow 2 52 ≤ significand)
    (small : significand < Nat.pow 2 53) :
    Double.grains (doublings * Nat.pow 2 52 + significand) = significand * Nat.pow 2 doublings := by
  have half := pow_half
  have quotient : (doublings * Nat.pow 2 52 + significand) / Nat.pow 2 52 = doublings + 1 := by
    rw [Nat.div_eq_of_lt_le]
    · rw [Nat.succ_mul]
      omega
    · rw [Nat.succ_mul, Nat.succ_mul]
      omega
  rw [Double.grains, quotient, Nat.add_sub_cancel, Nat.add_sub_cancel_left]

theorem Double.grains_of_lt {rank : Nat} (small : rank < Nat.pow 2 53) :
    Double.grains rank = rank := by
  have half := pow_half
  have few : rank / Nat.pow 2 52 - 1 = 0 := by
    have quotient : rank / Nat.pow 2 52 < 2 := Nat.div_lt_of_lt_mul (by omega)
    omega
  rw [Double.grains, few, Nat.zero_mul, Nat.sub_zero]
  exact Nat.mul_one rank

/-- A rank is one of the least ones, or it has a significand of full size. -/
theorem Double.exists_significand (rank : Nat) :
    rank < Nat.pow 2 53 ∨ ∃ doublings significand, Nat.pow 2 52 ≤ significand ∧
      significand < Nat.pow 2 53 ∧ rank = doublings * Nat.pow 2 52 + significand := by
  have half := pow_half
  have divided := Nat.div_add_mod' rank (Nat.pow 2 52)
  have rest : rank % Nat.pow 2 52 < Nat.pow 2 52 := Nat.mod_lt rank (pow_positive 52)
  by_cases few : rank / Nat.pow 2 52 = 0
  · left
    rw [few] at divided
    omega
  · right
    obtain ⟨doublings, counted⟩ := Nat.exists_eq_succ_of_ne_zero few
    rw [counted, Nat.succ_mul] at divided
    exact ⟨doublings, Nat.pow 2 52 + rank % Nat.pow 2 52, by omega, by omega, by omega⟩

/-- Greater ranks have greater magnitudes. -/
theorem Double.strictMono_grains : StrictMono Double.grains := by
  have half := pow_half
  apply strictMono_nat_of_lt_succ
  intro rank
  rcases Double.exists_significand rank with least | ⟨doublings, significand, normal, small, rfl⟩
  · rw [Double.grains_of_lt least]
    by_cases last : rank + 1 < Nat.pow 2 53
    · rw [Double.grains_of_lt last]
      exact Nat.lt_succ_self rank
    · have next : rank + 1 = 1 * Nat.pow 2 52 + Nat.pow 2 52 := by omega
      rw [next, Double.grains_add (Nat.le_refl _) pow_less]
      change rank < Nat.pow 2 52 * 2
      omega
  · have spaced := pow_positive doublings
    rw [Double.grains_add normal small]
    by_cases last : significand + 1 < Nat.pow 2 53
    · rw [Nat.add_assoc, Double.grains_add (by omega) last]
      exact Nat.mul_lt_mul_of_pos_right (Nat.lt_succ_self significand) spaced
    · have next : doublings * Nat.pow 2 52 + significand + 1 =
          (doublings + 1) * Nat.pow 2 52 + Nat.pow 2 52 := by
        rw [Nat.add_one_mul]
        omega
      have doubled : Nat.pow 2 52 * Nat.pow 2 (doublings + 1) =
          Nat.pow 2 53 * Nat.pow 2 doublings := by
        change 2 ^ 52 * 2 ^ (doublings + 1) = 2 ^ 53 * 2 ^ doublings
        ring
      rw [next, Double.grains_add (Nat.le_refl _) pow_less, doubled]
      exact Nat.mul_lt_mul_of_pos_right small spaced

/-- From so many doublings on, magnitudes are multiples of the spacing. -/
theorem Double.dvd_grains {doublings rank : Nat} (great : (doublings + 1) * Nat.pow 2 52 ≤ rank) :
    Nat.pow 2 doublings ∣ Double.grains rank := by
  have more : doublings + 1 ≤ rank / Nat.pow 2 52 :=
    (Nat.le_div_iff_mul_le (pow_positive 52)).2 great
  exact (Nat.pow_dvd_pow 2 (Nat.le_sub_one_of_lt more)).mul_left _

/-- Before so many doublings, magnitudes are smaller than the least significand of full size. -/
theorem Double.grains_lt {doublings rank : Nat} (less : rank < (doublings + 1) * Nat.pow 2 52) :
    Double.grains rank < Nat.pow 2 52 * Nat.pow 2 doublings := by
  rw [← Double.grains_add (Nat.le_refl _) pow_less, ← Nat.add_one_mul]
  exact Double.strictMono_grains less

/-! ### Rounding -/

section Rounding

variable {dividend divisor : Nat}

/-- What is left of a quotient after its spacing is taken off has 53 bits, and no fewer if there is
a spacing. -/
theorem Double.significand_bounds (dividend divisor : Nat) :
    let doublings := (dividend / divisor).log2 - 52
    dividend / (divisor * Nat.pow 2 doublings) < Nat.pow 2 53 ∧
      (doublings ≠ 0 → Nat.pow 2 52 ≤ dividend / (divisor * Nat.pow 2 doublings)) := by
  intro doublings
  rw [← Nat.div_div_eq_div_mul]
  constructor
  · apply Nat.div_lt_of_lt_mul
    change dividend / divisor < 2 ^ doublings * 2 ^ 53
    rw [← Nat.pow_add]
    apply Nat.lt_of_lt_of_le Nat.lt_log2_self
    exact Nat.pow_le_pow_right Nat.two_pos (by omega)
  · intro spaced
    have nonzero : dividend / divisor ≠ 0 := by
      intro zero
      apply spaced
      change (dividend / divisor).log2 - 52 = 0
      rw [zero]
      rfl
    apply (Nat.le_div_iff_mul_le (pow_positive doublings)).2
    change 2 ^ 52 * 2 ^ doublings ≤ dividend / divisor
    rw [← Nat.pow_add]
    have full : 52 + doublings = (dividend / divisor).log2 := by omega
    rw [full]
    exact Nat.log2_self_le nonzero

/-- A rounded quotient of grains is the magnitude of its rank. -/
theorem Double.grains_rankOfGrains (dividend divisor : Nat) :
    let doublings := (dividend / divisor).log2 - 52
    Double.grains (Double.rankOfGrains dividend divisor) =
      roundQuotient dividend (divisor * Nat.pow 2 doublings) * Nat.pow 2 doublings := by
  intro doublings
  have half := pow_half
  obtain ⟨small, normal⟩ := Double.significand_bounds dividend divisor
  have rounded := roundQuotient_cases dividend (divisor * Nat.pow 2 doublings)
  change Double.grains (doublings * Nat.pow 2 52 + roundQuotient _ _) = _
  change dividend / (divisor * Nat.pow 2 doublings) < Nat.pow 2 53 at small
  change doublings ≠ 0 → Nat.pow 2 52 ≤ dividend / (divisor * Nat.pow 2 doublings) at normal
  generalize roundQuotient dividend (divisor * Nat.pow 2 doublings) = significand at *
  by_cases carried : significand = Nat.pow 2 53
  · have next : doublings * Nat.pow 2 52 + significand =
        (doublings + 1) * Nat.pow 2 52 + Nat.pow 2 52 := by
      rw [Nat.add_one_mul]
      omega
    rw [next, Double.grains_add (Nat.le_refl _) pow_less, carried]
    change 2 ^ 52 * 2 ^ (doublings + 1) = 2 ^ 53 * 2 ^ doublings
    ring
  · by_cases least : significand < Nat.pow 2 52
    · have unspaced : doublings = 0 := by
        by_contra spaced
        have enough := normal spaced
        omega
      rw [unspaced, Nat.zero_mul, Nat.zero_add, Double.grains_of_lt (by omega)]
      exact (Nat.mul_one significand).symm
    · exact Double.grains_add (by omega) (by omega)

/-- The rank of a quotient of grains is nearer to it than any other one. -/
theorem Double.rankOfGrains_nearest (dividend : Nat) (positive : 0 < divisor) {other : Nat}
    (different : other ≠ Double.rankOfGrains dividend divisor) :
    IsNearer dividend divisor (Double.grains (Double.rankOfGrains dividend divisor))
      (Double.grains other) (Double.rankOfGrains dividend divisor % 2 = 0) := by
  have chosen := Double.grains_rankOfGrains dividend divisor
  obtain ⟨-, normal⟩ := Double.significand_bounds dividend divisor
  have rank : Double.rankOfGrains dividend divisor =
      ((dividend / divisor).log2 - 52) * Nat.pow 2 52 + roundQuotient dividend
        (divisor * Nat.pow 2 ((dividend / divisor).log2 - 52)) :=
    rfl
  dsimp only at chosen normal
  generalize (dividend / divisor).log2 - 52 = doublings at *
  have spaced : 0 < divisor * Nat.pow 2 doublings :=
    Nat.mul_pos positive (pow_positive doublings)
  have scaled (count : Nat) :
      count * Nat.pow 2 doublings * divisor = count * (divisor * Nat.pow 2 doublings) := by
    rw [Nat.mul_assoc, Nat.mul_comm (Nat.pow 2 doublings)]
  have sameParity : Double.rankOfGrains dividend divisor % 2 =
      roundQuotient dividend (divisor * Nat.pow 2 doublings) % 2 := by
    have even : doublings * Nat.pow 2 52 % 2 = 0 := by
      rw [Nat.mul_mod, pow_even, Nat.mul_zero, Nat.zero_mod]
    rw [rank, Nat.add_mod, even, Nat.zero_add, Nat.mod_mod]
  rw [IsNearer, chosen, scaled, sameParity]
  by_cases aligned : Nat.pow 2 doublings ∣ Double.grains other
  · obtain ⟨count, counted⟩ := aligned
    rw [Nat.mul_comm] at counted
    rw [counted, scaled]
    apply roundQuotient_nearest spaced
    intro same
    apply different
    apply Double.strictMono_grains.injective
    rw [counted, same, chosen]
  · -- The other magnitude is below those of full size, and the quotient is not.
    left
    have less : other < (doublings + 1) * Nat.pow 2 52 := by
      apply Nat.lt_of_not_le
      intro great
      exact aligned (Double.dvd_grains great)
    have full : Nat.pow 2 52 ≤ dividend / (divisor * Nat.pow 2 doublings) := by
      apply normal
      intro unspaced
      apply aligned
      rw [unspaced]
      exact Nat.one_dvd _
    have reached := (Nat.le_div_iff_mul_le spaced).1 full
    have below : Double.grains other * divisor <
        Nat.pow 2 52 * (divisor * Nat.pow 2 doublings) := by
      rw [← scaled]
      exact Nat.mul_lt_mul_of_pos_right (Double.grains_lt less) positive
    have least : Nat.dist (roundQuotient dividend (divisor * Nat.pow 2 doublings) *
        (divisor * Nat.pow 2 doublings)) dividend ≤
          Nat.dist (Nat.pow 2 52 * (divisor * Nat.pow 2 doublings)) dividend := by
      by_cases same : Nat.pow 2 52 = roundQuotient dividend (divisor * Nat.pow 2 doublings)
      · rw [← same]
      · obtain nearer | ⟨equal, -⟩ := roundQuotient_nearest spaced same
        · exact Nat.le_of_lt nearer
        · exact Nat.le_of_eq equal
    apply Nat.lt_of_le_of_lt least
    unfold Nat.dist
    omega

/-- A quotient gets a greater rank than an odd one from halfway between the two magnitudes on. -/
theorem Double.lt_rankOfGrains_iff (dividend : Nat) (positive : 0 < divisor) {lower : Nat}
    (odd : lower % 2 = 1) :
    lower < Double.rankOfGrains dividend divisor ↔
      (Double.grains lower + Double.grains (lower + 1)) * divisor ≤ 2 * dividend := by
  have ordered {first second : Nat} (notAbove : first ≤ second) :
      Double.grains first * divisor ≤ Double.grains second * divisor :=
    Nat.mul_le_mul_right divisor (Double.strictMono_grains.monotone notAbove)
  have apart {first second : Nat} (below : first < second) :
      Double.grains first * divisor < Double.grains second * divisor :=
    Nat.mul_lt_mul_of_pos_right (Double.strictMono_grains below) positive
  have next : Double.grains lower * divisor < Double.grains (lower + 1) * divisor :=
    apart (Nat.lt_succ_self lower)
  rw [Nat.add_mul]
  constructor
  · intro above
    have different := Nat.ne_of_lt above
    have nearer := Double.rankOfGrains_nearest dividend positive different
    have notLess : Double.grains (lower + 1) * divisor ≤ _ := ordered above
    unfold IsNearer Nat.dist at nearer
    omega
  · intro reached
    by_contra notAbove
    have different : lower + 1 ≠ Double.rankOfGrains dividend divisor := by omega
    have nearer := Double.rankOfGrains_nearest dividend positive different
    have notGreater := ordered (Nat.le_of_not_lt notAbove)
    unfold IsNearer Nat.dist at nearer
    obtain less | ⟨equal, even⟩ := nearer
    · omega
    · -- The two would have the same rank, and one rank is odd.
      have below : Double.rankOfGrains dividend divisor < lower := by omega
      have smaller := apart below
      omega

end Rounding

/-! ### Doubles and decimals -/

theorem Double.granularity_pos : 0 < Double.granularity := by
  unfold Double.granularity
  generalize 1074 = exponent
  exact pow_positive exponent

theorem Double.magnitude_eq (number : Double) :
    number.magnitude = Double.grains number.rank / Double.granularity := by
  have grains : Double.grains number.rank = number.significand * 2 ^ number.doublings := rfl
  rw [Double.magnitude, grains, Nat.cast_mul, Nat.cast_pow, Nat.cast_ofNat]

theorem cast_dist (first second : Nat) : (Nat.dist first second : ℚ) = |(first : ℚ) - second| := by
  rcases Nat.le_total first second with below | above
  · rw [Nat.dist_eq_sub_of_le below, Nat.cast_sub below, abs_sub_comm, abs_of_nonneg]
    exact sub_nonneg.2 (Nat.cast_le.2 below)
  · rw [Nat.dist_eq_sub_of_le_right above, Nat.cast_sub above, abs_of_nonneg]
    exact sub_nonneg.2 (Nat.cast_le.2 above)

/-- How far a double is from a decimal is counted in the grains of both. -/
theorem Double.abs_magnitude_sub (number : Double) (decimal : Decimal) :
    |number.magnitude - decimal.magnitude| =
      (Nat.dist (Double.grains number.rank * 10 ^ decimal.scale)
        (decimal.units * Double.granularity) : ℚ) /
          (Double.granularity * 10 ^ decimal.scale) := by
  have fine : (0 : ℚ) < Double.granularity := Nat.cast_pos.2 Double.granularity_pos
  have scaled : (0 : ℚ) < 10 ^ decimal.scale := pow_pos (by norm_num) decimal.scale
  have apart : number.magnitude - decimal.magnitude =
      ((Double.grains number.rank : ℚ) * 10 ^ decimal.scale -
        decimal.units * Double.granularity) / (Double.granularity * 10 ^ decimal.scale) := by
    rw [Double.magnitude_eq, Decimal.magnitude, div_sub_div _ _ fine.ne' scaled.ne',
      mul_comm (Double.granularity : ℚ) decimal.units]
  rw [apart, abs_div, abs_of_pos (mul_pos fine scaled), cast_dist]
  push_cast
  rfl

/-- The last rank with so many doublings and the first one with more lie at both sides of this. -/
theorem Double.grains_last_add_first {doublings coarse fine : Nat}
    (counted : doublings = coarse + (fine + 1)) :
    Double.grains (doublings * Nat.pow 2 52 + (Nat.pow 2 53 - 1)) +
        Double.grains (doublings * Nat.pow 2 52 + (Nat.pow 2 53 - 1) + 1) =
      (Nat.pow 2 54 - 1) * Nat.pow 2 coarse * (2 * Nat.pow 2 fine) := by
  have next : doublings * Nat.pow 2 52 + (Nat.pow 2 53 - 1) + 1 =
      (doublings + 1) * Nat.pow 2 52 + Nat.pow 2 52 := by
    have half := pow_half
    have less := pow_less
    have more := Nat.add_one_mul doublings (Nat.pow 2 52)
    omega
  have split : Nat.pow 2 doublings = Nat.pow 2 coarse * (2 * Nat.pow 2 fine) := by
    rw [counted, ← pow_next]
    exact Nat.pow_add ..
  rw [next, Double.grains_add (by decide) (by decide), Double.grains_add (by decide) (by decide),
    pow_next doublings, split, Nat.mul_assoc (Nat.pow 2 54 - 1)]
  generalize Nat.pow 2 coarse * (2 * Nat.pow 2 fine) = spacing
  change 9007199254740991 * spacing + 4503599627370496 * (2 * spacing) =
    18014398509481983 * spacing
  omega

/-- A decimal gets a greater rank than that last one from the middle between the two on. The
exponents are variables here, so that no power of them is computed. -/
theorem Double.last_lt_rankOfGrains_iff (decimal : Decimal)
    {granularity doublings coarse fine limit : Nat} (grained : granularity = Nat.pow 2 fine)
    (counted : doublings = coarse + (fine + 1)) (limited : limit = coarse + 54) :
    doublings * Nat.pow 2 52 + (Nat.pow 2 53 - 1) <
        Double.rankOfGrains (decimal.units * granularity) (Nat.pow 10 decimal.scale) ↔
      2 ^ limit - 2 ^ coarse ≤ decimal.magnitude := by
  have scaled : 0 < Nat.pow 10 decimal.scale := Nat.pow_pos (by decide)
  have fineness : 0 < 2 * granularity := by
    rw [grained]
    exact Nat.mul_pos (by decide) (pow_positive fine)
  have odd : (doublings * Nat.pow 2 52 + (Nat.pow 2 53 - 1)) % 2 = 1 := by
    have even : doublings * Nat.pow 2 52 % 2 = 0 := by
      rw [Nat.mul_mod, pow_even, Nat.mul_zero, Nat.zero_mod]
    have odd : (Nat.pow 2 53 - 1) % 2 = 1 := rfl
    rw [Nat.add_mod, even, odd]
  have middle : (2 : ℚ) ^ limit - 2 ^ coarse = ((Nat.pow 2 54 - 1) * Nat.pow 2 coarse : Nat) := by
    have cast : ((Nat.pow 2 coarse : Nat) : ℚ) = 2 ^ coarse := Nat.cast_pow 2 coarse
    rw [limited, pow_add, Nat.cast_mul, cast]
    norm_num
    ring
  have places : (10 : ℚ) ^ decimal.scale = (Nat.pow 10 decimal.scale : Nat) :=
    (Nat.cast_pow 10 decimal.scale).symm
  rw [Double.lt_rankOfGrains_iff _ scaled odd, Double.grains_last_add_first counted, ← grained,
    middle, Decimal.magnitude, places, le_div_iff₀ (Nat.cast_pos.2 scaled), ← Nat.cast_mul,
    Nat.cast_le, Nat.mul_right_comm, Nat.mul_left_comm 2, Nat.mul_le_mul_right_iff fineness]

theorem Double.granularity_eq : Double.granularity = Nat.pow 2 1074 := by
  unfold Double.granularity
  generalize 1074 = exponent
  rfl

/-- A decimal gets the rank of infinity from halfway between the greatest finite magnitude and the
next power of two on. -/
theorem Double.infiniteRank_le_iff (decimal : Decimal) :
    Double.infiniteRank ≤
        Double.rankOfGrains (decimal.units * Double.granularity) (Nat.pow 10 decimal.scale) ↔
      2 ^ 1024 - 2 ^ 970 ≤ decimal.magnitude := by
  have last : Double.infiniteRank = 2045 * Nat.pow 2 52 + (Nat.pow 2 53 - 1) + 1 := rfl
  rw [last, Nat.add_one_le_iff]
  exact Double.last_lt_rankOfGrains_iff decimal Double.granularity_eq rfl rfl

/-- A decimal keeps its sign. It becomes infinite from halfway between the greatest finite double
and the next power of two on, and otherwise the double that is nearest to it, or the even one of two
that are. -/
theorem Double.ofDecimal_nearest (decimal : Decimal) :
    (Double.ofDecimal decimal).negative = decimal.negative ∧
    ((Double.ofDecimal decimal).isInfinite = true ↔ 2 ^ 1024 - 2 ^ 970 ≤ decimal.magnitude) ∧
    ((Double.ofDecimal decimal).isInfinite = false →
      ∀ other : Double, other.isInfinite = false →
        other.rank ≠ (Double.ofDecimal decimal).rank →
        |(Double.ofDecimal decimal).magnitude - decimal.magnitude| <
            |other.magnitude - decimal.magnitude| ∨
          |(Double.ofDecimal decimal).magnitude - decimal.magnitude| =
            |other.magnitude - decimal.magnitude| ∧ (Double.ofDecimal decimal).rank % 2 = 0) := by
  have scaled : 0 < Nat.pow 10 decimal.scale := Nat.pow_pos (by decide)
  have rank : (Double.ofDecimal decimal).rank = min Double.infiniteRank
    (Double.rankOfGrains (decimal.units * Double.granularity) (Nat.pow 10 decimal.scale)) := rfl
  refine ⟨rfl, ?_, ?_⟩
  · rw [← Double.infiniteRank_le_iff, Double.isInfinite, rank, decide_eq_true_iff, min_eq_left_iff]
  · intro finite other _ different
    rw [Double.isInfinite, decide_eq_false_iff_not] at finite
    have isRank : (Double.ofDecimal decimal).rank = Double.rankOfGrains
        (decimal.units * Double.granularity) (Nat.pow 10 decimal.scale) := by omega
    rw [isRank] at different
    have nearer := Double.rankOfGrains_nearest _ scaled different
    have positive : (0 : ℚ) < Double.granularity * 10 ^ decimal.scale :=
      mul_pos (Nat.cast_pos.2 Double.granularity_pos) (pow_pos (by norm_num) decimal.scale)
    rw [Double.abs_magnitude_sub, Double.abs_magnitude_sub, isRank,
      div_lt_div_iff_of_pos_right positive, div_left_inj' positive.ne', Nat.cast_lt, Nat.cast_inj]
    exact nearer

end StorageSchema
