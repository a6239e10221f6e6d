import ContractTests.Decimal.Notation
import Mathlib.Algebra.Order.Field.Power
import Mathlib.Data.List.TakeWhile
import Mathlib.Data.Rat.Cast.Order
import Mathlib.Tactic.Linarith
import Mathlib.Tactic.NormNum
import Mathlib.Tactic.Positivity
import Mathlib.Tactic.Ring

/-! # Shortest decimals determine the double

A decimal reads back as a double when it lies in an interval around it (`Double.readsBack_iff`). The
intervals of two doubles of one sign have at most an end in common, and an end belongs to one of
them only, so that a decimal reads back as one double (`Double.eq_of_isReadAs`). A decimal of
seventeen digits is close enough to read back, so that the search for the shortest one finds one
(`Double.shortest_isReadAs`).
-/

set_option autoImplicit false

namespace ContractTests

theorem pow_toNat_div_pow_toNat {b : ℚ} (hb : b ≠ 0) (n : ℤ) :
    b ^ n.toNat / b ^ (-n).toNat = b ^ n := by
  rw [← zpow_natCast, ← zpow_natCast, ← zpow_sub₀ hb]
  congr 1
  omega

theorem cast_natPow (b n : Nat) : ((Nat.pow b n : Nat) : ℚ) = (b : ℚ) ^ n := Nat.cast_pow b n

namespace Double

variable {x y : Double}

/-! ## Magnitude -/

/-- The size of a unit in the last place. -/
def unit (x : Double) : ℚ := 2 ^ ((x.scale : ℤ) - 1075)

/-- The absolute value of a finite double. -/
def magnitude (x : Double) : ℚ := x.significand * x.unit

theorem isZero_iff (x : Double) : x.isZero = true ↔ x.significand = 0 := by
  have hpow : Nat.pow 2 52 = 2 ^ 52 := rfl
  have hpow11 : Nat.pow 2 11 = 2 ^ 11 := rfl
  have hpow63 : Nat.pow 2 63 = 2 ^ 63 := rfl
  simp only [isZero, significand, exponentField, fraction, beq_iff_eq, hpow, hpow11, hpow63]
  split <;> omega

theorem unit_pos (x : Double) : 0 < x.unit := zpow_pos (by norm_num) _

theorem denominator_pos (x : Double) : 0 < (x.denominator : ℚ) := by
  have hpos : 0 < Nat.pow 2 (1075 - x.scale) := Nat.pow_pos (by decide)
  exact_mod_cast hpos

theorem unitNumerator_div_denominator (x : Double) :
    (x.unitNumerator : ℚ) / x.denominator = x.unit := by
  have hpow := pow_toNat_div_pow_toNat (two_ne_zero (α := ℚ)) ((x.scale : ℤ) - 1075)
  have hup : ((x.scale : ℤ) - 1075).toNat = x.scale - 1075 := by omega
  have hdown : (-((x.scale : ℤ) - 1075)).toNat = 1075 - x.scale := by omega
  rw [hup, hdown] at hpow
  rw [unit, ← hpow, unitNumerator, denominator]
  simp only [cast_natPow, Nat.cast_ofNat]

theorem numerator_div_denominator (x : Double) :
    (x.numerator : ℚ) / x.denominator = x.magnitude := by
  rw [magnitude, ← unitNumerator_div_denominator, numerator, Nat.cast_mul, mul_div_assoc]

/-! ## The interval of a double -/

/-- Quarters of a unit from a double down to the end of its interval. -/
def below (x : Double) : Nat := if x.fraction = 0 && 1 < x.exponentField then 1 else 2

theorem below_le (x : Double) : x.below ≤ 2 := by
  unfold below
  split <;> omega

/-- Four times the lower end of the interval. -/
def low (x : Double) : ℚ := ((4 * x.significand - x.below : Nat) : ℚ) * x.unit

/-- Four times the upper end of the interval. -/
def high (x : Double) : ℚ := ((4 * x.significand + 2 : Nat) : ℚ) * x.unit

theorem low_eq (hpos : 0 < x.significand) : x.low = 4 * x.magnitude - x.below * x.unit := by
  have hle : x.below ≤ 4 * x.significand := by
    have := x.below_le
    omega
  rw [low, Nat.cast_sub hle, magnitude]
  push_cast
  ring

theorem high_eq (x : Double) : x.high = 4 * x.magnitude + 2 * x.unit := by
  rw [high, magnitude]
  push_cast
  ring

/-- The decimal is in the interval of the double. -/
def IsReadAs (x : Double) (q : ℚ) : Prop :=
  if x.significand % 2 = 0 then x.low ≤ 4 * q ∧ 4 * q ≤ x.high else x.low < 4 * q ∧ 4 * q < x.high

theorem IsReadAs.bounds {q : ℚ} (h : x.IsReadAs q) : x.low ≤ 4 * q ∧ 4 * q ≤ x.high := by
  unfold IsReadAs at h
  split at h
  · exact h
  · exact ⟨h.1.le, h.2.le⟩

theorem isReadAs_of_lt {q : ℚ} (hlow : x.low < 4 * q) (hhigh : 4 * q < x.high) : x.IsReadAs q := by
  unfold IsReadAs
  split
  · exact ⟨hlow.le, hhigh.le⟩
  · exact ⟨hlow, hhigh⟩

theorem isReadAs_zero (h : x.significand = 0) : x.IsReadAs 0 := by
  have hunit := x.unit_pos
  rw [IsReadAs, h, if_pos rfl, low, high, h]
  simp [hunit.le]

theorem readsBack_iff (x : Double) (count : Nat) (power : Int) :
    x.readsBack count power = true ↔ x.IsReadAs (count * 10 ^ power) := by
  set k : ℚ := 10 ^ (-power).toNat * x.denominator
  have hk : 0 < k := mul_pos (by positivity) x.denominator_pos
  have hend (a : Nat) :
      ((a * (Nat.pow 10 (-power).toNat * x.unitNumerator) : Nat) : ℚ) = a * x.unit * k := by
    have hunit : x.unit * x.denominator = x.unitNumerator := by
      rw [← unitNumerator_div_denominator, div_mul_cancel₀ _ x.denominator_pos.ne']
    simp only [Nat.cast_mul, cast_natPow, Nat.cast_ofNat, k, ← hunit]
    ring
  have hvalue : ((4 * count * Nat.pow 10 power.toNat * x.denominator : Nat) : ℚ) =
      4 * (count * 10 ^ power) * k := by
    have hten : (10 : ℚ) ^ power * 10 ^ (-power).toNat = 10 ^ power.toNat := by
      rw [← pow_toNat_div_pow_toNat (by norm_num) power, div_mul_cancel₀ _ (by positivity)]
    simp only [Nat.cast_mul, cast_natPow, Nat.cast_ofNat, k, ← hten]
    ring
  unfold readsBack
  rw [show (if x.fraction = 0 && 1 < x.exponentField then 1 else 2) = x.below from rfl]
  dsimp only
  generalize 4 * count * Nat.pow 10 power.toNat * x.denominator = value at hvalue
  generalize Nat.pow 10 (-power).toNat * x.unitNumerator = tens at hend
  have hle {a b : Nat} {q r : ℚ} (ha : (a : ℚ) = q * k) (hb : (b : ℚ) = r * k) :
      (a ≤ b ↔ q ≤ r) ∧ (a < b ↔ q < r) := by
    rw [← Nat.cast_le (α := ℚ), ← Nat.cast_lt (α := ℚ), ha, hb]
    exact ⟨mul_le_mul_iff_of_pos_right hk, mul_lt_mul_iff_of_pos_right hk⟩
  have hlow := hle (hend (4 * x.significand - x.below)) hvalue
  have hhigh := hle hvalue (hend (4 * x.significand + 2))
  unfold IsReadAs low high
  split <;> simp [hlow, hhigh]

/-! ## Intervals apart -/

/-- The second double is the one with the greater magnitude. -/
def IsBefore (x y : Double) : Prop :=
  x.scale < y.scale ∨ (x.scale = y.scale ∧ x.significand < y.significand)

theorem fraction_lt (x : Double) : x.fraction < 2 ^ 52 := Nat.mod_lt _ (by decide)

theorem significand_lt (x : Double) : x.significand < 2 ^ 53 := by
  have hfraction := x.fraction_lt
  have hpow : Nat.pow 2 52 = 2 ^ 52 := rfl
  unfold significand
  split <;> omega

/-- Only a power of two has a shorter way down, and then it is the least significand. -/
theorem le_four_mul_significand_sub_below (h : 1 < x.scale) :
    2 ^ 54 - 1 ≤ 4 * x.significand - x.below ∧
      (4 * x.significand - x.below = 2 ^ 54 - 1 → x.significand = 2 ^ 52) := by
  have hfield : 1 < x.exponentField := by
    unfold scale at h
    omega
  have hpow : Nat.pow 2 52 = 2 ^ 52 := rfl
  have hne : x.exponentField ≠ 0 := by omega
  simp only [significand, below, hne, hfield, if_false, decide_true, Bool.and_true, decide_eq_true_eq,
    hpow]
  split <;> omega

theorem two_mul_unit_le (h : x.scale < y.scale) : 2 * x.unit ≤ y.unit := by
  have hstep : 2 * x.unit = 2 ^ ((x.scale : ℤ) - 1075 + 1) := by
    rw [zpow_add_one₀ two_ne_zero, unit, mul_comm]
  rw [hstep]
  exact zpow_le_zpow_right₀ one_le_two (by omega)

/-- Where intervals of different units meet, the smaller significand is the greatest and the other the
least. -/
theorem high_le_low_of_scale_lt (h : x.scale < y.scale) :
    x.high ≤ y.low ∧
      (x.high = y.low → x.significand = 2 ^ 53 - 1 ∧ y.significand = 2 ^ 52) := by
  have hx := x.significand_lt
  have hone : 1 < y.scale := by
    unfold scale at h ⊢
    omega
  obtain ⟨hy, hleast⟩ := le_four_mul_significand_sub_below hone
  have hupper : x.high ≤ ((2 ^ 55 - 2 : Nat) : ℚ) * x.unit :=
    mul_le_mul_of_nonneg_right (Nat.cast_le.2 (by omega)) x.unit_pos.le
  have hlower : ((2 ^ 54 - 1 : Nat) : ℚ) * y.unit ≤ y.low :=
    mul_le_mul_of_nonneg_right (Nat.cast_le.2 hy) y.unit_pos.le
  have hmeet : ((2 ^ 55 - 2 : Nat) : ℚ) * x.unit ≤ ((2 ^ 54 - 1 : Nat) : ℚ) * y.unit := by
    have hdouble : ((2 ^ 55 - 2 : Nat) : ℚ) = ((2 ^ 54 - 1 : Nat) : ℚ) * 2 := by norm_num
    rw [hdouble, mul_assoc]
    exact mul_le_mul_of_nonneg_left (two_mul_unit_le h) (Nat.cast_nonneg _)
  refine ⟨hupper.trans (hmeet.trans hlower), fun heq => ?_⟩
  have hxmost : x.high = ((2 ^ 55 - 2 : Nat) : ℚ) * x.unit :=
    le_antisymm hupper (heq.symm ▸ hmeet.trans hlower)
  have hyleast : y.low = ((2 ^ 54 - 1 : Nat) : ℚ) * y.unit :=
    le_antisymm (heq ▸ hupper.trans hmeet) hlower
  have hxcount := Nat.cast_injective (mul_right_cancel₀ x.unit_pos.ne' hxmost)
  have hycount := hleast (Nat.cast_injective (mul_right_cancel₀ y.unit_pos.ne' hyleast))
  exact ⟨by omega, hycount⟩

theorem high_le_low_of_significand_lt (hscale : x.scale = y.scale)
    (h : x.significand < y.significand) :
    x.high ≤ y.low ∧ (x.high = y.low → y.significand = x.significand + 1) := by
  have hunit : x.unit = y.unit := by rw [unit, unit, hscale]
  have hbelow := y.below_le
  have hle : 4 * x.significand + 2 ≤ 4 * y.significand - y.below := by omega
  rw [high, low, hunit]
  refine ⟨mul_le_mul_of_nonneg_right (Nat.cast_le.2 hle) y.unit_pos.le, fun heq => ?_⟩
  have hcount := Nat.cast_injective (mul_right_cancel₀ y.unit_pos.ne' heq)
  omega

/-- The interval of the greater double starts where that of the smaller one ends, or later; and if
they meet, one of the significands is odd. -/
theorem IsBefore.high_le_low (h : x.IsBefore y) :
    x.high ≤ y.low ∧ (x.high = y.low → x.significand % 2 ≠ y.significand % 2) := by
  rcases h with hscale | ⟨hscale, hlt⟩
  · obtain ⟨hle, hmeet⟩ := high_le_low_of_scale_lt hscale
    refine ⟨hle, fun heq => ?_⟩
    rw [(hmeet heq).1, (hmeet heq).2]
    decide
  · obtain ⟨hle, hmeet⟩ := high_le_low_of_significand_lt hscale hlt
    refine ⟨hle, fun heq => ?_⟩
    have := hmeet heq
    omega

theorem IsBefore.not_isReadAs {q : ℚ} (h : x.IsBefore y) (hx : x.IsReadAs q) :
    ¬ y.IsReadAs q := by
  intro hy
  obtain ⟨hle, hmeet⟩ := h.high_le_low
  have heq : x.high = y.low := le_antisymm hle (hy.bounds.1.trans hx.bounds.2)
  have hparity := hmeet heq
  -- the double with the odd significand does not have the end where they meet
  unfold IsReadAs at hx hy
  split at hx <;> split at hy
  · omega
  · linarith [hx.2, hy.1]
  · linarith [hx.2, hy.1]
  · omega

theorem eq_of_scale_of_significand (hsign : x.isNegative = y.isNegative) (hscale : x.scale = y.scale)
    (hsignificand : x.significand = y.significand) : x = y := by
  have hx := x.fraction_lt
  have hy := y.fraction_lt
  have hpow : Nat.pow 2 52 = 2 ^ 52 := rfl
  have hfield : x.exponentField = y.exponentField ∧ x.fraction = y.fraction := by
    unfold scale at hscale
    unfold significand at hsignificand
    split at hsignificand <;> split at hsignificand <;> omega
  have hbits : x.bits = y.bits := by
    have hxlt := x.bits.toNat_lt
    have hylt := y.bits.toNat_lt
    have hpow11 : Nat.pow 2 11 = 2 ^ 11 := rfl
    have hpow63 : Nat.pow 2 63 = 2 ^ 63 := rfl
    simp only [exponentField, fraction, isNegative, decide_eq_decide, hpow, hpow11, hpow63]
      at hfield hsign
    exact UInt64.toNat_inj.1 (by omega)
  cases x
  cases y
  exact congrArg Double.mk hbits

/-- A decimal reads back as one double of a sign. -/
theorem eq_of_isReadAs {q : ℚ} (hsign : x.isNegative = y.isNegative) (hx : x.IsReadAs q)
    (hy : y.IsReadAs q) : x = y := by
  have hcases : x.IsBefore y ∨ y.IsBefore x ∨
      (x.scale = y.scale ∧ x.significand = y.significand) := by
    unfold IsBefore
    omega
  rcases hcases with h | h | ⟨hscale, hsignificand⟩
  · exact absurd hy (h.not_isReadAs hx)
  · exact absurd hx (h.not_isReadAs hy)
  · exact eq_of_scale_of_significand hsign hscale hsignificand

end Double

/-! ## The value of digits -/

namespace Digits

/-- The decimal that the digits stand for. -/
def value (d : Digits) : ℚ :=
  (Nat.ofDigitChars 10 d.digits 0 : ℚ) * 10 ^ (d.exponent - d.digits.length + 1)

theorem exists_append_zeros (digits : List Char) :
    ∃ zeros, digits =
      (digits.reverse.dropWhile (· == '0')).reverse ++ List.replicate zeros '0' := by
  have hzeros : digits.reverse.takeWhile (· == '0') =
      List.replicate (digits.reverse.takeWhile (· == '0')).length '0' :=
    List.eq_replicate_iff.2 ⟨rfl, fun c hc => by simpa using List.mem_takeWhile_imp hc⟩
  refine ⟨(digits.reverse.takeWhile (· == '0')).length, ?_⟩
  rw [← List.reverse_replicate, ← hzeros, ← List.reverse_append, List.takeWhile_append_dropWhile,
    List.reverse_reverse]

theorem value_ofCount (count : Nat) (power : Int) :
    (ofCount count power).value = count * 10 ^ power := by
  obtain ⟨zeros, hall⟩ := exists_append_zeros (decimalDigits count)
  have hcount : Nat.ofDigitChars 10 (decimalDigits count) 0 = count :=
    Nat.ofDigitChars_toDigits (by decide) (by decide)
  unfold value ofCount
  dsimp only
  generalize ((decimalDigits count).reverse.dropWhile (· == '0')).reverse = kept at hall
  rw [hall, Nat.ofDigitChars_append, Nat.ofDigitChars_replicate_zero] at hcount
  have hlength : (decimalDigits count).length = kept.length + zeros := by
    rw [hall, List.length_append, List.length_replicate]
  cases kept with
  | nil =>
    have hzero : count = 0 := by simpa using hcount.symm
    simp [hzero, Nat.ofDigitChars_cons]
  | cons c kept =>
    rw [List.isEmpty_cons, if_neg nofun, hlength, ← hcount]
    have hpower : power + ((c :: kept).length + zeros : Nat) - 1 - (c :: kept).length + 1 =
        power + zeros := by
      omega
    rw [hpower, zpow_add₀ (by norm_num), zpow_natCast]
    push_cast
    ring

theorem digits_ofCount_ne_nil (count : Nat) (power : Int) : (ofCount count power).digits ≠ [] := by
  unfold ofCount
  dsimp only
  split
  · exact List.cons_ne_nil _ _
  · rename_i hkept
    simpa using hkept

theorem isDigit_of_mem_ofCount {count : Nat} {power : Int} {c : Char}
    (hc : c ∈ (ofCount count power).digits) : c.isDigit = true := by
  unfold ofCount at hc
  dsimp only at hc
  split at hc
  · obtain rfl := List.mem_singleton.1 hc
    rfl
  · refine Nat.isDigit_of_mem_toDigits (b := 10) (n := count) (by decide) (by decide) ?_
    exact List.mem_reverse.1 (List.dropWhile_suffix _ |>.mem (List.mem_reverse.1 hc))

/-- The digits stand on both sides of the point, with zeros before and after them. -/
theorem positional_eq {d : Digits} (hne : d.digits ≠ []) :
    ∃ (whole fraction : List Char) (lead zeros : Nat),
      d.positional = whole ++ '.' :: fraction ∧ whole ≠ [] ∧ fraction ≠ [] ∧
      whole ++ fraction = List.replicate lead '0' ++ (d.digits ++ List.replicate zeros '0') ∧
      (zeros : Int) = d.exponent - d.digits.length + 1 + fraction.length := by
  have hlength := List.length_pos_iff.2 hne
  unfold Digits.positional
  split
  · refine ⟨['0'], _, (-d.exponent - 1).toNat + 1, 0, rfl, by simp, by simp [hne],
      by simp [List.replicate_succ], ?_⟩
    rw [List.length_append, List.length_replicate]
    omega
  · dsimp only
    generalize hbefore : d.exponent.toNat + 1 = before
    have hwhole : d.digits.take before ++ List.replicate (before - d.digits.length) '0' ≠ [] := by
      simp [hne, ← hbefore]
    by_cases hrest : d.digits.length ≤ before
    · refine ⟨_, ['0'], 0, before - d.digits.length + 1, ?_, hwhole, List.cons_ne_nil _ _, ?_, ?_⟩
      · rw [List.drop_eq_nil_of_le hrest, List.isEmpty_nil, if_pos rfl]
      · simp [List.take_of_length_le hrest, List.replicate_succ']
      · rw [List.length_singleton]
        omega
    · have hdrop : d.digits.drop before ≠ [] := by
        simpa using hrest
      have hzeros : before - d.digits.length = 0 := by omega
      refine ⟨_, d.digits.drop before, 0, 0, ?_, hwhole, hdrop, ?_, ?_⟩
      · rw [if_neg (by simpa using hrest)]
      · simp [hzeros]
      · rw [List.length_drop]
        omega

end Digits

/-! ## The search -/

namespace Double

variable {x : Double}

theorem pow_decimalExponent_le {num den : Nat} (hnum : 0 < num) (hden : 0 < den) :
    (10 : ℚ) ^ decimalExponent num den ≤ num / den := by
  have hlength {n k : Nat} (hk : 0 < k) : (decimalDigits n).length ≤ k ↔ n < 10 ^ k :=
    Nat.length_toDigits_le_iff (by decide) hk
  have hpos (n : Nat) : 0 < (decimalDigits n).length := Nat.length_toDigits_pos
  have hdenq : (0 : ℚ) < den := by exact_mod_cast hden
  unfold decimalExponent
  split
  · rename_i hle
    have hone : 1 ≤ num / den := (Nat.one_le_div_iff hden).2 hle
    obtain ⟨k, hk⟩ : ∃ k, (decimalDigits (num / den)).length = k + 1 :=
      ⟨(decimalDigits (num / den)).length - 1, by have := hpos (num / den); omega⟩
    have hfloor : 10 ^ k ≤ num / den := by
      cases k with
      | zero => exact hone
      | succ k =>
        by_contra hlt
        have := (hlength k.succ_pos).2 (Nat.not_le.1 hlt)
        omega
    rw [hk, Nat.cast_add, Nat.cast_one, add_sub_cancel_right, zpow_natCast, le_div_iff₀ hdenq]
    exact_mod_cast (Nat.le_div_iff_mul_le hden).1 hfloor
  · have hlt := (hlength (hpos ((den - 1) / num))).1 (Nat.le_refl _)
    rw [Nat.div_lt_iff_lt_mul hnum] at hlt
    rw [zpow_neg, zpow_natCast, inv_eq_one_div, div_le_div_iff₀ (by positivity) hdenq, one_mul,
      mul_comm]
    have hle : den ≤ 10 ^ (decimalDigits ((den - 1) / num)).length * num := by omega
    exact_mod_cast hle

theorem four_mul_significand_lt (x : Double) :
    4 * x.significand < (x.below + 2) * 10 ^ 16 := by
  have hlt := x.significand_lt
  have hpow : Nat.pow 2 52 = 2 ^ 52 := rfl
  unfold below
  split
  · rename_i h
    simp only [Bool.and_eq_true, decide_eq_true_eq] at h
    have hne : x.exponentField ≠ 0 := by omega
    rw [significand, if_neg hne, h.1, hpow]
    decide
  · omega

/-- The largest decimal of a power of ten that is not above the double. -/
def floorCount (x : Double) (power : Int) : Nat :=
  x.numerator * Nat.pow 10 (-power).toNat / (x.denominator * Nat.pow 10 power.toNat)

theorem floorCount_bounds (x : Double) (power : Int) :
    (x.floorCount power : ℚ) * 10 ^ power ≤ x.magnitude ∧
      x.magnitude < ((x.floorCount power + 1 : Nat) : ℚ) * 10 ^ power := by
  have hpow : (0 : ℚ) < 10 ^ power := zpow_pos (by norm_num) _
  have hden : 0 < x.denominator * Nat.pow 10 power.toNat :=
    Nat.mul_pos (Nat.pow_pos (by decide)) (Nat.pow_pos (by decide))
  have hratio : x.magnitude / 10 ^ power =
      ((x.numerator * Nat.pow 10 (-power).toNat : Nat) : ℚ) /
        ((x.denominator * Nat.pow 10 power.toNat : Nat) : ℚ) := by
    have hneg := pow_toNat_div_pow_toNat (b := (10 : ℚ)) (by norm_num) (-power)
    rw [neg_neg] at hneg
    rw [← numerator_div_denominator, div_eq_mul_inv _ ((10 : ℚ) ^ power), ← zpow_neg, ← hneg]
    simp only [Nat.cast_mul, cast_natPow, Nat.cast_ofNat, div_mul_div_comm]
  rw [← le_div_iff₀ hpow, ← div_lt_iff₀ hpow, hratio, le_div_iff₀ (Nat.cast_pos.2 hden),
    div_lt_iff₀ (Nat.cast_pos.2 hden)]
  exact ⟨by exact_mod_cast Nat.div_mul_le_self _ _,
    by exact_mod_cast Nat.lt_mul_of_div_lt (Nat.lt_succ_self _) hden⟩

/-- The candidates are the decimals around the double. -/
theorem nearest?_eq (x : Double) (tie : Tie) (size : Nat) :
    ∃ (power : Int) (upward : Bool),
      power = decimalExponent x.numerator x.denominator - size + 1 ∧
      x.nearest? tie size =
        match x.readsBack (x.floorCount power) power,
          x.readsBack (x.floorCount power + 1) power with
        | true, true =>
          some (.ofCount (if upward then x.floorCount power + 1 else x.floorCount power) power)
        | true, false => some (.ofCount (x.floorCount power) power)
        | false, true => some (.ofCount (x.floorCount power + 1) power)
        | false, false => none :=
  ⟨_, _, rfl, rfl⟩

theorem nearest?_eq_some {tie : Tie} {size : Nat} {d : Digits} (h : x.nearest? tie size = some d) :
    ∃ count power, d = .ofCount count power ∧ x.readsBack count power = true := by
  obtain ⟨power, upward, -, hnearest⟩ := x.nearest?_eq tie size
  rw [hnearest] at h
  split at h
  · rename_i hcount hnext
    refine ⟨_, _, (Option.some.inj h).symm, ?_⟩
    split
    · exact hnext
    · exact hcount
  · rename_i hcount _
    exact ⟨_, _, (Option.some.inj h).symm, hcount⟩
  · rename_i _ hnext
    exact ⟨_, _, (Option.some.inj h).symm, hnext⟩
  · cases h

/-- Decimals of seventeen digits are closer together than the ends of the interval. -/
theorem four_mul_pow_lt {power : Int} (h : (10 : ℚ) ^ (power + (16 : Nat)) ≤ x.magnitude) :
    4 * (10 : ℚ) ^ power < (x.below + 2) * x.unit := by
  rw [zpow_add₀ (by norm_num), zpow_natCast] at h
  refine lt_of_mul_lt_mul_right ?_ (show (0 : ℚ) ≤ 10 ^ 16 by positivity)
  calc 4 * (10 : ℚ) ^ power * 10 ^ 16
      = 4 * (10 ^ power * 10 ^ 16) := mul_assoc ..
    _ ≤ 4 * x.magnitude := mul_le_mul_of_nonneg_left h (by norm_num)
    _ = (4 * x.significand : Nat) * x.unit := by rw [magnitude]; push_cast; ring
    _ < ((x.below + 2) * 10 ^ 16 : Nat) * x.unit :=
      mul_lt_mul_of_pos_right (Nat.cast_lt.2 x.four_mul_significand_lt) x.unit_pos
    _ = (x.below + 2) * x.unit * 10 ^ 16 := by push_cast; ring

/-- If the decimal below the double is under its interval, then the next one is in it. -/
theorem readsBack_floorCount {power : Int} (hpos : 0 < x.significand)
    (h : 4 * (10 : ℚ) ^ power < (x.below + 2) * x.unit) :
    x.readsBack (x.floorCount power) power = true ∨
      x.readsBack (x.floorCount power + 1) power = true := by
  have hunit := x.unit_pos
  have hbelow : (0 : ℚ) ≤ x.below * x.unit := mul_nonneg (Nat.cast_nonneg _) hunit.le
  have hlow := low_eq hpos
  have hhigh := x.high_eq
  obtain ⟨hfloor, hceil⟩ := x.floorCount_bounds power
  rw [readsBack_iff, readsBack_iff]
  push_cast at hceil ⊢
  by_cases hin : x.low < 4 * (x.floorCount power * 10 ^ power)
  · exact .inl (isReadAs_of_lt hin (by linarith))
  · exact .inr (isReadAs_of_lt (by linarith) (by linarith))

theorem nearest?_seventeen (hpos : 0 < x.significand) (tie : Tie) :
    x.nearest? tie 17 ≠ none := by
  obtain ⟨power, upward, hpower, hnearest⟩ := x.nearest?_eq tie 17
  have hnum : 0 < x.numerator := Nat.mul_pos hpos (Nat.pow_pos (by decide))
  have hden : 0 < x.denominator := Nat.pow_pos (by decide)
  have hexponent := pow_decimalExponent_le hnum hden
  have hsplit : decimalExponent x.numerator x.denominator = power + (16 : Nat) := by
    rw [hpower]
    omega
  rw [numerator_div_denominator, hsplit] at hexponent
  rw [hnearest]
  rcases readsBack_floorCount hpos (four_mul_pow_lt hexponent) with h | h
  · rw [h]
    cases x.readsBack (x.floorCount power + 1) power <;> exact Option.some_ne_none _
  · rw [h]
    cases x.readsBack (x.floorCount power) power <;> exact Option.some_ne_none _

/-- The fewest digits of a double are a decimal that reads back. -/
theorem shortest_eq (hpos : 0 < x.significand) (tie : Tie) :
    ∃ count power, x.shortest tie = .ofCount count power ∧
      x.readsBack count power = true := by
  unfold shortest
  cases hfound : (List.range 17).findSome? fun n => x.nearest? tie (n + 1) with
  | none =>
    exact absurd (List.findSome?_eq_none_iff.1 hfound 16 (by simp)) (nearest?_seventeen hpos tie)
  | some d =>
    obtain ⟨n, -, hn⟩ := List.exists_of_findSome?_eq_some hfound
    exact nearest?_eq_some hn

theorem shortest_isReadAs (hpos : 0 < x.significand) (tie : Tie) :
    x.IsReadAs (x.shortest tie).value := by
  obtain ⟨count, power, hd, hreads⟩ := shortest_eq hpos tie
  rw [hd, Digits.value_ofCount]
  exact (x.readsBack_iff count power).1 hreads

theorem isFinite_of_not_isNaN (hnan : ¬x.isNaN = true) (hinfinite : ¬x.isInfinite = true) :
    x.isFinite = true := by
  cases hfraction : x.fraction == 0 <;> simp_all [isNaN, isInfinite, isFinite]

/-- The plain notation has a point between its digits. -/
theorem exists_plain (hx : x.isFinite = true) :
    ∃ whole fraction, x.plain.toList = x.sign ++ (whole ++ '.' :: fraction) ∧ whole ≠ [] ∧
      ∀ c ∈ whole ++ fraction, c.isDigit = true := by
  have hdigit (n : Nat) : ∀ c ∈ decimalDigits n, c.isDigit = true := fun _ =>
    Nat.isDigit_of_mem_toDigits (by decide) (by decide)
  unfold plain
  rw [String.toList_ofList]
  split
  · refine ⟨_, ['0'], rfl, List.ne_nil_of_length_pos Nat.length_toDigits_pos, ?_⟩
    rw [List.forall_mem_append]
    exact ⟨hdigit _, List.forall_mem_singleton.2 rfl⟩
  · rename_i hintegral
    have hpos : 0 < x.significand := by
      refine Nat.pos_of_ne_zero fun hzero => hintegral ?_
      simp [isIntegral, hx, numerator, hzero]
    obtain ⟨count, power, hd, -⟩ := shortest_eq hpos .up
    obtain ⟨whole, fraction, lead, zeros, htext, hwhole, -, hdigits, -⟩ :=
      Digits.positional_eq (d := x.shortest .up) (hd ▸ Digits.digits_ofCount_ne_nil count power)
    refine ⟨whole, fraction, by rw [htext], hwhole, fun c hc => ?_⟩
    rw [hdigits, List.mem_append, List.mem_append] at hc
    rcases hc with hc | hc | hc
    · exact List.eq_of_mem_replicate hc ▸ rfl
    · exact Digits.isDigit_of_mem_ofCount (hd ▸ hc)
    · exact List.eq_of_mem_replicate hc ▸ rfl

end Double

end ContractTests
