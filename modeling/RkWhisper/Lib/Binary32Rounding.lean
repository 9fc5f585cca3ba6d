import RkWhisper.Lib.Binary32

/-!
# Rounding to binary32

`ofRatio` rounds to the nearest number, ties to even: the magnitude it returns depends on the quotient
alone, grows with it, and is exact for every number with at most 24 significant bits. Multiplication
and the cast to a 16-bit integer follow the same way as the quotient does.
-/

namespace F32

/-! ### The nearest integer -/

/-- `k` is a nearest integer to `q`, and an even one when there are two. -/
structure Nearest (q : ℚ) (k : ℕ) : Prop where
  dist : |q - k| ≤ 1 / 2
  tie : |q - k| = 1 / 2 → k % 2 = 0

theorem nearest_of_lt {q : ℚ} {k : ℕ} (h : |q - k| < 1 / 2) : Nearest q k :=
  ⟨h.le, fun htie => absurd htie h.ne⟩

theorem nearest_natCast (k : ℕ) : Nearest k k := by
  apply nearest_of_lt
  rw [sub_self, abs_zero]
  norm_num

theorem Nearest.le_of_le {q q' : ℚ} {k k' : ℕ} (h : Nearest q k) (h' : Nearest q' k')
    (hle : q ≤ q') : k ≤ k' := by
  by_contra hlt
  have hstep : (k' : ℚ) + 1 ≤ k := by exact_mod_cast not_le.mp hlt
  obtain ⟨hlow, -⟩ := abs_le.mp h.dist
  obtain ⟨-, hhigh⟩ := abs_le.mp h'.dist
  -- Both lie in the middle of the same two integers, which cannot both be even.
  have hmiddle : q = k - 1 / 2 := by linarith
  have hmiddle' : q' = k' + 1 / 2 := by linarith
  have heven := h.tie (by rw [hmiddle, abs_of_nonpos] <;> linarith)
  have heven' := h'.tie (by rw [hmiddle', abs_of_nonneg] <;> linarith)
  have hnext : (k : ℚ) = (k' + 1 : ℕ) := by
    push_cast
    linarith
  have hsucc : k = k' + 1 := by exact_mod_cast hnext
  omega

theorem Nearest.unique {q : ℚ} {k k' : ℕ} (h : Nearest q k) (h' : Nearest q k') : k = k' :=
  le_antisymm (h.le_of_le h' le_rfl) (h'.le_of_le h le_rfl)

theorem nearest_roundHalfEven (num : ℕ) {den : ℕ} (hden : 0 < den) :
    Nearest (num / den) (roundHalfEven num den) := by
  have hpos : (0 : ℚ) < den := by exact_mod_cast hden
  have hsplit : (num : ℚ) = den * (num / den : ℕ) + (num % den : ℕ) := by
    exact_mod_cast (Nat.div_add_mod num den).symm
  have hlt : ((num % den : ℕ) : ℚ) < den := by exact_mod_cast Nat.mod_lt num hden
  have hquotient : (num : ℚ) / den = (num / den : ℕ) + (num % den : ℕ) / den := by
    rw [hsplit]
    field_simp
  have hnonneg : (0 : ℚ) ≤ (num % den : ℕ) / den := by positivity
  rw [roundHalfEven]
  split
  · rename_i hup
    have hhalf : (1 : ℚ) / 2 ≤ (num % den : ℕ) / den := by
      rw [div_le_div_iff₀ two_pos hpos]
      have hle : den ≤ 2 * (num % den) := by omega
      have hcast : (den : ℚ) ≤ 2 * (num % den : ℕ) := by exact_mod_cast hle
      linarith
    have hone : ((num % den : ℕ) : ℚ) / den < 1 := (div_lt_one hpos).mpr hlt
    have hdist : |(num : ℚ) / den - (num / den + 1 : ℕ)| = 1 - (num % den : ℕ) / den := by
      rw [hquotient, abs_of_nonpos] <;> push_cast <;> linarith
    refine ⟨by rw [hdist]; linarith, fun htie => ?_⟩
    rw [hdist] at htie
    have hfraction : ((num % den : ℕ) : ℚ) / den = 1 / 2 := by linarith
    rw [div_eq_div_iff hpos.ne' two_ne_zero] at hfraction
    have htwice : 2 * (num % den) = den := by
      have hcast : (2 * (num % den : ℕ) : ℚ) = den := by linarith
      exact_mod_cast hcast
    obtain hmore | ⟨-, hodd⟩ := hup
    · omega
    · omega
  · rename_i hdown
    rw [not_or, not_lt, not_and] at hdown
    have hhalf : ((num % den : ℕ) : ℚ) / den ≤ 1 / 2 := by
      rw [div_le_div_iff₀ hpos two_pos]
      have hcast : (2 * (num % den : ℕ) : ℚ) ≤ den := by exact_mod_cast hdown.1
      linarith
    have hdist : |(num : ℚ) / den - (num / den : ℕ)| = (num % den : ℕ) / den := by
      rw [hquotient, abs_of_nonneg] <;> linarith
    refine ⟨by rw [hdist]; exact hhalf, fun htie => ?_⟩
    rw [hdist, div_eq_div_iff hpos.ne' two_ne_zero] at htie
    have htwice : 2 * (num % den) = den := by
      have hcast : (2 * (num % den : ℕ) : ℚ) = den := by linarith
      exact_mod_cast hcast
    have hodd := hdown.2 htwice
    omega

/-! ### The exponent -/

theorem zpow_log2_le {n : ℕ} (hn : n ≠ 0) : (2 : ℚ) ^ (Nat.log2 n : ℤ) ≤ n := by
  rw [zpow_natCast]
  exact_mod_cast Nat.log2_self_le hn

theorem lt_zpow_log2 (n : ℕ) : (n : ℚ) < 2 ^ ((Nat.log2 n : ℤ) + 1) := by
  have hlt : (n : ℚ) < 2 ^ (Nat.log2 n + 1) := by exact_mod_cast Nat.lt_log2_self
  exact_mod_cast hlt

theorem binaryExponent_spec {num den : ℕ} (hnum : num ≠ 0) (hden : den ≠ 0) :
    (2 : ℚ) ^ binaryExponent num den ≤ num / den ∧
      (num : ℚ) / den < 2 ^ (binaryExponent num den + 1) := by
  have hpos : (0 : ℚ) < den := by exact_mod_cast Nat.pos_of_ne_zero hden
  set estimate : ℤ := (Nat.log2 num : ℤ) - Nat.log2 den with hestimate
  have hupper : (num : ℚ) / den < 2 ^ (estimate + 1) := by
    rw [div_lt_iff₀ hpos]
    calc (num : ℚ) < 2 ^ ((Nat.log2 num : ℤ) + 1) := lt_zpow_log2 num
      _ = 2 ^ (estimate + 1) * 2 ^ (Nat.log2 den : ℤ) := by
        rw [← zpow_add₀ two_ne_zero, hestimate]
        congr 1
        ring
      _ ≤ 2 ^ (estimate + 1) * den :=
        mul_le_mul_of_nonneg_left (zpow_log2_le hden) (by positivity)
  have hlower : (2 : ℚ) ^ (estimate - 1) ≤ num / den := by
    rw [le_div_iff₀ hpos]
    calc (2 : ℚ) ^ (estimate - 1) * den
        ≤ 2 ^ (estimate - 1) * 2 ^ ((Nat.log2 den : ℤ) + 1) :=
          mul_le_mul_of_nonneg_left (lt_zpow_log2 den).le (by positivity)
      _ = 2 ^ (Nat.log2 num : ℤ) := by
        rw [← zpow_add₀ two_ne_zero, hestimate]
        congr 1
        ring
      _ ≤ num := zpow_log2_le hnum
  have hfits : (if 0 ≤ estimate then decide (den * 2 ^ estimate.toNat ≤ num)
      else decide (den ≤ num * 2 ^ (-estimate).toNat)) = true ↔
        (2 : ℚ) ^ estimate ≤ num / den := by
    rw [le_div_iff₀ hpos]
    split
    · rename_i hsign
      lift estimate to ℕ using hsign with exponent
      rw [decide_eq_true_eq, Int.toNat_natCast, zpow_natCast, mul_comm]
      exact_mod_cast Iff.rfl
    · rename_i hsign
      obtain ⟨exponent, hexponent⟩ : ∃ exponent : ℕ, estimate = -exponent :=
        ⟨(-estimate).toNat, by omega⟩
      rw [decide_eq_true_eq, hexponent, neg_neg, Int.toNat_natCast, zpow_neg, zpow_natCast,
        inv_mul_le_iff₀ (by positivity), mul_comm ((2 : ℚ) ^ exponent)]
      exact_mod_cast Iff.rfl
  have hexponent : binaryExponent num den =
      if (if 0 ≤ estimate then decide (den * 2 ^ estimate.toNat ≤ num)
        else decide (den ≤ num * 2 ^ (-estimate).toNat)) = true then estimate else estimate - 1 := rfl
  by_cases h : (2 : ℚ) ^ estimate ≤ num / den
  · rw [hexponent, if_pos (hfits.mpr h)]
    exact ⟨h, hupper⟩
  · rw [hexponent, if_neg (mt hfits.mp h), sub_add_cancel]
    exact ⟨hlower, not_le.mp h⟩

/-! ### The magnitude -/

/-- `q` is rounded to the number with this magnitude: `exponent` is that of `q`, or the least one. -/
structure Rounds (q : ℚ) (exponent : ℤ) (significand magnitude : ℕ) : Prop where
  least : -126 ≤ exponent
  lower : -126 < exponent → (2 : ℚ) ^ exponent ≤ q
  upper : q < 2 ^ (exponent + 1)
  nearest : Nearest (q * 2 ^ (23 - exponent)) significand
  magnitude_eq : magnitude =
    min ((exponent + 126).toNat * 2 ^ 23 + significand) infinityMagnitude

section Rounds

variable {q q' : ℚ} {exponent exponent' : ℤ} {significand significand' magnitude magnitude' : ℕ}

theorem two_zpow_mul (a b : ℤ) : (2 : ℚ) ^ a * 2 ^ b = 2 ^ (a + b) :=
  (zpow_add₀ two_ne_zero a b).symm

/-- The significand has 24 bits; rounding up may make it the next power of two. -/
theorem Rounds.significand_le (h : Rounds q exponent significand magnitude) :
    significand ≤ 2 ^ 24 := by
  refine h.nearest.le_of_le (nearest_natCast (2 ^ 24)) ?_
  calc q * 2 ^ (23 - exponent) ≤ 2 ^ (exponent + 1) * 2 ^ (23 - exponent) :=
        mul_le_mul_of_nonneg_right h.upper.le (by positivity)
    _ = ((2 ^ 24 : ℕ) : ℚ) := by
        have hsum : exponent + 1 + (23 - exponent) = 24 := by ring
        rw [two_zpow_mul, hsum]
        norm_num

theorem Rounds.le_significand (h : Rounds q exponent significand magnitude)
    (hnormal : (2 : ℚ) ^ exponent ≤ q) : 2 ^ 23 ≤ significand := by
  refine (nearest_natCast (2 ^ 23)).le_of_le h.nearest ?_
  calc ((2 ^ 23 : ℕ) : ℚ) = 2 ^ exponent * 2 ^ (23 - exponent) := by
        rw [two_zpow_mul]
        norm_num
    _ ≤ q * 2 ^ (23 - exponent) := mul_le_mul_of_nonneg_right hnormal (by positivity)

theorem two_zpow_lt {a b : ℤ} (h : (2 : ℚ) ^ a < 2 ^ b) : a < b :=
  (zpow_lt_zpow_iff_right₀ one_lt_two).mp h

/-- **Rounding is monotone.** -/
theorem Rounds.le_of_le (h : Rounds q exponent significand magnitude)
    (h' : Rounds q' exponent' significand' magnitude') (hle : q ≤ q') : magnitude ≤ magnitude' := by
  have hmagnitude : (exponent + 126).toNat * 2 ^ 23 + significand ≤
      (exponent' + 126).toNat * 2 ^ 23 + significand' := by
    have hleast := h.least
    have hleast' := h'.least
    obtain hlt | heq | hgt := lt_trichotomy exponent exponent'
    · have hnormal := h'.le_significand (h'.lower (hleast.trans_lt hlt))
      have hcarry := h.significand_le
      omega
    · subst heq
      have hnearest := h.nearest.le_of_le h'.nearest
        (mul_le_mul_of_nonneg_right hle (by positivity))
      omega
    · have hpast : exponent < exponent' + 1 :=
        two_zpow_lt ((h.lower (hleast'.trans_lt hgt)).trans_lt (hle.trans_lt h'.upper))
      omega
  rw [h.magnitude_eq, h'.magnitude_eq]
  exact min_le_min_right _ hmagnitude

/-- The quotient alone decides. -/
theorem Rounds.unique (h : Rounds q exponent significand magnitude)
    (h' : Rounds q exponent' significand' magnitude') : magnitude = magnitude' :=
  le_antisymm (h.le_of_le h' le_rfl) (h'.le_of_le h le_rfl)

theorem Rounds.le_infinity (h : Rounds q exponent significand magnitude) :
    magnitude ≤ infinityMagnitude :=
  h.magnitude_eq.trans_le (min_le_right _ _)

/-- A quotient in the normal range. -/
theorem rounds_of_normal (hleast : -126 ≤ exponent) (hlower : (2 : ℚ) ^ exponent ≤ q)
    (hupper : q < 2 ^ (exponent + 1)) (hnearest : Nearest (q * 2 ^ (23 - exponent)) significand)
    (hfinite : exponent ≤ 126) :
    Rounds q exponent significand ((exponent + 126).toNat * 2 ^ 23 + significand) := by
  have h : Rounds q exponent significand _ := ⟨hleast, fun _ => hlower, hupper, hnearest, rfl⟩
  have hcarry := h.significand_le
  refine ⟨hleast, fun _ => hlower, hupper, hnearest, (min_eq_left ?_).symm⟩
  rw [infinityMagnitude]
  omega

theorem ofRatio_rounds (negative : Bool) {num den : ℕ} (hnum : num ≠ 0) (hden : 0 < den) :
    ∃ exponent significand magnitude, Rounds (num / den) exponent significand magnitude ∧
      ofRatio negative num den = ofMagnitude negative magnitude := by
  obtain ⟨hlower, hupper⟩ := binaryExponent_spec hnum hden.ne'
  have hpos : (0 : ℚ) < den := by exact_mod_cast hden
  set exponent := max (binaryExponent num den) (-126) with hexponent
  have hsignificand : Nearest (num / den * 2 ^ (23 - exponent))
      (if 0 ≤ 23 - exponent then roundHalfEven (num * 2 ^ (23 - exponent).toNat) den
        else roundHalfEven num (den * 2 ^ (-(23 - exponent)).toNat)) := by
    split
    · rename_i hscale
      obtain ⟨scale, hscale⟩ := Int.eq_ofNat_of_zero_le hscale
      have hnearest := nearest_roundHalfEven (num * 2 ^ scale) hden
      rw [hscale, Int.toNat_natCast, zpow_natCast, div_mul_eq_mul_div]
      exact_mod_cast hnearest
    · obtain ⟨scale, hscale⟩ : ∃ scale : ℕ, 23 - exponent = -scale :=
        ⟨(-(23 - exponent)).toNat, by omega⟩
      have hnearest := nearest_roundHalfEven num (Nat.mul_pos hden (Nat.two_pow_pos scale))
      rw [hscale, neg_neg, Int.toNat_natCast, zpow_neg, zpow_natCast, ← div_eq_mul_inv, div_div]
      exact_mod_cast hnearest
  refine ⟨exponent, _, _, ⟨le_max_right _ _, fun hnormal => ?_, ?_, hsignificand, rfl⟩, ?_⟩
  · have hsame : exponent = binaryExponent num den := by omega
    rw [hsame]
    exact hlower
  · refine hupper.trans_le (zpow_le_zpow_right₀ one_le_two ?_)
    omega
  · rw [ofRatio, if_neg hnum]

end Rounds

/-! ### Magnitudes as multiples of the least one -/

/-- The magnitude of a finite number, in units of `2 ^ (-149)`. -/
def units (x : F32) : ℕ := x.significand.1 * 2 ^ x.significand.2

theorem divFinite_eq (x y : F32) :
    x.divFinite y = ofRatio (x.signBit != y.signBit) x.units y.units := rfl

theorem toNat_ofMagnitude (negative : Bool) {magnitude : ℕ} (h : magnitude < 2 ^ 31) :
    (ofMagnitude negative magnitude).bits.toNat = (if negative then 2 ^ 31 else 0) + magnitude := by
  rw [ofMagnitude, Nat.mod_eq_of_lt h, UInt32.toNat_ofNat', Nat.mod_eq_of_lt]
  split <;> omega

@[simp]
theorem magnitude_ofMagnitude (negative : Bool) {magnitude : ℕ} (h : magnitude < 2 ^ 31) :
    (ofMagnitude negative magnitude).magnitude = magnitude := by
  rw [F32.magnitude, toNat_ofMagnitude negative h]
  split <;> omega

@[simp]
theorem signBit_ofMagnitude (negative : Bool) {magnitude : ℕ} (h : magnitude < 2 ^ 31) :
    (ofMagnitude negative magnitude).signBit = negative := by
  rw [signBit, toNat_ofMagnitude negative h]
  cases negative with
  | false => exact decide_eq_false (by simpa using h)
  | true => exact decide_eq_true (by simp)

/-- A significand of 24 bits or the next power of two, at its exponent. -/
theorem units_of_magnitude {x : F32} {exponent significand : ℕ}
    (h : x.magnitude = exponent * 2 ^ 23 + significand) (hlow : 2 ^ 23 ≤ significand)
    (hhigh : significand ≤ 2 ^ 24) : x.units = significand * 2 ^ exponent := by
  obtain hlt | rfl := hhigh.lt_or_eq
  · have hfield : x.magnitude / 2 ^ 23 = exponent + 1 := by omega
    have hfraction : x.magnitude % 2 ^ 23 + 2 ^ 23 = significand := by omega
    have hpositive : exponent + 1 ≠ 0 := Nat.succ_ne_zero _
    rw [units, F32.significand]
    simp only [hfield, hfraction, if_neg hpositive, Nat.add_sub_cancel]
  · have hfield : x.magnitude / 2 ^ 23 = exponent + 2 := by omega
    have hfraction : x.magnitude % 2 ^ 23 + 2 ^ 23 = 2 ^ 23 := by omega
    have hpositive : exponent + 2 ≠ 0 := Nat.succ_ne_zero _
    have hpower : 2 ^ (exponent + 2 - 1) = 2 * 2 ^ exponent := Nat.pow_succ'
    rw [units, F32.significand]
    simp only [hfield, hfraction, if_neg hpositive, hpower]
    ring

theorem units_le_of_magnitude_le {x y : F32} (h : x.magnitude ≤ y.magnitude) :
    x.units ≤ y.units := by
  have hfield : x.magnitude / 2 ^ 23 ≤ y.magnitude / 2 ^ 23 := Nat.div_le_div_right h
  have hfraction := Nat.mod_lt x.magnitude (Nat.two_pow_pos 23)
  rw [units, units, significand, significand]
  obtain heq | hlt := hfield.eq_or_lt
  · have hle : x.magnitude % 2 ^ 23 ≤ y.magnitude % 2 ^ 23 := by omega
    rw [heq]
    split
    · exact Nat.mul_le_mul_right _ hle
    · exact Nat.mul_le_mul_right _ (Nat.add_le_add_right hle _)
  · obtain ⟨more, hmore⟩ := Nat.exists_eq_add_of_lt hlt
    have hpositive : y.magnitude / 2 ^ 23 ≠ 0 := by omega
    have hpower : 2 ^ (y.magnitude / 2 ^ 23 - 1) = 2 ^ (x.magnitude / 2 ^ 23) * 2 ^ more := by
      rw [← Nat.pow_add]
      congr 1
      omega
    have hbase : 2 ^ 23 * 2 ^ (x.magnitude / 2 ^ 23) ≤
        (y.magnitude % 2 ^ 23 + 2 ^ 23) * 2 ^ (y.magnitude / 2 ^ 23 - 1) := by
      rw [hpower, ← mul_assoc]
      calc 2 ^ 23 * 2 ^ (x.magnitude / 2 ^ 23)
          ≤ (y.magnitude % 2 ^ 23 + 2 ^ 23) * 2 ^ (x.magnitude / 2 ^ 23) :=
            Nat.mul_le_mul_right _ (Nat.le_add_left _ _)
        _ ≤ _ := Nat.le_mul_of_pos_right _ (Nat.two_pow_pos more)
    rw [if_neg hpositive]
    split
    · rename_i hzero
      rw [hzero] at hbase
      exact (Nat.mul_le_mul_right _ hfraction.le).trans hbase
    · rename_i hfieldx
      refine le_trans ?_ hbase
      have hstep : 2 ^ (x.magnitude / 2 ^ 23) = 2 * 2 ^ (x.magnitude / 2 ^ 23 - 1) := by
        rw [← Nat.pow_succ']
        congr 1
        omega
      rw [hstep, ← mul_assoc]
      exact Nat.mul_le_mul_right _ (by omega)

/-! ### Integers of 24 bits -/

/-- The magnitude of `n`. -/
def exactMagnitude (n : ℕ) : ℕ := (Nat.log2 n + 126) * 2 ^ 23 + n * 2 ^ (23 - Nat.log2 n)

section Exact

variable {n : ℕ}

theorem log2_le (hn : n ≠ 0) (hlt : n < 2 ^ 24) : Nat.log2 n ≤ 23 :=
  Nat.lt_succ_iff.mp ((Nat.log2_lt hn).mpr hlt)

theorem natCast_significand (hn : n ≠ 0) (hlt : n < 2 ^ 24) :
    (n : ℚ) * 2 ^ (23 - (Nat.log2 n : ℤ)) = ((n * 2 ^ (23 - Nat.log2 n) : ℕ) : ℚ) := by
  have hexponent : (23 - (Nat.log2 n : ℤ)) = ((23 - Nat.log2 n : ℕ) : ℤ) := by
    have hle := log2_le hn hlt
    omega
  rw [hexponent, zpow_natCast]
  push_cast
  rfl

theorem rounds_natCast (hn : n ≠ 0) (hlt : n < 2 ^ 24) :
    Rounds n (Nat.log2 n) (n * 2 ^ (23 - Nat.log2 n)) (exactMagnitude n) := by
  have hle := log2_le hn hlt
  refine rounds_of_normal (by omega) (zpow_log2_le hn) (lt_zpow_log2 n) ?_ (by omega)
  rw [natCast_significand hn hlt]
  exact nearest_natCast _

theorem exactMagnitude_lt (hn : n ≠ 0) (hlt : n < 2 ^ 24) : exactMagnitude n < 2 ^ 31 := by
  have hcarry := (rounds_natCast hn hlt).significand_le
  have hle := log2_le hn hlt
  rw [exactMagnitude]
  omega

theorem isNaN_ofMagnitude (negative : Bool) {magnitude : ℕ} (h : magnitude ≤ infinityMagnitude) :
    (ofMagnitude negative magnitude).isNaN = false := by
  have hlt : magnitude < 2 ^ 31 := h.trans_lt (by decide)
  rw [isNaN, magnitude_ofMagnitude negative hlt]
  exact decide_eq_false (not_lt.mpr h)

/-- A quotient that is an integer of 24 bits is not rounded. -/
theorem ofRatio_of_eq_natCast (negative : Bool) {num den : ℕ} (hden : 0 < den) (hn : n ≠ 0)
    (hlt : n < 2 ^ 24) (hquotient : (num : ℚ) / den = n) :
    ofRatio negative num den = ofMagnitude negative (exactMagnitude n) := by
  have hnum : num ≠ 0 := by
    rintro rfl
    rw [Nat.cast_zero, zero_div] at hquotient
    exact hn (by exact_mod_cast hquotient.symm)
  obtain ⟨exponent, significand, magnitude, hrounds, heq⟩ := ofRatio_rounds negative hnum hden
  rw [hquotient] at hrounds
  rw [heq, hrounds.unique (rounds_natCast hn hlt)]

theorem units_exactMagnitude (negative : Bool) (hn : n ≠ 0) (hlt : n < 2 ^ 24) :
    (ofMagnitude negative (exactMagnitude n)).units = n * 2 ^ 149 := by
  have hrounds := rounds_natCast hn hlt
  have hle := log2_le hn hlt
  have hmagnitude := magnitude_ofMagnitude negative (exactMagnitude_lt hn hlt)
  rw [units_of_magnitude (hmagnitude.trans rfl) (hrounds.le_significand (zpow_log2_le hn))
    hrounds.significand_le, mul_assoc, ← Nat.pow_add]
  congr 2
  omega

end Exact

/-! ### Products, bounds and the cast to 16 bits -/

/-- `x * y` for finite `x` and `y`. -/
def mulFinite (x y : F32) : F32 :=
  ofRatio (x.signBit != y.signBit) (x.units * y.units) (2 ^ 298)

/-- `x < y`: false as soon as one side is a NaN. -/
def lt (x y : F32) : Bool := !x.isNaN && !y.isNaN && decide (x.key < y.key)

/-- `f32::clamp`, which leaves a NaN as it is. -/
def clamp (x low high : F32) : F32 :=
  let x := if x.lt low then low else x
  if high.lt x then high else x

/-- `as i16`: the fraction is cut off, and what lies outside goes to the nearest end. -/
def toInt16 (x : F32) : Int16 :=
  if x.isNaN then 0
  else
    let whole : Int := (x.units / 2 ^ 149 : ℕ)
    Int16.ofInt (max (-32768) (min 32767 (if x.signBit then -whole else whole)))

/-- What is at most one in magnitude is left alone. -/
theorem clamp_eq_self {x low high : F32} (hlow : low.key ≤ x.key) (hhigh : x.key ≤ high.key) :
    x.clamp low high = x := by
  have hnotBelow : x.lt low = false := by
    rw [lt, decide_eq_false (not_lt.mpr hlow), Bool.and_false]
  have hnotAbove : high.lt x = false := by
    rw [lt, decide_eq_false (not_lt.mpr hhigh), Bool.and_false]
  rw [clamp]
  simp [hnotBelow, hnotAbove]

/-- Between bounds that are numbers, or not a number. -/
theorem clamp_cases {low high : F32} (hlow : low.isNaN = false) (hhigh : high.isNaN = false)
    (hle : low.key ≤ high.key) (x : F32) : (x.clamp low high).isNaN = true ∨
      (low.key ≤ (x.clamp low high).key ∧ (x.clamp low high).key ≤ high.key) := by
  by_cases hnan : x.isNaN = true
  · left
    have hnotBelow : x.lt low = false := by simp [lt, hnan]
    have hnotAbove : high.lt x = false := by simp [lt, hnan]
    simp [clamp, hnotBelow, hnotAbove, hnan]
  · right
    rw [Bool.not_eq_true] at hnan
    by_cases hbelow : x.lt low = true
    · have hnotAbove : high.lt low = false := by
        rw [lt, decide_eq_false (not_lt.mpr hle), Bool.and_false]
      simp [clamp, hbelow, hnotAbove, hle]
    · have hkey : low.key ≤ x.key := by simpa [lt, hnan, hlow] using hbelow
      by_cases habove : high.lt x = true
      · simp [clamp, hbelow, habove, hle]
      · have hkey' : x.key ≤ high.key := by simpa [lt, hnan, hhigh] using habove
        simp [clamp, hbelow, habove, hkey, hkey']

/-- The cast cuts a number of at most `bound` off to an integer of at most `bound`. -/
theorem toInt16_eq {x : F32} (hnan : x.isNaN = false) (hbound : x.units ≤ 32767 * 2 ^ 149) :
    x.toInt16 = Int16.ofInt
      (if x.signBit then -((x.units / 2 ^ 149 : ℕ) : ℤ) else (x.units / 2 ^ 149 : ℕ)) := by
  have hwhole : x.units / 2 ^ 149 ≤ 32767 := Nat.div_le_of_le_mul (by omega)
  rw [toInt16, hnan]
  simp only [Bool.false_eq_true, if_false]
  congr 1
  split <;> omega

theorem abs_key (x : F32) : |x.key| = x.magnitude := by
  rw [key]
  split
  · rw [abs_neg, Nat.abs_cast]
  · exact Nat.abs_cast _

end F32
