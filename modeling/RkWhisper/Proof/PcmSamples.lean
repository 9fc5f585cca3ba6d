import RkWhisper.PcmSamples
import RkWhisper.Proof.ChunkReader

/-!
# What the daemon makes of a client's samples

The client multiplies by 32767 and cuts off, the daemon divides by 32767; both operations round. Even
so every 16-bit sample but the least one survives the daemon's division and the client's product, so
that what a client has once sent stays the same however often it is taken apart and sent again.
-/

namespace RkWhisper

open F32

/-! ### Dividing by 32767 and multiplying again -/

section Product

variable {m : ℕ}

/-- The exponent of the quotient is that of the number, less fifteen. -/
theorem quotient_exponent (hpos : m ≠ 0) (hlt : m < 32767) :
    (2 : ℚ) ^ ((Nat.log2 m : ℤ) - 15) ≤ m / 32767 ∧
      (m : ℚ) / 32767 < 2 ^ ((Nat.log2 m : ℤ) - 15 + 1) := by
  have hlow := Nat.log2_self_le hpos
  have hhigh : m < 2 * 2 ^ Nat.log2 m := Nat.pow_succ' ▸ Nat.lt_log2_self
  have hlog : Nat.log2 m < 15 := (Nat.log2_lt hpos).mpr (hlt.trans (by norm_num))
  have hscaled : m * 2 ^ 14 < 32767 * 2 ^ Nat.log2 m := by
    obtain hless | heq := Nat.lt_succ_iff_lt_or_eq.mp hlog
    · have hpower : 2 ^ Nat.log2 m ≤ 2 ^ 13 := Nat.pow_le_pow_right two_pos (by omega)
      omega
    · rw [heq]
      omega
  have hpower : ∀ shift : ℕ, (2 : ℚ) ^ ((Nat.log2 m : ℤ) - shift) = 2 ^ Nat.log2 m / 2 ^ shift := by
    intro shift
    rw [zpow_sub₀ two_ne_zero, zpow_natCast, zpow_natCast]
  constructor
  · have hcast : (2 : ℚ) ^ Nat.log2 m ≤ m := by exact_mod_cast hlow
    calc (2 : ℚ) ^ ((Nat.log2 m : ℤ) - 15) = 2 ^ Nat.log2 m / 2 ^ 15 := hpower 15
      _ ≤ m / 2 ^ 15 := div_le_div_of_nonneg_right hcast (by positivity)
      _ ≤ m / 32767 := div_le_div_of_nonneg_left (Nat.cast_nonneg m) (by norm_num) (by norm_num)
  · have hcast : (m : ℚ) * 2 ^ 14 < 32767 * 2 ^ Nat.log2 m := by exact_mod_cast hscaled
    have hexponent : (Nat.log2 m : ℤ) - 15 + 1 = (Nat.log2 m : ℤ) - (14 : ℕ) := by
      push_cast
      ring
    rw [hexponent, hpower, div_lt_div_iff₀ (by norm_num) (by positivity)]
    linarith

/-- The product lies nearer to the number than half a unit of its last place. -/
theorem rounds_product (hpos : m ≠ 0) (hlt : m < 32767) {k : ℕ}
    (hk : Nearest (m / 32767 * 2 ^ (23 - ((Nat.log2 m : ℤ) - 15))) k) :
    ∃ exponent significand, Rounds (k * 32767 * 2 ^ ((Nat.log2 m : ℤ) - 15 - 23)) exponent
      significand (exactMagnitude m) := by
  have hlog : Nat.log2 m < 15 := (Nat.log2_lt hpos).mpr (hlt.trans (by norm_num))
  have hbits : m < 2 ^ 24 := hlt.trans (by norm_num)
  set e := Nat.log2 m with he
  set power : ℚ := 2 ^ e with hpowerEq
  have hpower : 0 < power := by positivity
  have hlow : power ≤ m := by
    have hself := Nat.log2_self_le hpos
    rw [hpowerEq]
    exact_mod_cast hself
  have hhigh : (m : ℚ) + 1 ≤ 2 * power := by
    have hself : m + 1 ≤ 2 * 2 ^ e := by
      have hbelow : m < 2 ^ (e + 1) := Nat.lt_log2_self
      rw [Nat.pow_succ'] at hbelow
      exact hbelow
    rw [hpowerEq]
    exact_mod_cast hself
  have hsmall : power ≤ 2 ^ 14 := pow_le_pow_right₀ one_le_two (by omega)
  have hzpow : (2 : ℚ) ^ (e : ℤ) = power := zpow_natCast 2 e
  have hscale : (2 : ℚ) ^ (23 - ((e : ℤ) - 15)) = 2 ^ 38 / power := by
    have hsum : (23 - ((e : ℤ) - 15)) = ((38 : ℕ) : ℤ) - e := by
      push_cast
      ring
    rw [hsum, zpow_sub₀ two_ne_zero, zpow_natCast, hzpow]
  have hunit : (2 : ℚ) ^ ((e : ℤ) - 15 - 23) = power / 2 ^ 38 := by
    have hsum : (e : ℤ) - 15 - 23 = e - ((38 : ℕ) : ℤ) := by
      push_cast
      ring
    rw [hsum, zpow_sub₀ two_ne_zero, hzpow, zpow_natCast]
  rw [hscale] at hk
  set product : ℚ := k * 32767 * 2 ^ ((e : ℤ) - 15 - 23) with hproduct
  have hclose : |product - m| < power / 2 ^ 24 := by
    have hfactor : product - m = -(32767 * power / 2 ^ 38 * (m / 32767 * (2 ^ 38 / power) - k)) := by
      rw [hproduct, hunit]
      field_simp
      ring
    have hnonneg : 0 ≤ 32767 * power / 2 ^ 38 := by positivity
    rw [hfactor, abs_neg, abs_mul, abs_of_nonneg hnonneg]
    calc 32767 * power / 2 ^ 38 * |(m : ℚ) / 32767 * (2 ^ 38 / power) - k|
        ≤ 32767 * power / 2 ^ 38 * (1 / 2) := mul_le_mul_of_nonneg_left hk.dist hnonneg
      _ < power / 2 ^ 24 := by linarith
  obtain ⟨hbelow, habove⟩ := abs_lt.mp hclose
  by_cases hbinade : power ≤ product
  · -- The product has the exponent of the number.
    have hupper : product < 2 ^ ((e : ℤ) + 1) := by
      rw [zpow_add_one₀ two_ne_zero, hzpow]
      linarith
    have hnearest : Nearest (product * 2 ^ (23 - (e : ℤ))) (m * 2 ^ (23 - e)) := by
      apply nearest_of_lt
      have hshift : (2 : ℚ) ^ (23 - (e : ℤ)) = 2 ^ 23 / power := by
        rw [zpow_sub₀ two_ne_zero, hzpow]
        norm_num
      have hdistance : product * (2 ^ 23 / power) - m * (2 ^ 23 / power) =
          2 ^ 23 / power * (product - m) := by ring
      rw [he, ← natCast_significand hpos hbits, ← he, hshift, hdistance, abs_mul,
        abs_of_pos (by positivity)]
      calc 2 ^ 23 / power * |product - m|
          < 2 ^ 23 / power * (power / 2 ^ 24) := mul_lt_mul_of_pos_left hclose (by positivity)
        _ = 1 / 2 := by field_simp
    exact ⟨e, _, rounds_of_normal (by omega) (hzpow.trans_le hbinade) hupper hnearest (by omega)⟩
  · -- The number is a power of two, and the product lies just below it.
    have hwhole : (m : ℚ) = power := by
      have hnext : (m : ℚ) < power + 1 := by linarith
      have hnat : m < 2 ^ e + 1 := by
        rw [hpowerEq] at hnext
        exact_mod_cast hnext
      have hself := Nat.log2_self_le hpos
      rw [← he] at hself
      have heq : m = 2 ^ e := by omega
      rw [heq]
      push_cast
      rfl
    have hquotient : (m : ℚ) / 32767 * (2 ^ 38 / power) = 2 ^ 38 / 32767 := by
      rw [hwhole]
      field_simp
    have hk' : k = 8388864 := by
      rw [hquotient] at hk
      refine hk.unique (nearest_of_lt ?_)
      norm_num [abs_lt]
    have hvalue : product = power - power / 2 ^ 30 := by
      rw [hproduct, hunit, hk']
      push_cast
      ring
    have hnearest : Nearest (product * 2 ^ (23 - ((e : ℤ) - 1))) (2 ^ 24) := by
      apply nearest_of_lt
      have hshift : (2 : ℚ) ^ (23 - ((e : ℤ) - 1)) = 2 ^ 24 / power := by
        have hsum : (23 - ((e : ℤ) - 1)) = ((24 : ℕ) : ℤ) - e := by
          push_cast
          ring
        rw [hsum, zpow_sub₀ two_ne_zero, zpow_natCast, hzpow]
      have hdistance : (power - power / 2 ^ 30) * (2 ^ 24 / power) - ((2 ^ 24 : ℕ) : ℚ) =
          -(1 / 2 ^ 6) := by
        push_cast
        field_simp
        ring
      rw [hvalue, hshift, hdistance]
      norm_num
    have hlower : (2 : ℚ) ^ ((e : ℤ) - 1) ≤ product := by
      rw [zpow_sub_one₀ two_ne_zero, hzpow, hvalue]
      linarith
    have hupper : product < 2 ^ ((e : ℤ) - 1 + 1) := by
      rw [sub_add_cancel, hzpow]
      exact not_le.mp hbinade
    have hmagnitude : exactMagnitude m = ((e : ℤ) - 1 + 126).toNat * 2 ^ 23 + 2 ^ 24 := by
      have hnat : m = 2 ^ e := by
        rw [hpowerEq] at hwhole
        exact_mod_cast hwhole
      have hfull : m * 2 ^ (23 - e) = 2 ^ 23 := by
        rw [hnat, ← Nat.pow_add]
        congr 1
        omega
      rw [exactMagnitude, ← he, hfull]
      omega
    rw [hmagnitude]
    exact ⟨_, _, rounds_of_normal (by omega) hlower hupper hnearest (by omega)⟩

/-- The quotient as the daemon stores it: its units, and that it is at most one. -/
theorem quotient_units (negative : Bool) (hpos : m ≠ 0) (hlt : m < 32767) :
    ∃ k magnitude, k ≠ 0 ∧ Nearest (m / 32767 * 2 ^ (23 - ((Nat.log2 m : ℤ) - 15))) k ∧
      ofRatio negative (m * 2 ^ 149) (32767 * 2 ^ 149) = ofMagnitude negative magnitude ∧
      magnitude ≤ exactMagnitude 1 ∧
      (ofMagnitude negative magnitude).units = k * 2 ^ (Nat.log2 m + 111) := by
  have hnum : m * 2 ^ 149 ≠ 0 := Nat.mul_ne_zero hpos (Nat.two_pow_pos _).ne'
  have hden : 0 < 32767 * 2 ^ 149 := by positivity
  have hquotient : ((m * 2 ^ 149 : ℕ) : ℚ) / (32767 * 2 ^ 149 : ℕ) = m / 32767 := by
    push_cast
    ring
  obtain ⟨exponent, k, magnitude, hrounds, heq⟩ := ofRatio_rounds negative hnum hden
  rw [hquotient] at hrounds
  obtain ⟨hlower, hupper⟩ := quotient_exponent hpos hlt
  have hexponent : exponent = (Nat.log2 m : ℤ) - 15 := by
    have hleast := hrounds.least
    have hbelow := two_zpow_lt (hlower.trans_lt hrounds.upper)
    have habove := two_zpow_lt ((hrounds.lower (by omega)).trans_lt hupper)
    omega
  have hone : magnitude ≤ exactMagnitude 1 := by
    refine hrounds.le_of_le (rounds_natCast one_ne_zero (by norm_num)) ?_
    have hcast : (m : ℚ) ≤ 32767 := by exact_mod_cast hlt.le
    rw [Nat.cast_one]
    exact (div_le_one (by norm_num)).mpr hcast
  have hbits : magnitude < 2 ^ 31 :=
    hone.trans_lt (exactMagnitude_lt one_ne_zero (by norm_num))
  have hfields : magnitude = (Nat.log2 m + 111) * 2 ^ 23 + k := by
    have hcarry := hrounds.significand_le
    have hlog : Nat.log2 m < 15 := (Nat.log2_lt hpos).mpr (hlt.trans (by norm_num))
    rw [hrounds.magnitude_eq, hexponent, infinityMagnitude]
    omega
  have hnormal : 2 ^ 23 ≤ k := hrounds.le_significand (hexponent ▸ hlower)
  refine ⟨k, magnitude, by omega, hexponent ▸ hrounds.nearest, heq, hone, ?_⟩
  refine units_of_magnitude ?_ hnormal hrounds.significand_le
  rw [magnitude_ofMagnitude negative hbits, hfields]

theorem units_natCast (negative : Bool) {n : ℕ} (hn : n ≠ 0) (hlt : n < 2 ^ 24) :
    ofRatio negative n 1 = ofMagnitude negative (exactMagnitude n) :=
  ofRatio_of_eq_natCast negative one_pos hn hlt (by rw [Nat.cast_one, div_one])

/-- The factor of both conversions. -/
theorem ofNat_i16Max : F32.ofNat 32767 = ofMagnitude false (exactMagnitude 32767) :=
  units_natCast false (by norm_num) (by norm_num)

/-- Two magnitudes multiply to units of the square of the least one. -/
theorem two_pow_units : 2 ^ 298 = 2 ^ 149 * 2 ^ 149 := by rw [← Nat.pow_add]

theorem mulFinite_i16Max (x : F32) : x.mulFinite (F32.ofNat 32767) =
    ofRatio x.signBit (x.units * (32767 * 2 ^ 149)) (2 ^ 298) := by
  rw [mulFinite, ofNat_i16Max, units_exactMagnitude false (by norm_num) (by norm_num),
    signBit_ofMagnitude false (exactMagnitude_lt (by norm_num) (by norm_num)), Bool.bne_false]

/-- **The division and the product undo each other.** -/
theorem mul_div_i16Max (negative : Bool) (hpos : m ≠ 0) (hle : m ≤ 32767) :
    (ofRatio negative (m * 2 ^ 149) (32767 * 2 ^ 149)).mulFinite (F32.ofNat 32767) =
        ofMagnitude negative (exactMagnitude m) ∧
      (ofRatio negative (m * 2 ^ 149) (32767 * 2 ^ 149)).magnitude ≤ exactMagnitude 1 ∧
      (ofRatio negative (m * 2 ^ 149) (32767 * 2 ^ 149)).signBit = negative := by
  have hsmall : exactMagnitude 1 < 2 ^ 31 := exactMagnitude_lt one_ne_zero (by norm_num)
  obtain hlt | rfl := hle.lt_or_eq
  · obtain ⟨k, magnitude, hk, hnearest, hquotient, hone, hunits⟩ :=
      quotient_units negative hpos hlt
    have hbits : magnitude < 2 ^ 31 := hone.trans_lt hsmall
    rw [hquotient, magnitude_ofMagnitude negative hbits, signBit_ofMagnitude negative hbits]
    refine ⟨?_, hone, rfl⟩
    obtain ⟨exponent, significand, hrounds⟩ := rounds_product hpos hlt hnearest
    have hnum : k * 2 ^ (Nat.log2 m + 111) * (32767 * 2 ^ 149) ≠ 0 :=
      Nat.mul_ne_zero (Nat.mul_ne_zero hk (Nat.two_pow_pos _).ne') (by positivity)
    obtain ⟨exponent', significand', magnitude', hrounds', heq⟩ :=
      @ofRatio_rounds negative _ (2 ^ 298) hnum (by positivity)
    have hproduct : ((k * 2 ^ (Nat.log2 m + 111) * (32767 * 2 ^ 149) : ℕ) : ℚ) / (2 ^ 298 : ℕ) =
        k * 32767 * 2 ^ ((Nat.log2 m : ℤ) - 15 - 23) := by
      have hsum : (Nat.log2 m : ℤ) - 15 - 23 = Nat.log2 m - ((38 : ℕ) : ℤ) := by
        push_cast
        ring
      rw [hsum, zpow_sub₀ two_ne_zero, zpow_natCast, zpow_natCast, Nat.pow_add, two_pow_units]
      push_cast
      ring
    rw [hproduct] at hrounds'
    rw [mulFinite_i16Max, signBit_ofMagnitude negative hbits, hunits, heq,
      hrounds'.unique hrounds]
  · have hquotient : ofRatio negative (32767 * 2 ^ 149) (32767 * 2 ^ 149) =
        ofMagnitude negative (exactMagnitude 1) :=
      ofRatio_of_eq_natCast negative (by positivity) one_ne_zero (by norm_num) (by norm_num)
    rw [hquotient, magnitude_ofMagnitude negative hsmall, signBit_ofMagnitude negative hsmall]
    refine ⟨?_, le_rfl, rfl⟩
    rw [mulFinite_i16Max, signBit_ofMagnitude negative hsmall,
      units_exactMagnitude negative one_ne_zero (by norm_num)]
    refine ofRatio_of_eq_natCast negative (by positivity) (by norm_num) (by norm_num) ?_
    rw [two_pow_units]
    push_cast
    ring

end Product

/-! ### One sample -/

theorem toInt16_exact (negative : Bool) {n : ℕ} (hn : n ≠ 0) (hle : n ≤ 32767) :
    (ofMagnitude negative (exactMagnitude n)).toInt16 =
      Int16.ofInt (if negative then -(n : ℤ) else n) := by
  have hbits : n < 2 ^ 24 := hle.trans_lt (by norm_num)
  have hunits := units_exactMagnitude negative hn hbits
  have hnan : (ofMagnitude negative (exactMagnitude n)).isNaN = false :=
    isNaN_ofMagnitude negative (rounds_natCast hn hbits).le_infinity
  have hwhole : n * 2 ^ 149 / 2 ^ 149 = n := Nat.mul_div_cancel n (Nat.two_pow_pos 149)
  rw [toInt16_eq hnan (hunits.trans_le (Nat.mul_le_mul_right _ hle)), hunits, hwhole,
    signBit_ofMagnitude negative (exactMagnitude_lt hn hbits)]

/-- The daemon's sample for a 16-bit value. -/
def sampleOf (value : Int16) : F32 := (F32.ofInt value.toInt).divFinite (F32.ofInt i16Max)

theorem natAbs_toInt_le (value : Int16) : value.toInt.natAbs ≤ 2 ^ 15 := by
  have hlow := value.le_toInt
  have hhigh := value.toInt_le
  rw [Int16.toInt_maxValue] at hhigh
  omega

theorem toInt_ne {value other : Int16} (h : value ≠ other) : value.toInt ≠ other.toInt :=
  mt Int16.toInt_inj.mp h

theorem sampleOf_eq {value : Int16} (hvalue : value ≠ 0) :
    sampleOf value = ofRatio (decide (value.toInt < 0)) (value.toInt.natAbs * 2 ^ 149)
      (32767 * 2 ^ 149) := by
  have hne : value.toInt.natAbs ≠ 0 := Int.natAbs_ne_zero.mpr (toInt_ne hvalue)
  have hlt : value.toInt.natAbs < 2 ^ 24 := (natAbs_toInt_le value).trans_lt (by norm_num)
  have hint : F32.ofInt value.toInt =
      ofMagnitude (decide (value.toInt < 0)) (exactMagnitude value.toInt.natAbs) :=
    units_natCast _ hne hlt
  have hmax : F32.ofInt i16Max = ofMagnitude false (exactMagnitude 32767) :=
    @units_natCast false 32767 (by norm_num) (by norm_num)
  rw [sampleOf, divFinite_eq, hint, hmax, units_exactMagnitude _ hne hlt,
    units_exactMagnitude false (by norm_num) (by norm_num),
    signBit_ofMagnitude _ (exactMagnitude_lt hne hlt),
    signBit_ofMagnitude false (exactMagnitude_lt (by norm_num) (by norm_num)), Bool.bne_false]

/-- The bounds of the client's clamp. -/
theorem key_one : (F32.ofNat 1).key = exactMagnitude 1 ∧
    (F32.ofInt (-1)).key = -(exactMagnitude 1 : ℤ) := by
  decide +kernel

/-- What a 16-bit value becomes when the daemon's sample of it is sent on. -/
def resent (value : Int16) : Int16 := if value = -32768 then -32767 else value

/-- **What the client makes of the daemon's sample.** -/
theorem pcmSample_sampleOf (value : Int16) : pcmSample (sampleOf value) = resent value := by
  by_cases hleast : value = -32768
  · subst hleast
    decide +kernel
  by_cases hzero : value = 0
  · subst hzero
    decide +kernel
  have hne : value.toInt.natAbs ≠ 0 := Int.natAbs_ne_zero.mpr (toInt_ne hzero)
  have hle : value.toInt.natAbs ≤ 32767 := by
    have hbound := natAbs_toInt_le value
    have hedge : value.toInt ≠ -32768 := toInt_ne hleast
    have hhigh := value.toInt_le
    rw [Int16.toInt_maxValue] at hhigh
    omega
  obtain ⟨hproduct, hone, -⟩ := mul_div_i16Max (decide (value.toInt < 0)) hne hle
  rw [← sampleOf_eq hzero] at hproduct hone
  have hkey := abs_le.mp ((abs_key (sampleOf value)).trans_le (Int.ofNat_le.mpr hone))
  have hclamp : (sampleOf value).clamp (F32.ofInt (-1)) (F32.ofNat 1) = sampleOf value :=
    clamp_eq_self (key_one.2.trans_le hkey.1) (hkey.2.trans_eq key_one.1.symm)
  have hnan : (sampleOf value).isNaN = false :=
    decide_eq_false (not_lt.mpr (hone.trans (by decide +kernel)))
  have hsigned : (if decide (value.toInt < 0) then -(value.toInt.natAbs : ℤ)
      else value.toInt.natAbs) = value.toInt := by
    simp only [decide_eq_true_eq]
    split <;> omega
  rw [resent, if_neg hleast, pcmSample]
  simp only [hclamp, hnan, Bool.false_eq_true, if_false]
  rw [hproduct, toInt16_exact _ hne hle, hsigned, Int16.ofInt_toInt]

/-- Rounding does not take the product of a number of at most one past the factor. -/
theorem units_product_le {x : F32} (hone : x.magnitude ≤ exactMagnitude 1) :
    (x.mulFinite (F32.ofNat 32767)).isNaN = false ∧
      (x.mulFinite (F32.ofNat 32767)).units ≤ 32767 * 2 ^ 149 := by
  have hbound : exactMagnitude 32767 ≤ infinityMagnitude :=
    (rounds_natCast (by norm_num) (by norm_num)).le_infinity
  have hfactor : exactMagnitude 32767 < 2 ^ 31 := exactMagnitude_lt (by norm_num) (by norm_num)
  have hunits : x.units ≤ 2 ^ 149 := by
    have hsmall : exactMagnitude 1 < 2 ^ 31 := exactMagnitude_lt one_ne_zero (by norm_num)
    have hle := units_le_of_magnitude_le (hone.trans_eq (magnitude_ofMagnitude false hsmall).symm)
    rwa [units_exactMagnitude false one_ne_zero (by norm_num), one_mul] at hle
  rw [mulFinite_i16Max]
  obtain ⟨magnitude, heq, hle⟩ : ∃ magnitude,
      ofRatio x.signBit (x.units * (32767 * 2 ^ 149)) (2 ^ 298) =
        ofMagnitude x.signBit magnitude ∧ magnitude ≤ exactMagnitude 32767 := by
    by_cases hzero : x.units * (32767 * 2 ^ 149) = 0
    · exact ⟨0, by rw [hzero, ofRatio, if_pos rfl], Nat.zero_le _⟩
    · obtain ⟨exponent, significand, magnitude, hrounds, heq⟩ :=
        @ofRatio_rounds x.signBit _ (2 ^ 298) hzero (by positivity)
      refine ⟨magnitude, heq, hrounds.le_of_le (rounds_natCast (by norm_num) (by norm_num)) ?_⟩
      rw [div_le_iff₀ (by positivity)]
      have hle : x.units * (32767 * 2 ^ 149) ≤ 32767 * 2 ^ 298 := by
        rw [two_pow_units]
        omega
      exact_mod_cast hle
  refine ⟨heq ▸ isNaN_ofMagnitude _ (hle.trans hbound), ?_⟩
  have hmagnitude : (ofMagnitude x.signBit magnitude).magnitude ≤
      (ofMagnitude false (exactMagnitude 32767)).magnitude := by
    rwa [magnitude_ofMagnitude _ (hle.trans_lt hfactor), magnitude_ofMagnitude _ hfactor]
  rw [heq, ← units_exactMagnitude false (by norm_num) (by norm_num)]
  exact units_le_of_magnitude_le hmagnitude

/-- The cast never reaches the least 16-bit value. -/
theorem neg_i16Max_le_pcmSample (s : F32) : -32767 ≤ (pcmSample s).toInt := by
  have hbounds : (F32.ofInt (-1)).isNaN = false ∧ (F32.ofNat 1).isNaN = false := by decide +kernel
  have hle : (F32.ofInt (-1)).key ≤ (F32.ofNat 1).key := by decide +kernel
  rw [pcmSample]
  obtain hnan | ⟨hlow, hhigh⟩ := clamp_cases hbounds.1 hbounds.2 hle s
  · simp [hnan, toInt16]
  · have hone : (s.clamp (F32.ofInt (-1)) (F32.ofNat 1)).magnitude ≤ exactMagnitude 1 := by
      have habs : |(s.clamp (F32.ofInt (-1)) (F32.ofNat 1)).key| ≤ exactMagnitude 1 :=
        abs_le.mpr ⟨key_one.2.symm.trans_le hlow, hhigh.trans_eq key_one.1⟩
      rw [abs_key] at habs
      exact Int.ofNat_le.mp habs
    have hnan : (s.clamp (F32.ofInt (-1)) (F32.ofNat 1)).isNaN = false :=
      decide_eq_false (not_lt.mpr (hone.trans (by decide +kernel)))
    obtain ⟨hproduct, hunits⟩ := units_product_le hone
    have hwhole := Nat.div_le_div_right (c := 2 ^ 149) hunits
    rw [Nat.mul_div_cancel _ (Nat.two_pow_pos 149)] at hwhole
    simp only [hnan, Bool.false_eq_true, if_false]
    rw [toInt16_eq hproduct hunits, Int16.toInt_ofInt_of_le]
    · split <;> omega
    · split <;> omega
    · split <;> omega

/-! ### The bytes -/

theorem sampleOfBytes_toLeBytes (value : Int16) :
    sampleOfBytes (UInt8.ofNat value.toUInt16.toNat)
      (UInt8.ofNat (value.toUInt16.toNat / 2 ^ 8)) = sampleOf value := by
  have hlt := value.toUInt16.toNat_lt
  have hbytes : LittleEndian.toNat [UInt8.ofNat value.toUInt16.toNat,
      UInt8.ofNat (value.toUInt16.toNat / 2 ^ 8)] = value.toUInt16.toNat := by
    simp only [LittleEndian.toNat, UInt8.toNat_ofNat']
    omega
  rw [sampleOfBytes, hbytes, UInt16.ofNat_toNat, Int16.toInt16_toUInt16, sampleOf]

theorem samplesOfPcm_toLeBytes :
    ∀ values : List Int16, samplesOfPcm (values.flatMap toLeBytes) = values.map sampleOf
  | [] => rfl
  | value :: values => by
      rw [List.flatMap_cons, toLeBytes, List.cons_append, List.cons_append, List.nil_append,
        samplesOfPcm, sampleOfBytes_toLeBytes, samplesOfPcm_toLeBytes values, List.map_cons]

theorem samplesToPcm_eq (samples : List F32) :
    samplesToPcm samples = (samples.map pcmSample).flatMap toLeBytes := by
  rw [samplesToPcm, List.flatMap_map]

theorem length_toLeBytes (values : List Int16) :
    (values.flatMap toLeBytes).length = 2 * values.length := by
  induction values with
  | nil => rfl
  | cons value values ih =>
      rw [List.flatMap_cons, List.length_append, ih, toLeBytes, List.length_cons]
      simp only [List.length_cons, List.length_nil]
      omega

/-- The daemon's samples, sent again. -/
theorem samplesToPcm_samples (values : List Int16) : samplesToPcm (values.map sampleOf) =
    (values.map resent).flatMap toLeBytes := by
  rw [samplesToPcm_eq, List.map_map]
  congr 1
  exact List.map_congr_left fun value _ => pcmSample_sampleOf value

/-- **Audio settles once it is sent.** The daemon takes the bytes of any 16-bit values, and sent on by
a client they come back, save that the least value becomes its successor. What a client makes of any
samples, infinities and NaNs included, is bytes of values that are never the least one, which the
daemon takes and a client would send again without a change. -/
theorem samplesToPcm_pcmS16leToF32 :
    (∀ values : List Int16, ∃ samples, pcmS16leToF32 (values.flatMap toLeBytes) = .ok samples ∧
      samplesToPcm samples = (values.map resent).flatMap toLeBytes) ∧
    ∀ samples : List F32, ∃ (values : List Int16) (received : List F32),
      values.length = samples.length ∧ (∀ value ∈ values, value ≠ -32768) ∧
      samplesToPcm samples = values.flatMap toLeBytes ∧
      pcmS16leToF32 (samplesToPcm samples) = .ok received ∧
      samplesToPcm received = samplesToPcm samples := by
  have htaken : ∀ values : List Int16,
      pcmS16leToF32 (values.flatMap toLeBytes) = .ok (values.map sampleOf) := by
    intro values
    have heven : (values.flatMap toLeBytes).length % 2 = 0 := by
      rw [length_toLeBytes, Nat.mul_mod_right]
    rw [pcmS16leToF32_of_even heven, samplesOfPcm_toLeBytes]
  refine ⟨fun values => ⟨_, htaken values, samplesToPcm_samples values⟩, fun samples => ?_⟩
  have hleast : ∀ value ∈ samples.map pcmSample, value ≠ -32768 := by
    intro value hmem heq
    obtain ⟨s, -, rfl⟩ := List.mem_map.mp hmem
    have hbound := neg_i16Max_le_pcmSample s
    rw [heq] at hbound
    exact absurd hbound (by decide)
  refine ⟨samples.map pcmSample, _, List.length_map _, hleast, samplesToPcm_eq samples,
    samplesToPcm_eq samples ▸ htaken _, ?_⟩
  rw [samplesToPcm_samples, samplesToPcm_eq]
  congr 1
  exact (List.map_congr_left fun value hmem => if_neg (hleast value hmem)).trans
    (List.map_id _)

end RkWhisper
