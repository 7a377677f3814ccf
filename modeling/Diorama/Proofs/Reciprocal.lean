import Mathlib
import Diorama.Time.Duration

/-! Reciprocals of whole numbers.  A rate of `n` hertz gives a period of `1 / n` seconds, which is
computed with a mantissa of 53 bits and rounded to nanoseconds.  The first rounding is too fine to
matter for the second: the period is a whole number nearest to `10 ^ 9 / n`. -/

namespace Diorama.Duration

open Float.Model Float.Model.UnpackedFloat

variable {m n d l : Nat} {e : Int}

/-- A mantissa of 53 bits, with an exponent that needs no special encoding. -/
structure Normal (m : Nat) (e : Int) : Prop where
  log2_eq : m.log2 = 52
  lower : -1075 < e
  upper : e < 972

theorem Normal.bounds (h : Normal m e) : 2 ^ 52 ≤ m ∧ m < 2 ^ 53 := by
  have hne : m ≠ 0 := by
    rintro rfl
    exact absurd h.log2_eq (by decide)
  exact (Nat.log2_eq_iff hne).1 h.log2_eq

/-! ### Bits -/

theorem pack_eq (h : Normal m e) (s : Sign) (hpos : 0 < m) :
    UnpackedFloat.pack Format.binary64 (.finite s m e hpos) =
      packComponents Format.binary64 s (BitVec.ofNat 11 (e + 1075).toNat) (BitVec.ofNat 52 m) := by
  obtain ⟨hlog, hlower, hupper⟩ := h
  have hbias : (e + (Format.binary64.exponentBias : Nat) + (52 : Nat) : Int) = e + 1075 := by
    rw [show Format.binary64.exponentBias = 1023 from rfl]
    omega
  simp only [UnpackedFloat.pack, hbias, hlog]
  rw [if_neg (by omega), if_pos (by rfl)]

theorem toNat_unpackExponent (b : BitVec 64) :
    (@unpackExponent Format.binary64 b).toNat = b.toNat / 2 ^ 52 % 2 ^ 11 := by
  simp [unpackExponent, Nat.shiftRight_eq_div_pow]

theorem toNat_unpackMantissa (b : BitVec 64) :
    (@unpackMantissa Format.binary64 b).toNat = b.toNat % 2 ^ 52 := by
  simp [unpackMantissa]

theorem toNat_unpackExponent_pack (h : Normal m e) (s : Sign) (hpos : 0 < m) : (@unpackExponent
    Format.binary64 (UnpackedFloat.pack Format.binary64 (.finite s m e hpos))).toNat =
      (e + 1075).toNat := by
  rw [pack_eq h, unpackExponent_packComponents]
  obtain ⟨-, hlower, hupper⟩ := h
  exact Nat.mod_eq_of_lt (show (e + 1075).toNat < 2 ^ 11 by omega)

theorem toNat_unpackMantissa_pack (h : Normal m e) (s : Sign) (hpos : 0 < m) : (@unpackMantissa
    Format.binary64 (UnpackedFloat.pack Format.binary64 (.finite s m e hpos))).toNat =
      m - 2 ^ 52 := by
  rw [pack_eq h, unpackMantissa_packComponents]
  obtain ⟨hlow, hhigh⟩ := h.bounds
  show m % 2 ^ 52 = m - 2 ^ 52
  omega

theorem ofSeconds_pack (h : Normal m e) (hneg : e ≤ 0) (s : Sign) (hpos : 0 < m) :
    ofSeconds (.ofModel (.pack (.finite s m e hpos))) =
      roundDiv (m * second) (2 ^ (-e).toNat) := by
  obtain ⟨hlow, hhigh⟩ := h.bounds
  have hlower := h.lower
  have hexponent := toNat_unpackExponent_pack h s hpos
  have hmantissa := toNat_unpackMantissa_pack h s hpos
  rw [toNat_unpackExponent] at hexponent
  rw [toNat_unpackMantissa] at hmantissa
  let bits := (UnpackedFloat.pack Format.binary64 (.finite s m e hpos)).toNat
  change bits / 2 ^ 52 % 2 ^ 11 = _ at hexponent
  change bits % 2 ^ 52 = _ at hmantissa
  show roundDiv ((bits % Nat.pow 2 52 + if bits / Nat.pow 2 52 % 2048 = 0 then 0
    else Nat.pow 2 52) * second) (Nat.pow 2 (1075 - max (bits / Nat.pow 2 52 % 2048) 1)) = _
  rw [show bits / Nat.pow 2 52 % 2048 = (e + 1075).toNat from hexponent,
    show bits % Nat.pow 2 52 = m - 2 ^ 52 from hmantissa, if_neg (by omega),
    show 1075 - max (e + 1075).toNat 1 = (-e).toNat by omega]
  rw [show m - 2 ^ 52 + Nat.pow 2 52 = m from Nat.sub_add_cancel hlow]
  rfl

theorem toNat_append_one (b : BitVec 52) : (1#1 ++ b).toNat = 2 ^ 52 + b.toNat := by
  rw [BitVec.toNat_append, ← Nat.shiftLeft_add_eq_or_of_lt b.isLt]
  rfl

theorem unpack_pack (h : Normal m e) (s : Sign) (hpos : 0 < m) :
    (Float.Model.pack (.finite s m e hpos)).unpack = .finite s m e hpos := by
  obtain ⟨hlow, -⟩ := h.bounds
  have hlower := h.lower
  have hupper := h.upper
  have hexponent := toNat_unpackExponent_pack h s hpos
  have hmantissa := toNat_unpackMantissa_pack h s hpos
  let bits := UnpackedFloat.pack Format.binary64 (.finite s m e hpos)
  change (@unpackExponent Format.binary64 bits).toNat = _ at hexponent
  change (@unpackMantissa Format.binary64 bits).toNat = _ at hmantissa
  have hfull : @unpackExponent Format.binary64 bits ≠ -1#11 := by
    intro heq
    have hnat : (e + 1075).toNat = 2047 := hexponent.symm.trans (congrArg BitVec.toNat heq)
    omega
  have hzero : @unpackExponent Format.binary64 bits ≠ 0#11 := by
    intro heq
    have hnat : (e + 1075).toNat = 0 := hexponent.symm.trans (congrArg BitVec.toNat heq)
    omega
  have hsign : Sign.ofBitVec (@unpackSign Format.binary64 bits) = s := by
    rw [show bits = _ from pack_eq h s hpos, unpackSign_packComponents, Sign.ofBitVec_toBitVec]
  show UnpackedFloat.unpack Format.binary64 bits = _
  rw [UnpackedFloat.unpack]
  simp only [if_neg hfull, if_neg hzero, hsign]
  congr 1
  · rw [toNat_append_one]
    omega
  · show ((@unpackExponent Format.binary64 bits).toNat : Int) - (1023 + 52) = e
    omega

/-! ### Rounding -/

theorem shiftToTargetExponent_eq (h : Normal m e) (accuracy : Accuracy) :
    shiftToTargetExponent Format.binary64 m e accuracy =
      (.ofMantissaAndAccuracy m accuracy, e) := by
  have htarget : Format.binary64.targetExponent (totalExponent m e) = e := by
    have hlower := h.lower
    rw [Format.targetExponent, totalExponent, h.log2_eq]
    show max ((52 : Nat) + 1 + e - 53) (-1074) = e
    omega
  rw [shiftToTargetExponent, htarget, shiftToExponent, Int.sub_self]
  show (_, e + 0) = _
  rw [Int.add_zero]
  rfl

theorem roundedMantissa_eq (m : Nat) (accuracy : Accuracy) :
    (ExtendedMantissa.ofMantissaAndAccuracy m accuracy).roundedMantissa =
      accuracy.roundToNearestEven m := by
  rcases accuracy with _ | (_ | _ | _) <;> rfl

theorem le_roundToNearestEven (m : Nat) (accuracy : Accuracy) :
    m ≤ accuracy.roundToNearestEven m ∧ accuracy.roundToNearestEven m ≤ m + 1 := by
  rcases accuracy with _ | (_ | _ | _) <;> simp only [Accuracy.roundToNearestEven] <;> omega

theorem roundWithAccuracy_eq (accuracy : Accuracy) (h : Normal m e)
    (h' : Normal (accuracy.roundToNearestEven m) e) (s : Sign) :
    ∃ hpos, roundWithAccuracy Format.binary64 s m e accuracy =
      .finite s (accuracy.roundToNearestEven m) e hpos := by
  have hpos : accuracy.roundToNearestEven m ≠ 0 := by
    have hlow := h'.bounds.1
    omega
  refine ⟨Nat.pos_of_ne_zero hpos, ?_⟩
  rw [roundWithAccuracy]
  simp only [shiftToTargetExponent_eq h, roundedMantissa_eq, shiftToTargetExponent_eq h']
  exact dif_neg hpos

/-- A mantissa that is even and one bit too long is halved. -/
theorem roundWithAccuracy_double (h : Normal m e) (s : Sign) :
    ∃ hpos, roundWithAccuracy Format.binary64 s (2 * m) (e - 1) .exact = .finite s m e hpos := by
  have hne : m ≠ 0 := by
    have hlow := h.bounds.1
    omega
  refine ⟨Nat.pos_of_ne_zero hne, ?_⟩
  have htarget : Format.binary64.targetExponent (totalExponent (2 * m) (e - 1)) = e := by
    have hlower := h.lower
    rw [Format.targetExponent, totalExponent, Nat.log2_two_mul hne, h.log2_eq]
    show max ((53 : Nat) + 1 + (e - 1) - 53) (-1074) = e
    omega
  have hshift : shiftToTargetExponent Format.binary64 (2 * m) (e - 1) .exact =
      (.ofMantissaAndAccuracy m .exact, e) := by
    rw [shiftToTargetExponent, htarget, shiftToExponent, show (e - (e - 1)).toNat = 1 by omega]
    show ((⟨2 * m / 2, 2 * m % 2 != 0, false⟩, e - 1 + 1) : ExtendedMantissa × Int) = _
    rw [Nat.mul_div_cancel_left m (by decide), Nat.mul_mod_right, Int.sub_add_cancel]
    rfl
  rw [roundWithAccuracy]
  simp only [hshift, roundedMantissa_eq, Accuracy.roundToNearestEven, shiftToTargetExponent_eq h]
  exact dif_neg hne

/-! ### Whole numbers -/

theorem log2_shiftLeft (hn : n ≠ 0) (k : Nat) : (n <<< k).log2 = n.log2 + k := by
  induction k with
  | zero => rfl
  | succ k ih =>
    have hne : n <<< k ≠ 0 := by simpa using hn
    rw [Nat.shiftLeft_succ, Nat.log2_two_mul hne, ih]
    omega

theorem normal_shiftLeft (hn : n ≠ 0) (h : n < 2 ^ 53) :
    Normal (n <<< (52 - n.log2)) (n.log2 - 52) := by
  have hlt : n.log2 < 53 := (Nat.log2_lt hn).2 h
  refine ⟨?_, by omega, by omega⟩
  rw [log2_shiftLeft hn]
  omega

theorem ofNat_eq (hn : n ≠ 0) (h : n < 2 ^ 53) : ∃ hpos, UnpackedFloat.ofNat Format.binary64 n =
    .finite .positive (n <<< (52 - n.log2)) (n.log2 - 52) hpos := by
  have hnormal := normal_shiftLeft hn h
  have hlt : n.log2 < 53 := (Nat.log2_lt hn).2 h
  have htarget : Format.binary64.targetExponent (totalExponent n 0) = n.log2 - 52 := by
    rw [Format.targetExponent, totalExponent]
    show max ((n.log2 : Int) + 1 + 0 - 53) (-1074) = _
    omega
  rw [UnpackedFloat.ofNat, UnpackedFloat.ofInt, UnpackedFloat.normalize,
    Int.compare_eq_gt.2 (by omega : (0 : Int) < n)]
  have hshift : (0 - ((n.log2 : Int) - 52)).toNat = 52 - n.log2 := by omega
  have hexponent : (0 : Int) - ((52 - n.log2 : Nat) : Int) = n.log2 - 52 := by omega
  simp only [UnpackedFloat.round, htarget, decreaseExponent, Int.toNat_natCast, hshift, hexponent]
  exact roundWithAccuracy_eq .exact hnormal hnormal _

theorem unpack_toFloat (hz : UInt32) (hne : hz.toNat ≠ 0) : ∃ hpos, hz.toFloat.toModel.unpack =
    .finite .positive (hz.toNat <<< (52 - hz.toNat.log2)) (hz.toNat.log2 - 52) hpos := by
  have hlt : hz.toNat < 2 ^ 53 := by
    have := hz.toNat_lt
    omega
  obtain ⟨hpos, heq⟩ := ofNat_eq hne hlt
  refine ⟨hpos, ?_⟩
  show (Float.Model.pack (UnpackedFloat.ofNat Format.binary64 hz.toNat)).unpack = _
  rw [heq, unpack_pack (normal_shiftLeft hne hlt)]

theorem unpack_one :
    ∃ hpos, (1 : Float).toModel.unpack = .finite .positive (2 ^ 52) (-52) hpos := by
  have hone : (1 : Float) = (1 : UInt32).toFloat := by
    rw [← Float.toBits_inj]
    decide +kernel
  rw [hone]
  exact unpack_toFloat 1 (by decide)

/-! ### Division -/

theorem divCore_eq (hd : d.log2 = 52) (hl : l ≤ 52) :
    divCore Format.binary64 (2 ^ 52) (-52) d ((l : Int) - 52) =
      (2 ^ 105 / d, -(l : Int) - 53, accuracyOfFraction (2 ^ 105 % d) d) := by
  have htarget : Format.binary64.targetExponent
      (totalExponent (2 ^ 52) (-52) - totalExponent d ((l : Int) - 52)) = -(l : Int) - 53 := by
    rw [Format.targetExponent, totalExponent, totalExponent, hd, Nat.log2_two_pow]
    show max ((52 : Nat) + 1 + -52 - ((52 : Nat) + 1 + ((l : Int) - 52)) - 53) (-1074) = _
    omega
  have hmin : min (-52 - ((l : Int) - 52)) (-(l : Int) - 53) = -(l : Int) - 53 := by omega
  have hshift : (-52 - ((l : Int) - 52) - (-(l : Int) - 53)).toNat = 53 := by omega
  simp only [divCore, htarget, hmin, hshift]
  rfl

theorem div_eq (hd : d.log2 = 52) (hl : l ≤ 52) (hpos : 0 < 2 ^ 52) (hpos' : 0 < d) :
    UnpackedFloat.div Format.binary64 (.finite .positive (2 ^ 52) (-52) hpos)
      (.finite .positive d ((l : Int) - 52) hpos') = roundWithAccuracy Format.binary64 .positive
        (2 ^ 105 / d) (-(l : Int) - 53) (accuracyOfFraction (2 ^ 105 % d) d) := by
  rw [UnpackedFloat.div, divCore_eq hd hl]
  rfl

/-- Without a remainder the quotient has one bit too many. -/
theorem exists_reciprocal_power (hl : l ≤ 52) (s : Sign) : ∃ hpos,
    Normal (2 ^ 52) (-((l + 52 : Nat) : Int)) ∧
      roundWithAccuracy Format.binary64 s (2 ^ 105 / 2 ^ 52) (-(l : Int) - 53)
        (accuracyOfFraction (2 ^ 105 % 2 ^ 52) (2 ^ 52)) =
          .finite s (2 ^ 52) (-((l + 52 : Nat) : Int)) hpos := by
  have hnormal : Normal (2 ^ 52) (-((l + 52 : Nat) : Int)) := ⟨Nat.log2_two_pow, by omega, by omega⟩
  obtain ⟨hpos, heq⟩ := roundWithAccuracy_double hnormal s
  refine ⟨hpos, hnormal, ?_⟩
  rw [← heq, show -(l : Int) - 53 = -((l + 52 : Nat) : Int) - 1 by omega]
  rfl

/-- In other cases it has 53 bits, also when it is rounded up. -/
theorem quotient_bounds (hlow : 2 ^ 52 < d) (hhigh : d < 2 ^ 53) :
    2 ^ 52 ≤ 2 ^ 105 / d ∧ 2 ^ 105 / d + 1 < 2 ^ 53 := by
  constructor
  · rw [Nat.le_div_iff_mul_le (by omega)]
    omega
  · have hmul := Nat.mul_le_mul_right (2 ^ 53 - 1) (show 2 ^ 52 + 1 ≤ d from hlow)
    have hlt : 2 ^ 105 / d < 2 ^ 53 - 1 := Nat.div_lt_of_lt_mul (by omega)
    omega

/-- The reciprocal of `d` has one of the two mantissas next to it. -/
theorem exists_reciprocal (hd : d.log2 = 52) (hl : l ≤ 52) (s : Sign) :
    ∃ m k : Nat, ∃ hpos, Normal m (-(k : Int)) ∧
      roundWithAccuracy Format.binary64 s (2 ^ 105 / d) (-(l : Int) - 53)
        (accuracyOfFraction (2 ^ 105 % d) d) = .finite s m (-(k : Int)) hpos ∧
      (m - 1) * d ≤ 2 ^ k * 2 ^ (52 - l) ∧ 2 ^ k * 2 ^ (52 - l) ≤ (m + 1) * d := by
  have hne : d ≠ 0 := by
    rintro rfl
    exact absurd hd (by decide)
  obtain ⟨hlow, hhigh⟩ := (Nat.log2_eq_iff hne).1 hd
  by_cases hpower : d = 2 ^ 52
  · subst hpower
    obtain ⟨hpos, hnormal, heq⟩ := exists_reciprocal_power hl s
    have hscale : 2 ^ (l + 52) * 2 ^ (52 - l) = 2 ^ 104 := by
      rw [← Nat.pow_add, show l + 52 + (52 - l) = 104 by omega]
    refine ⟨2 ^ 52, l + 52, hpos, hnormal, heq, ?_, ?_⟩
    · rw [hscale]
      decide
    · rw [hscale]
      decide
  · let q := 2 ^ 105 / d
    let accuracy := accuracyOfFraction (2 ^ 105 % d) d
    obtain ⟨hqlow, hqhigh⟩ : 2 ^ 52 ≤ q ∧ q + 1 < 2 ^ 53 := quotient_bounds (by omega) hhigh
    obtain ⟨hle, hle'⟩ := le_roundToNearestEven q accuracy
    have hlower : -1075 < -((l + 53 : Nat) : Int) := by omega
    have hnormal : Normal q (-((l + 53 : Nat) : Int)) :=
      ⟨(Nat.log2_eq_iff (by omega)).2 ⟨hqlow, by omega⟩, hlower, by omega⟩
    have hrounded : Normal (accuracy.roundToNearestEven q) (-((l + 53 : Nat) : Int)) :=
      ⟨(Nat.log2_eq_iff (by omega)).2 ⟨by omega, by omega⟩, hlower, by omega⟩
    obtain ⟨hpos, heq⟩ := roundWithAccuracy_eq accuracy hnormal hrounded s
    have hscale : 2 ^ (l + 53) * 2 ^ (52 - l) = 2 ^ 105 := by
      rw [← Nat.pow_add, show l + 53 + (52 - l) = 105 by omega]
    refine ⟨_, l + 53, hpos, hrounded, ?_, ?_, ?_⟩
    · rw [← heq, show -(l : Int) - 53 = -((l + 53 : Nat) : Int) by omega]
    · rw [hscale, Nat.mul_comm]
      exact (Nat.mul_le_mul_left d (by omega)).trans (Nat.mul_div_le _ _)
    · rw [hscale, Nat.mul_comm]
      have hlt : 2 ^ 105 < d * (q + 1) := Nat.lt_mul_div_succ _ (Nat.pos_of_ne_zero hne)
      exact hlt.le.trans (Nat.mul_le_mul_left d (by omega))

/-- A reciprocal is the quotient of whole numbers of which the first has 53 bits. -/
theorem ofSeconds_reciprocal (hz : UInt32) (hne : hz.toNat ≠ 0) : ∃ m k,
    ofSeconds (1 / hz.toFloat) = roundDiv (m * second) (2 ^ k) ∧ 2 ^ 52 ≤ m ∧
      (m - 1) * hz.toNat ≤ 2 ^ k ∧ 2 ^ k ≤ (m + 1) * hz.toNat := by
  have hlt := hz.toNat_lt
  have hnormal := normal_shiftLeft hne (by omega)
  have hl : hz.toNat.log2 ≤ 52 := Nat.le_of_lt_succ ((Nat.log2_lt hne).2 (by omega))
  obtain ⟨hpos, hone⟩ := unpack_one
  obtain ⟨hpos', hhz⟩ := unpack_toFloat hz hne
  obtain ⟨m, k, hm, hmnormal, hround, hle, hle'⟩ := exists_reciprocal hnormal.log2_eq hl .positive
  have hdiv : (1 / hz.toFloat : Float) = .ofModel (.pack (.finite .positive m (-(k : Int)) hm)) := by
    rw [← hround, ← div_eq hnormal.log2_eq hl hpos hpos', ← hone, ← hhz]
    rfl
  have hscale : ∀ a : Nat, a * (hz.toNat <<< (52 - hz.toNat.log2)) =
      a * hz.toNat * 2 ^ (52 - hz.toNat.log2) := by
    intro a
    rw [Nat.shiftLeft_eq, Nat.mul_assoc]
  rw [hscale] at hle hle'
  have hpower : 0 < 2 ^ (52 - hz.toNat.log2) := Nat.two_pow_pos _
  refine ⟨m, k, ?_, hmnormal.bounds.1, Nat.le_of_mul_le_mul_right hle hpower,
    Nat.le_of_mul_le_mul_right hle' hpower⟩
  rw [hdiv, ofSeconds_pack hmnormal (by omega), Int.neg_neg, Int.toNat_natCast]

/-! ### Rounding to nanoseconds -/

/-- A rounded quotient is off by a half at most. -/
theorem roundDiv_nearest {a b : Nat} (h : 0 < b) :
    2 * (b * roundDiv a b) ≤ 2 * a + b ∧ 2 * a ≤ 2 * (b * roundDiv a b) + b := by
  have hdiv := Nat.div_add_mod a b
  have hmod := Nat.mod_lt a h
  have hsucc : b * (a / b + 1) = b * (a / b) + b := Nat.mul_succ _ _
  rw [roundDiv]
  by_cases hdown : 2 * (a % b) < b
  · rw [if_pos hdown]
    omega
  · by_cases hup : b < 2 * (a % b)
    · rw [if_neg hdown, if_pos hup, hsucc]
      omega
    · rw [if_neg hdown, if_neg hup]
      split
      · omega
      · rw [hsucc]
        omega

/-- Where a fraction `m / d` is close enough to `1 / n`, its multiple that is rounded is nearest to
that of `1 / n`. -/
theorem nearest_of_close {a p : Nat} (hlow : m * n ≤ d + n) (hhigh : d ≤ m * n + n)
    (hclose : 2 * a * n < d) (hle : 2 * (d * p) ≤ 2 * (m * a) + d)
    (hle' : 2 * (m * a) ≤ 2 * (d * p) + d) :
    2 * (n * p) ≤ 2 * a + n ∧ 2 * a ≤ 2 * (n * p) + n := by
  have hscale := Nat.mul_le_mul_right n hle
  have hscale' := Nat.mul_le_mul_right n hle'
  have hround := Nat.mul_le_mul_right a hlow
  have hround' := Nat.mul_le_mul_right a hhigh
  constructor
  · by_contra hgt
    have hmul := Nat.mul_le_mul_left d (Nat.succ_le_of_lt (Nat.lt_of_not_le hgt))
    rw [Nat.succ_eq_add_one] at hmul
    linarith
  · by_contra hgt
    have hmul := Nat.mul_le_mul_left d (Nat.succ_le_of_lt (Nat.lt_of_not_le hgt))
    rw [Nat.succ_eq_add_one] at hmul
    linarith

/-- The reciprocal of a rate is rounded to the nearest number of nanoseconds. -/
theorem ofSeconds_reciprocal_nearest (hz : UInt32) (hne : hz.toNat ≠ 0) :
    2 * (hz.toNat * ofSeconds (1 / hz.toFloat)) ≤ 2 * second + hz.toNat ∧
      2 * second ≤ 2 * (hz.toNat * ofSeconds (1 / hz.toFloat)) + hz.toNat := by
  obtain ⟨m, k, heq, hm, hlow, hhigh⟩ := ofSeconds_reciprocal hz hne
  have hclose : 2 * 1000000000 * hz.toNat < 2 ^ k := by
    have hmul := Nat.mul_le_mul_right hz.toNat (show 2 ^ 52 - 1 ≤ m - 1 by omega)
    omega
  rw [Nat.sub_mul, Nat.one_mul, Nat.sub_le_iff_le_add] at hlow
  rw [Nat.add_mul, Nat.one_mul] at hhigh
  obtain ⟨hle, hle'⟩ := roundDiv_nearest (Nat.two_pow_pos k)
  rw [heq]
  exact nearest_of_close hlow hhigh hclose hle hle'

end Diorama.Duration
