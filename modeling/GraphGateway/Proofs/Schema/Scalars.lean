import GraphGateway.Proofs.Plan.RequestVariables
import GraphGateway.Proofs.Plan.SentLiterals

/-!
This module contains the relation between the coercions of a scalar for output and for input: what
they give stays as it is, and output agrees with input where input accepts a value.
-/

namespace GraphGateway

/-! ### Integers as doubles -/

namespace Double

theorem roundDiv_le (num den : Nat) : roundDiv num den ≤ num / den + 1 := by
  unfold roundDiv
  dsimp only
  split
  . omega
  . split <;> omega

theorem log2_mul_pow_le {m a : Nat} (h : m < 2 ^ a) (b : Nat) : (m * Nat.pow 2 b).log2 ≤ a + b := by
  have hlt : m * 2 ^ b < 2 ^ (a + b) := by
    rw [Nat.pow_add]
    exact Nat.mul_lt_mul_of_pos_right h (Nat.two_pow_pos b)
  rw [Nat.pow_eq]
  by_cases hzero : m * 2 ^ b = 0
  . simp [hzero]
  . exact ((Nat.log2_lt hzero).mpr hlt).le

/-- The rounded significand is at most `2 ^ 53`, so that the exponent decides. -/
theorem isFinite_rounded (negative : Bool) {scaled : Nat} (h : scaled.log2 ≤ 64 + 1074)
    : (ofMagnitudeBits negative (min (((scaled / 1).log2 + 1 - 53) * Nat.pow 2 52
        + roundDiv scaled (1 * Nat.pow 2 ((scaled / 1).log2 + 1 - 53))) infinityBits)).isFinite
        = true := by
  rw [Nat.div_one, Nat.one_mul]
  have hquotient : scaled / Nat.pow 2 (scaled.log2 + 1 - 53) < 2 ^ 53 := by
    refine Nat.div_lt_of_lt_mul (Nat.lt_log2_self.trans_le ?_)
    rw [Nat.pow_eq, ← Nat.pow_add]
    exact Nat.pow_le_pow_right Nat.zero_lt_two (by omega)
  have hround := roundDiv_le scaled (Nat.pow 2 (scaled.log2 + 1 - 53))
  have hbits : (scaled.log2 + 1 - 53) * Nat.pow 2 52
      + roundDiv scaled (Nat.pow 2 (scaled.log2 + 1 - 53)) < infinityBits := by
    have hpow : Nat.pow 2 52 = 4503599627370496 := rfl
    unfold infinityBits
    rw [hpow]
    omega
  unfold isFinite
  rw [Nat.min_eq_left hbits.le, magnitudeBits_ofMagnitudeBits hbits.le]
  exact decide_eq_true hbits

theorem isFinite_ofInt {n : Int} (h : n.natAbs < 2 ^ 64) : (ofInt n).isFinite = true := by
  unfold ofInt ofRatio
  apply isFinite_rounded
  apply log2_mul_pow_le h

end Double

/--
The numbers that values hold: integers of 64 bits, with a sign or without, and finite doubles.
-/
def Number.Storable : Number → Prop
  | integer n => -Int.pow 2 63 ≤ n ∧ n < Int.pow 2 64
  | double d => d.isFinite = true

def Json.Storable (v : Json) : Prop :=
  ∀ n, v = .number n → n.Storable

theorem Number.isFinite_toDouble {n : Number} (h : n.Storable) : n.toDouble.isFinite = true := by
  cases n with
  | integer n =>
    have hlower : Int.pow 2 63 = 9223372036854775808 := rfl
    have hupper : Int.pow 2 64 = 18446744073709551616 := rfl
    unfold Storable at h
    exact Double.isFinite_ofInt (by omega)
  | double d => exact h

namespace Scalar

/-! ### The range of integers -/

def saturated (n : Int) : Int :=
  max (-Int.pow 2 63) (min n (Int.pow 2 63 - 1))

theorem inRange_iff (n : Int) : inRange n = true ↔ -2147483648 ≤ n ∧ n < 2147483648 := by
  have hpow : Int.pow 2 31 = 2147483648 := rfl
  unfold inRange
  rw [hpow, Bool.and_eq_true, decide_eq_true_iff, decide_eq_true_iff]

theorem ofRange_saturated (number : Number) (n : Option Int)
    : ofRange number (n.map saturated) = ofRange number n := by
  cases n with
  | none => rfl
  | some n =>
    have hpow : Int.pow 2 63 = 9223372036854775808 := rfl
    unfold ofRange saturated
    dsimp only [Option.map_some]
    rw [hpow]
    by_cases hrange : inRange n
    . have hself : max (-9223372036854775808) (min n (9223372036854775808 - 1)) = n := by
        rw [inRange_iff] at hrange
        omega
      rw [hself]
    . have hout : ¬ inRange (max (-9223372036854775808) (min n (9223372036854775808 - 1))) := by
        rw [inRange_iff] at hrange ⊢
        omega
      rw [if_neg hrange, if_neg hout]

/-- The integer that a double is equal to may be brought to 64 bits before its range is checked. -/
theorem serialize_int_double (d : Double)
    : int.serialize (.double d) = ofRange (.double d) (d.toInt?.map saturated) :=
  (ofRange_saturated _ _).symm

/-! ### Output and input -/

theorem exists_of_ofRange {number : Number} {n : Option Int} {w : Json}
    (h : ofRange number n = .ok w)
    : ∃ m, inRange m = true ∧ w = .int m := by
  cases n with
  | none => cases h
  | some n => exact ⟨n, ofRange_eq_ok_iff.mp h⟩

theorem serialize_idem {scalar : Scalar} {v w : Json} (h : scalar.serialize v = .ok w)
    : scalar.serialize w = .ok w := by
  unfold serialize at h
  split at h
  case h_1 b =>
    cases h
    cases b <;> rfl
  case h_2 | h_3 =>
    obtain ⟨n, hrange, rfl⟩ := exists_of_ofRange h
    exact ofRange_eq_ok_iff.mpr ⟨hrange, rfl⟩
  all_goals cases h
  all_goals rfl

theorem serialize_of_coerceInput {scalar : Scalar} {v w : Json} (h : scalar.coerceInput v = .ok w)
    : scalar.serialize v = .ok w := by
  unfold coerceInput at h
  split at h
  case h_2 => cases h
  case h_8 => cases h
  all_goals exact h

theorem storable_of_inRange {n : Int} (h : inRange n = true) : (Number.integer n).Storable := by
  have hlower : Int.pow 2 63 = 9223372036854775808 := rfl
  have hupper : Int.pow 2 64 = 18446744073709551616 := rfl
  rw [inRange_iff] at h
  unfold Number.Storable
  omega

theorem storable_serialize {scalar : Scalar} {v w : Json} (hv : v.Storable)
    (h : scalar.serialize v = .ok w)
    : w.Storable := by
  unfold serialize at h
  split at h
  case h_1 b =>
    cases h
    rintro _ ⟨⟩
    exact storable_of_inRange (by cases b <;> decide)
  case h_2 | h_3 =>
    obtain ⟨n, hrange, rfl⟩ := exists_of_ofRange h
    rintro _ ⟨⟩
    exact storable_of_inRange hrange
  case h_5 b =>
    cases h
    rintro _ ⟨⟩
    exact Double.isFinite_ofInt (by cases b <;> decide)
  case h_6 n =>
    cases h
    rintro _ ⟨⟩
    exact Number.isFinite_toDouble (hv n rfl)
  all_goals cases h
  all_goals rintro _ ⟨⟩

/--
What a scalar gives for output is a value of its shape that it gives for itself again. What it takes
as input it gives for output, too, and takes again as it is.
-/
theorem coercions_consistent (scalar : Scalar) (v w : Json)
    : (scalar.serialize v = .ok w →
          w ≠ .null ∧ scalar.HasShape w ∧ scalar.serialize w = .ok w ∧ (v.Storable → w.Storable))
        ∧ (scalar.coerceInput v = .ok w →
            scalar.serialize v = .ok w ∧ scalar.coerceInput w = .ok w) := by
  constructor
  . intro h
    have hshape := hasShape_serialize h
    exact ⟨ne_null_of_hasShape hshape, hshape, serialize_idem h, fun hv => storable_serialize hv h⟩
  . exact fun h => ⟨serialize_of_coerceInput h, coerceInput_idem h⟩

/-- The double `3.0` is given as an integer, and the integer `5` is taken as an identifier. -/
theorem coercions_consistent_three
    : let v := Json.double ⟨0x4008000000000000⟩
      let w := Json.int 3
      int.serialize v = .ok w ∧ w ≠ .null ∧ int.HasShape w ∧ int.serialize w = .ok w
        ∧ (v.Storable → w.Storable)
        ∧ id.coerceInput (.int 5) = .ok (.string "5") ∧ id.serialize (.int 5) = .ok (.string "5")
        ∧ id.coerceInput (.string "5") = .ok (.string "5") := by
  intro v w
  have hthree : Double.toInt? ⟨0x4008000000000000⟩ = some 3 := by
    decide +kernel
  have hserialize : int.serialize v = .ok w := by
    unfold v Json.double serialize
    dsimp only
    rw [hthree]
    exact ofRange_eq_ok_iff.mpr ⟨by decide, rfl⟩
  have hcoerce : id.coerceInput (.int 5) = .ok (.string "5") := rfl
  obtain ⟨hne, hshape, hidem, hstorable⟩ := (coercions_consistent int v w).1 hserialize
  obtain ⟨hid, hstring⟩ := (coercions_consistent id (.int 5) (.string "5")).2 hcoerce
  exact ⟨hserialize, hne, hshape, hidem, hstorable, hcoerce, hid, hstring⟩

end Scalar
end GraphGateway
