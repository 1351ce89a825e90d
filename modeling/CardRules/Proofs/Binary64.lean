import CardRules.Requirement
import Mathlib

/-!
Signs, infinities and the order of binary64 numbers.

A result is rounded and stored as bits before it is read again. Storing keeps apart what is a number
and what is not, and treats a number and its negative alike; so a difference and the opposite
difference are equally large, and all that is compared with a magnitude can be told from signs and
infinities. Two values that are both numbers stand in exactly one order (`exists_order`).
-/

namespace CardRules.Binary64

open Float.Model (UnpackedFloat)
open Float.Model.UnpackedFloat (Sign)

/-- What the bits of a value say: whether it is a number, and its sign, mantissa and exponent. -/
def reading (x : Float) : UnpackedFloat := x.toModel.unpack

/-- What is read of a result once it was stored. -/
def stored (result : UnpackedFloat) : UnpackedFloat := (Float.Model.pack result).unpack

variable {x y : Float} {u v : UnpackedFloat}

/-! ## Readings of results -/

theorem reading_sub (x y : Float) :
    reading (x - y) = stored (.sub .binary64 (reading x) (reading y)) := rfl

theorem reading_mul (x y : Float) :
    reading (x * y) = stored (.mul .binary64 (reading x) (reading y)) := rfl

theorem reading_abs (x : Float) : reading x.abs = stored (reading x).abs := rfl

theorem isNaN_eq (x : Float) : x.isNaN = (reading x).isNaN := rfl

theorem isInf_eq (x : Float) : x.isInf = (reading x).isInf := rfl

theorem lt_iff : x < y ↔ (reading x).compare (reading y) = some .lt := by
  show x.lt y = true ↔ _
  unfold Float.lt
  rw [decide_eq_true_iff]
  exact beq_iff_eq

theorem le_iff : x ≤ y ↔ (reading x).le (reading y) = true := by
  show x.le y = true ↔ _
  unfold Float.le
  rw [decide_eq_true_iff]
  rfl

theorem beq_iff : (x == y) = true ↔ (reading x).compare (reading y) = some .eq := by
  show (reading x).beq (reading y) = true ↔ _
  unfold UnpackedFloat.beq
  exact beq_iff_eq

/-! ## Stored bits -/

theorem stored_eq (u : UnpackedFloat) :
    stored u = UnpackedFloat.unpack .binary64 (UnpackedFloat.pack .binary64 u) := rfl

/-- The bits of a number and of its magnitude differ in the sign alone. They are those of no number
if all bits of the exponent are set and some bit of the mantissa is. -/
theorem exists_pack_eq (u : UnpackedFloat) :
    ∃ (sign : Sign) (exponent : BitVec 11) (mantissa : BitVec 52),
      UnpackedFloat.pack .binary64 u =
        UnpackedFloat.packComponents .binary64 sign exponent mantissa ∧
      UnpackedFloat.pack .binary64 u.abs =
        UnpackedFloat.packComponents .binary64 .positive exponent mantissa ∧
      (exponent = -1#11 ∧ mantissa ≠ 0#52 ↔ u.isNaN = true) := by
  cases u with
  | notANumber => exact ⟨.positive, _, _, rfl, rfl, by decide⟩
  | infinity sign => exact ⟨sign, _, _, rfl, rfl, by cases sign <;> decide⟩
  | zero sign => exact ⟨sign, _, _, rfl, rfl, by cases sign <;> decide⟩
  | finite sign mantissa exponent hpositive =>
    simp only [UnpackedFloat.abs, UnpackedFloat.pack, UnpackedFloat.isNaN, Bool.false_eq_true,
      iff_false]
    split
    · -- What is too large is stored as an infinity.
      exact ⟨sign, _, _, rfl, rfl, by simp⟩
    next hsmall =>
    split
    · refine ⟨sign, _, _, rfl, rfl, fun hbits => ?_⟩
      have hexponent := congrArg BitVec.toNat hbits.1
      change ¬ 2 ^ 11 ≤ _ at hsmall
      rw [BitVec.toNat_ofNat] at hexponent
      change _ = 2047 at hexponent
      omega
    · exact ⟨sign, _, _, rfl, rfl, fun hbits => absurd hbits.1 (by decide)⟩

/-- To store a number and to leave out its sign can be done in either order. -/
theorem abs_stored (u : UnpackedFloat) : (stored u).abs = stored u.abs := by
  obtain ⟨sign, exponent, mantissa, hpack, habs, -⟩ := exists_pack_eq u
  rw [stored_eq, stored_eq, hpack, habs]
  unfold UnpackedFloat.unpack
  simp only [UnpackedFloat.unpackExponent_packComponents,
    UnpackedFloat.unpackMantissa_packComponents, UnpackedFloat.unpackSign_packComponents,
    Sign.ofBitVec_toBitVec]
  split
  · split <;> rfl
  · split
    · split <;> rfl
    · rfl

/-- What is stored is a number just if the result is one. -/
theorem isNaN_stored (u : UnpackedFloat) : (stored u).isNaN = u.isNaN := by
  obtain ⟨sign, exponent, mantissa, hpack, -, hnan⟩ := exists_pack_eq u
  rw [stored_eq, hpack, Bool.eq_iff_iff, ← hnan]
  unfold UnpackedFloat.unpack
  simp only [UnpackedFloat.unpackExponent_packComponents,
    UnpackedFloat.unpackMantissa_packComponents]
  split
  next hones =>
    split
    · simp_all [UnpackedFloat.isNaN]
    · simp_all [UnpackedFloat.isNaN]
  next hless =>
    split
    · split <;> simp_all [UnpackedFloat.isNaN]
    · simp_all [UnpackedFloat.isNaN]

/-! ## Magnitudes of results -/

theorem abs_abs (u : UnpackedFloat) : u.abs.abs = u.abs := by
  cases u <;> rfl

theorem isNaN_abs (u : UnpackedFloat) : u.abs.isNaN = u.isNaN := by
  cases u <;> rfl

/-- Rounding does not look at the sign. -/
theorem abs_roundWithAccuracy (sign : Sign) (mantissa : Nat) (exponent : Int)
    (accuracy : UnpackedFloat.Accuracy) :
    (UnpackedFloat.roundWithAccuracy .binary64 sign mantissa exponent accuracy).abs =
      UnpackedFloat.roundWithAccuracy .binary64 .positive mantissa exponent accuracy := by
  unfold UnpackedFloat.roundWithAccuracy
  dsimp only
  split <;> rfl

theorem isNaN_roundWithAccuracy (sign : Sign) (mantissa : Nat) (exponent : Int)
    (accuracy : UnpackedFloat.Accuracy) :
    (UnpackedFloat.roundWithAccuracy .binary64 sign mantissa exponent accuracy).isNaN = false := by
  unfold UnpackedFloat.roundWithAccuracy
  dsimp only
  split <;> rfl

theorem abs_normalize_neg (mantissa exponent : Int) (sign : Sign) :
    (UnpackedFloat.normalize .binary64 (-mantissa) exponent sign).abs =
      (UnpackedFloat.normalize .binary64 mantissa exponent sign).abs := by
  unfold UnpackedFloat.normalize
  rcases Int.lt_trichotomy mantissa 0 with h | rfl | h
  · have hopposite : 0 < -mantissa := by omega
    rw [Int.compare_eq_lt.2 h, Int.compare_eq_gt.2 hopposite]
    exact (abs_roundWithAccuracy ..).trans (abs_roundWithAccuracy ..).symm
  · rfl
  · have hopposite : -mantissa < 0 := by omega
    rw [Int.compare_eq_gt.2 h, Int.compare_eq_lt.2 hopposite, Int.neg_neg]
    exact (abs_roundWithAccuracy ..).trans (abs_roundWithAccuracy ..).symm

theorem abs_sub (u v : UnpackedFloat) :
    (UnpackedFloat.sub .binary64 u v).abs = (UnpackedFloat.sub .binary64 v u).abs := by
  cases u with
  | notANumber => cases v <;> rfl
  | infinity sign =>
    cases v with
    | infinity other => cases sign <;> cases other <;> rfl
    | _ => rfl
  | zero sign =>
    cases v with
    | zero other => cases sign <;> cases other <;> rfl
    | _ => rfl
  | finite sign mantissa exponent hpositive =>
    cases v with
    | finite other mantissa' exponent' hpositive' =>
      simp only [UnpackedFloat.sub]
      rw [Int.min_comm exponent' exponent, ← abs_normalize_neg, Int.neg_sub]
    | _ => rfl

theorem abs_mul (u v : UnpackedFloat) :
    (UnpackedFloat.mul .binary64 u v).abs = UnpackedFloat.mul .binary64 u.abs v.abs := by
  cases u with
  | finite sign mantissa exponent hpositive =>
    cases v with
    | finite => exact abs_roundWithAccuracy ..
    | _ => rfl
  | _ => cases v <;> rfl

/-- A difference and the opposite difference are equally large. -/
theorem abs_sub_comm (x y : Float) : reading (x - y).abs = reading (y - x).abs := by
  rw [reading_abs, reading_abs, reading_sub, reading_sub, abs_stored, abs_stored, abs_sub]

theorem abs_reading_abs (x : Float) : (reading x.abs).abs = reading x.abs := by
  rw [reading_abs, abs_stored, abs_abs]

theorem isNaN_reading_abs (x : Float) : (reading x.abs).isNaN = x.isNaN := by
  rw [reading_abs, isNaN_stored, isNaN_abs, isNaN_eq]

/-! ## Order -/

theorem compare_swap (u v : UnpackedFloat) : v.compare u = (u.compare v).map .swap := by
  cases u with
  | notANumber => cases v <;> rfl
  | infinity sign =>
    cases sign <;> cases v with
    | infinity other => cases other <;> rfl
    | _ => rfl
  | zero sign =>
    cases v with
    | infinity other => cases other <;> rfl
    | finite other => cases other <;> rfl
    | _ => rfl
  | finite sign =>
    cases sign <;> cases v with
    | infinity other => cases other <;> rfl
    | finite other =>
      cases other <;>
        simp [UnpackedFloat.compare, Ordering.swap_then, ← Std.OrientedCmp.eq_swap]
    | _ => rfl

theorem exists_compare (hu : u.isNaN = false) (hv : v.isNaN = false) :
    ∃ order, u.compare v = some order := by
  rw [← Option.isSome_iff_exists]
  cases u with
  | notANumber => cases hu
  | infinity sign =>
    cases sign <;> cases v with
    | notANumber => cases hv
    | _ => rfl
  | zero sign =>
    cases v with
    | notANumber => cases hv
    | infinity other => cases other <;> rfl
    | finite other => cases other <;> rfl
    | zero => rfl
  | finite sign =>
    cases sign <;> cases v with
    | notANumber => cases hv
    | infinity other => cases other <;> rfl
    | finite other => cases other <;> rfl
    | zero => rfl

/-- Two numbers stand in exactly one order: the first is less, they are equal, or it is greater. -/
theorem exists_order (hx : x.isNaN = false) (hy : y.isNaN = false) :
    ∃ order : Ordering, (x < y ↔ order = .lt) ∧ ((x == y) = true ↔ order = .eq) ∧
      (y < x ↔ order = .gt) ∧ (x ≤ y ↔ order ≠ .gt) := by
  rw [isNaN_eq] at hx hy
  obtain ⟨order, horder⟩ := exists_compare hx hy
  refine ⟨order, ?_, ?_, ?_, ?_⟩
  · rw [lt_iff, horder, Option.some.injEq]
  · rw [beq_iff, horder, Option.some.injEq]
  · rw [lt_iff, compare_swap, horder]
    cases order <;> decide
  · rw [le_iff, UnpackedFloat.le, horder]
    cases order <;> decide

/-- Two numbers are equal, unless one of them is less. -/
theorem not_beq (hx : x.isNaN = false) (hy : y.isNaN = false) :
    (!(x == y)) = (decide (x < y) || decide (y < x)) := by
  obtain ⟨order, hless, hequal, hgreater, -⟩ := exists_order hx hy
  rw [Bool.eq_iff_iff, Bool.not_eq_true', ← Bool.not_eq_true, hequal, Bool.or_eq_true,
    decide_eq_true_iff, decide_eq_true_iff, hless, hgreater]
  cases order <;> decide

theorem le_iff_not_lt (hx : x.isNaN = false) (hy : y.isNaN = false) : x ≤ y ↔ ¬ y < x := by
  obtain ⟨order, -, -, hgreater, hle⟩ := exists_order hx hy
  rw [hgreater, hle]

/-- Nothing is compared with what is no number. -/
theorem isNaN_of_le (h : x ≤ y) : x.isNaN = false ∧ y.isNaN = false := by
  rw [le_iff] at h
  rw [isNaN_eq, isNaN_eq]
  cases hx : reading x <;> cases hy : reading y <;>
    simp_all [UnpackedFloat.le, UnpackedFloat.compare, UnpackedFloat.isNaN]

/-- Magnitudes that are equal are the same. -/
theorem abs_eq_of_compare_eq (h : u.abs.compare v.abs = some .eq) : u.abs = v.abs := by
  cases u with
  | notANumber => cases v <;> cases h
  | infinity =>
    cases v with
    | infinity => rfl
    | _ => cases h
  | zero =>
    cases v with
    | zero => rfl
    | _ => cases h
  | finite =>
    cases v with
    | finite =>
      simp only [UnpackedFloat.abs, UnpackedFloat.compare, Option.some.injEq,
        Ordering.then_eq_eq, Std.compare_eq_iff_eq] at h
      simp only [UnpackedFloat.abs, h]
    | _ => cases h

end CardRules.Binary64
