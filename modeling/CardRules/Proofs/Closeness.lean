import CardRules.Proofs.Binary64

/-!
Equality up to rounding. Two numbers count as equal if their distance is within a tolerance that
grows with the larger one. This is symmetric, and a finite number is equal to itself. At the
infinities it is turned over: the tolerance is infinite there, and so is the distance to all other
numbers, while an infinity has no distance to itself. So an infinity equals every number but itself.
-/

namespace CardRules.Comparison

open Float.Model (UnpackedFloat)
open Binary64

variable {x y : Float} {u v : UnpackedFloat}

/-- The largest distance at which two numbers still count as equal. -/
def tolerance (x y : Float) : Float := epsilon * larger (larger x.abs y.abs) 1

theorem nearlyEqual_iff :
    nearlyEqual x y = true ↔ (reading (x - y).abs).le (reading (tolerance x y)) = true := by
  unfold nearlyEqual
  rw [decide_eq_true_iff, ← le_iff]
  rfl

/-! ## The larger of two numbers -/

/-- The larger of two readings, chosen as `larger` chooses. -/
def largerReading (u v : UnpackedFloat) : UnpackedFloat :=
  if u.isNaN then v else if v.isNaN then u else if u.compare v = some .lt then v else u

theorem reading_larger (x y : Float) :
    reading (larger x y) = largerReading (reading x) (reading y) := by
  unfold larger largerReading
  simp only [apply_ite reading, isNaN_eq, lt_iff]

/-- The larger of two magnitudes does not depend on their order. -/
theorem largerReading_comm (hu : u.abs = u) (hv : v.abs = v) :
    largerReading u v = largerReading v u := by
  unfold largerReading
  cases hnan : u.isNaN with
  | true =>
    cases hother : v.isNaN with
    | true => cases u <;> cases v <;> simp_all [UnpackedFloat.isNaN]
    | false => simp
  | false =>
    cases hother : v.isNaN with
    | true => simp
    | false =>
      obtain ⟨order, horder⟩ := exists_compare hnan hother
      rw [compare_swap u v, horder]
      cases order with
      | lt => simp [Ordering.swap]
      | gt => simp [Ordering.swap]
      | eq =>
        rw [← hu, ← hv] at horder
        have hsame : u = v := by rw [← hu, ← hv, abs_eq_of_compare_eq horder]
        simp [hsame]

/-- The larger of two readings is one of them, so it has what both of them have. -/
theorem largerReading_of (P : UnpackedFloat → Prop) (hu : P u) (hv : P v) :
    P (largerReading u v) := by
  unfold largerReading
  split
  · exact hv
  split
  · exact hu
  split
  · exact hv
  · exact hu

/-! ## The tolerance -/

/-- What the tolerance grows with: the larger of the two magnitudes, and at least one. -/
def scaleReading (x y : Float) : UnpackedFloat :=
  largerReading (largerReading (reading x.abs) (reading y.abs)) (reading 1)

theorem scaleReading_comm (x y : Float) : scaleReading x y = scaleReading y x := by
  unfold scaleReading
  rw [largerReading_comm (abs_reading_abs x) (abs_reading_abs y)]

/-- The scale has what both magnitudes and one have. -/
theorem scaleReading_of (P : UnpackedFloat → Prop) (hx : P (reading x.abs)) (hy : P (reading y.abs))
    (hone : P (reading 1)) : P (scaleReading x y) := by
  apply largerReading_of P
  · exact largerReading_of P hx hy
  · exact hone

theorem abs_scaleReading (x y : Float) : (scaleReading x y).abs = scaleReading x y := by
  apply scaleReading_of (fun u => u.abs = u)
  · exact abs_reading_abs x
  · exact abs_reading_abs y
  · rfl

theorem isNaN_scaleReading (hx : x.isNaN = false) (hy : y.isNaN = false) :
    (scaleReading x y).isNaN = false := by
  rw [← isNaN_reading_abs] at hx hy
  apply scaleReading_of (fun u => u.isNaN = false) hx hy
  decide +kernel

theorem reading_tolerance (x y : Float) :
    reading (tolerance x y) = stored (.mul .binary64 (reading epsilon) (scaleReading x y)) := by
  unfold tolerance scaleReading
  rw [reading_mul, reading_larger, reading_larger]

theorem reading_tolerance_comm (x y : Float) :
    reading (tolerance x y) = reading (tolerance y x) := by
  rw [reading_tolerance, reading_tolerance, scaleReading_comm]

theorem exists_reading_epsilon :
    ∃ mantissa exponent hpositive,
      reading epsilon = .finite .positive mantissa exponent hpositive :=
  ⟨_, _, by decide, rfl⟩

/-- A tolerance is a magnitude. -/
theorem abs_reading_tolerance (x y : Float) :
    (reading (tolerance x y)).abs = reading (tolerance x y) := by
  have hepsilon : (reading epsilon).abs = reading epsilon := by
    obtain ⟨mantissa, exponent, hpositive, h⟩ := exists_reading_epsilon
    rw [h]
    rfl
  rw [reading_tolerance, abs_stored, abs_mul, abs_scaleReading, hepsilon]

/-- The tolerance of two numbers is a number. -/
theorem isNaN_reading_tolerance (hx : x.isNaN = false) (hy : y.isNaN = false) :
    (reading (tolerance x y)).isNaN = false := by
  have hscale := isNaN_scaleReading hx hy
  obtain ⟨mantissa, exponent, hpositive, hepsilon⟩ := exists_reading_epsilon
  rw [reading_tolerance, isNaN_stored, hepsilon]
  cases hvalue : scaleReading x y with
  | notANumber => simp [hvalue, UnpackedFloat.isNaN] at hscale
  | finite => apply isNaN_roundWithAccuracy
  | infinity => rfl
  | zero => rfl

/-! ## Equal numbers -/

theorem nearlyEqual_comm (x y : Float) : nearlyEqual x y = nearlyEqual y x := by
  rw [Bool.eq_iff_iff, nearlyEqual_iff, nearlyEqual_iff, abs_sub_comm x y,
    reading_tolerance_comm x y]

/-- No magnitude is below zero. -/
theorem zero_le (hu : u.abs = u) (hnan : u.isNaN = false) :
    (UnpackedFloat.zero .positive).le u = true := by
  rw [← hu]
  cases u with
  | notANumber => cases hnan
  | infinity => rfl
  | zero => rfl
  | finite => rfl

/-- A finite number has no distance to itself. -/
theorem reading_abs_sub_self (hx : x.isNaN = false) (hfinite : x.isInf = false) :
    reading (x - x).abs = .zero .positive := by
  rw [isNaN_eq] at hx
  rw [isInf_eq] at hfinite
  have hzero : (UnpackedFloat.sub .binary64 (reading x) (reading x)) = .zero .positive := by
    cases hreading : reading x with
    | notANumber => simp [hreading, UnpackedFloat.isNaN] at hx
    | infinity => simp [hreading, UnpackedFloat.isInf] at hfinite
    | zero sign => cases sign <;> rfl
    | finite sign mantissa exponent hpositive =>
      simp only [UnpackedFloat.sub, Int.sub_self]
      rfl
  rw [reading_abs, reading_sub, hzero]
  rfl

theorem nearlyEqual_self (hx : x.isNaN = false) (hfinite : x.isInf = false) :
    nearlyEqual x x = true := by
  rw [nearlyEqual_iff, reading_abs_sub_self hx hfinite]
  exact zero_le (abs_reading_tolerance x x) (isNaN_reading_tolerance hx hx)

/-! ## Infinities -/

theorem exists_reading_of_isInf (h : x.isInf = true) : ∃ sign, reading x = .infinity sign := by
  rw [isInf_eq] at h
  cases hreading : reading x with
  | infinity sign => exact ⟨sign, rfl⟩
  | _ => simp [hreading, UnpackedFloat.isInf] at h

/-- Nothing is larger than the infinity. -/
theorem largerReading_infinity (hv : v.isNaN = false) :
    largerReading (.infinity .positive) v = .infinity .positive := by
  cases v with
  | notANumber => cases hv
  | infinity sign => cases sign <;> rfl
  | zero => rfl
  | finite => rfl

theorem stored_infinity (sign : UnpackedFloat.Sign) :
    stored (.infinity sign) = .infinity sign := by
  cases sign <;> rfl

theorem reading_tolerance_infinity (hx : x.isInf = true) (hy : y.isNaN = false) :
    reading (tolerance x y) = .infinity .positive := by
  obtain ⟨sign, hreading⟩ := exists_reading_of_isInf hx
  have habs : reading x.abs = .infinity .positive := by
    rw [reading_abs, hreading]
    exact stored_infinity .positive
  obtain ⟨mantissa, exponent, hpositive, hepsilon⟩ := exists_reading_epsilon
  rw [← isNaN_reading_abs] at hy
  have hscale : scaleReading x y = .infinity .positive := by
    unfold scaleReading
    rw [habs, largerReading_infinity hy, largerReading_infinity]
    decide +kernel
  rw [reading_tolerance, hscale, hepsilon]
  exact stored_infinity .positive

theorem abs_sub_infinity (sign : UnpackedFloat.Sign) (hv : v.isNaN = false) :
    (UnpackedFloat.sub .binary64 (.infinity sign) v).abs =
      if (UnpackedFloat.infinity sign).compare v = some .eq then .notANumber
      else .infinity .positive := by
  cases v with
  | notANumber => cases hv
  | infinity other => cases sign <;> cases other <;> rfl
  | zero => cases sign <;> simp [UnpackedFloat.sub, UnpackedFloat.abs, UnpackedFloat.compare]
  | finite => cases sign <;> simp [UnpackedFloat.sub, UnpackedFloat.abs, UnpackedFloat.compare]

/-- An infinity has no distance to itself, and an infinite one to all other numbers. -/
theorem reading_abs_sub_infinity (hx : x.isInf = true) (hy : y.isNaN = false) :
    reading (x - y).abs = if x == y then .notANumber else .infinity .positive := by
  obtain ⟨sign, hreading⟩ := exists_reading_of_isInf hx
  rw [isNaN_eq] at hy
  simp only [beq_iff, reading_abs, abs_stored, reading_sub, hreading, abs_sub_infinity sign hy]
  split
  · rfl
  · rfl

theorem nearlyEqual_infinity (hx : x.isInf = true) (hy : y.isNaN = false) :
    nearlyEqual x y = !(x == y) := by
  rw [Bool.eq_iff_iff, nearlyEqual_iff, reading_tolerance_infinity hx hy,
    reading_abs_sub_infinity hx hy]
  cases x == y <;> decide

/-! ## Equality of all numbers -/

/-- How equality holds between numbers. It is symmetric, and the other relation is its opposite. A
number is equal to itself if it is finite, and only then. An infinity is equal to all numbers that
are less or greater, and to no other. -/
theorem equality_of_numbers (hx : x.isNaN = false) (hy : y.isNaN = false) :
    Comparison.eq.holds x x = !x.isInf ∧
      Comparison.eq.holds x y = Comparison.eq.holds y x ∧
      Comparison.ne.holds x y = !Comparison.eq.holds x y ∧
      (x.isInf = true ∨ y.isInf = true →
        Comparison.eq.holds x y = !(x == y) ∧
        Comparison.eq.holds x y = (Comparison.lt.holds x y || Comparison.gt.holds x y)) := by
  refine ⟨?_, nearlyEqual_comm x y, rfl, fun hinfinite => ?_⟩
  · cases hinf : x.isInf with
    | true =>
      have hnan : x ≠ Float.nan := by simpa using hx
      have hself := nearlyEqual_infinity hinf hx
      rwa [Float.beq_self_iff.2 hnan] at hself
    | false => exact nearlyEqual_self hx hinf
  · have hequal : nearlyEqual x y = !(x == y) := by
      rcases hinfinite with hinf | hinf
      · exact nearlyEqual_infinity hinf hy
      · rw [nearlyEqual_comm, BEq.comm]
        exact nearlyEqual_infinity hinf hx
    exact ⟨hequal, hequal.trans (not_beq hx hy)⟩

/-- The infinity against one: it is equal to one, which is less, and not to itself. -/
theorem equality_of_infinity_and_one :
    Float.inf.isNaN = false ∧ (1 : Float).isNaN = false ∧
      Comparison.eq.holds Float.inf Float.inf = false ∧ Comparison.eq.holds Float.inf 1 = true := by
  have hinfinity : Float.inf.isNaN = false := by decide +kernel
  have hone : (1 : Float).isNaN = false := by decide +kernel
  have hinf : Float.inf.isInf = true := by decide +kernel
  obtain ⟨hself, -, -, hinfinite⟩ := equality_of_numbers hinfinity hone
  refine ⟨hinfinity, hone, ?_, ?_⟩
  · rw [hself, hinf]
    rfl
  · rw [(hinfinite (.inl hinf)).1]
    decide +kernel

/-- Equality does not treat the infinities as the order does. The infinity is not equal to itself,
although it is at most itself; and it is equal to one, although it is another number and is not at
most one. -/
theorem equality_departs_from_order_at_infinity :
    ∃ x y : Float, x.isNaN = false ∧ y.isNaN = false ∧ x.isInf = true ∧ (x == y) = false ∧
      (Comparison.eq.holds x x = false ∧ Comparison.le.holds x x = true) ∧
      (Comparison.eq.holds x y = true ∧ Comparison.le.holds x y = false) := by
  refine ⟨Float.inf, 1, ?_, ?_, ?_, ?_, ⟨?_, ?_⟩, ?_, ?_⟩ <;> decide +kernel

end CardRules.Comparison
