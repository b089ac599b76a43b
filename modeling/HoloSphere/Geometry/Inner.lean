import Mathlib.Analysis.CStarAlgebra.Classes
import Mathlib.Analysis.SpecialFunctions.Trigonometric.Inverse

/-! # Real inner products of complex coordinates

A vector is a family of complex numbers, and an inner product runs over finitely many of its
places.  Two vectors that point away from a common axis by known angles are at least the
difference of these angles apart, also if the axis is slightly longer than a unit vector.
-/

namespace HoloSphere.Geometry
open Real Finset
variable {ι : Type} (places : Finset ι) (a b c : ι → ℂ)

def dot : ℝ := ∑ i ∈ places, ((a i).re * (b i).re + (a i).im * (b i).im)

noncomputable def size : ℝ := √(dot places a a)

theorem dot_comm : dot places a b = dot places b a := by
  simp [dot, mul_comm]

theorem dot_sub_right : dot places a (b - c) = dot places a b - dot places a c := by
  simp only [dot, ← sum_sub_distrib, Pi.sub_apply, Complex.sub_re, Complex.sub_im]
  exact sum_congr rfl fun i _ => by ring

theorem dot_smul_right (r : ℝ) : dot places a (r • b) = r * dot places a b := by
  simp only [dot, mul_sum, Pi.smul_apply, Complex.smul_re, Complex.smul_im, smul_eq_mul]
  exact sum_congr rfl fun i _ => by ring

theorem dot_sub_left : dot places (a - b) c = dot places a c - dot places b c := by
  rw [dot_comm, dot_sub_right, dot_comm _ c a, dot_comm _ c b]

theorem dot_smul_left (r : ℝ) : dot places (r • a) b = r * dot places a b := by
  rw [dot_comm, dot_smul_right, dot_comm]

theorem dot_self_eq : dot places a a = ∑ i ∈ places, ‖a i‖ ^ 2 := by
  simp [dot, ← Complex.normSq_eq_norm_sq, Complex.normSq_apply]

theorem dot_self_nonneg : 0 ≤ dot places a a := by
  rw [dot_self_eq]
  exact sum_nonneg fun i _ => sq_nonneg _

theorem size_nonneg : 0 ≤ size places a := sqrt_nonneg _

theorem size_sq : size places a ^ 2 = dot places a a := sq_sqrt (dot_self_nonneg places a)

theorem size_mul_self : size places a * size places a = dot places a a :=
  mul_self_sqrt (dot_self_nonneg places a)

theorem size_smul : size places (r • a) = |r| * size places a := by
  rw [size, dot_smul_left, dot_smul_right, ← mul_assoc, sqrt_mul (mul_self_nonneg r),
    sqrt_mul_self_eq_abs, size]

variable {places a b c}

theorem dot_congr (left : ∀ i ∈ places, a i = x i) (right : ∀ i ∈ places, b i = y i) :
    dot places a b = dot places x y :=
  sum_congr rfl fun i hin => by rw [left i hin, right i hin]

theorem size_le_one : size places a ≤ 1 ↔ dot places a a ≤ 1 := by
  rw [size, sqrt_le_one]

/-- The inequality of Cauchy and Schwarz. -/
theorem dot_le_size_mul_size (places : Finset ι) (a b : ι → ℂ) :
    dot places a b ≤ size places a * size places b := by
  have single : ∀ i ∈ places, (a i).re * (b i).re + (a i).im * (b i).im ≤ ‖a i‖ * ‖b i‖ := by
    intro i _
    have part := Complex.re_le_norm (a i * (starRingEnd ℂ) (b i))
    simpa [Complex.mul_re] using part
  calc dot places a b ≤ ∑ i ∈ places, ‖a i‖ * ‖b i‖ := sum_le_sum single
    _ ≤ √(∑ i ∈ places, ‖a i‖ ^ 2) * √(∑ i ∈ places, ‖b i‖ ^ 2) :=
        sum_mul_le_sqrt_mul_sqrt places _ _
    _ = size places a * size places b := by rw [size, size, dot_self_eq, dot_self_eq]

theorem dot_le_one (left : dot places a a ≤ 1) (right : dot places b b ≤ 1) : dot places a b ≤ 1 :=
  calc dot places a b ≤ size places a * size places b := dot_le_size_mul_size places a b
    _ ≤ 1 := mul_le_one₀ (size_le_one.mpr left) (size_nonneg places b) (size_le_one.mpr right)

theorem dot_sq_le (a b : ι → ℂ) : dot places a b ^ 2 ≤ dot places a a * dot places b b := by
  have upper := dot_le_size_mul_size places a b
  have lower := dot_le_size_mul_size places ((-1 : ℝ) • a) b
  rw [dot_smul_left, size_smul, abs_neg, abs_one, one_mul] at lower
  calc dot places a b ^ 2 ≤ (size places a * size places b) ^ 2 := sq_le_sq' (by linarith) upper
    _ = dot places a a * dot places b b := by rw [mul_pow, size_sq, size_sq]

/-- The places of one block, of which the last may be short. -/
def block (width dim b : ℕ) : Finset ℕ := Ico (width * b) (min (width * b + width) dim)

theorem sum_blocks (f : ℕ → ℝ) : ∑ b ∈ range count, ∑ i ∈ block width dim b, f i =
      ∑ i ∈ range (min (width * count) dim), f i := by
  induction count with
  | zero => simp
  | succ count ih =>
    have next : block width dim count =
        Ico (min (width * count) dim) (min (width * (count + 1)) dim) := by
      ext i
      simp only [block, mem_Ico, Nat.mul_succ]
      omega
    rw [sum_range_succ, ih, next, sum_range_add_sum_Ico]
    exact min_le_min_right dim (Nat.mul_le_mul_left width (Nat.le_succ count))

theorem sum_dot_blocks (enough : dim ≤ width * count) (a b : ℕ → ℂ) :
    ∑ k ∈ range count, dot (block width dim k) a b = dot (range dim) a b := by
  simp [dot, sum_blocks, min_eq_right enough]

/-- The cosine of the difference of two angles with the given cosines. -/
noncomputable def capBound (s t : ℝ) : ℝ := s * t + √(max 0 (1 - s * s)) * √(max 0 (1 - t * t))

theorem capBound_eq_cos (s_lower : -1 ≤ s) (s_upper : s ≤ 1) (t_lower : -1 ≤ t) (t_upper : t ≤ 1) :
    capBound s t = cos (arccos s - arccos t) := by
  have room : ∀ x : ℝ, -1 ≤ x → x ≤ 1 → max 0 (1 - x * x) = 1 - x ^ 2 := by
    intro x lower upper
    rw [max_eq_right (by nlinarith)]
    ring
  rw [capBound, room s s_lower s_upper, room t t_lower t_upper, cos_sub,
    cos_arccos s_lower s_upper, cos_arccos t_lower t_upper, sin_arccos,
    sin_arccos]

/-- Above `s` the bound falls as the second cosine grows. -/
theorem capBound_anti (s_lower : -1 ≤ s) (s_le : s ≤ t) (t_le : t ≤ u) (u_upper : u ≤ 1) :
    capBound s u ≤ capBound s t := by
  rw [capBound_eq_cos s_lower (by linarith) (by linarith) u_upper,
    capBound_eq_cos s_lower (by linarith) (by linarith) (by linarith)]
  have near := arccos_le_arccos s_le
  have far := arccos_le_arccos t_le
  have wide := arccos_le_pi s
  have narrow := arccos_nonneg u
  exact cos_le_cos_of_nonneg_of_le_pi (by linarith) (by linarith) (by linarith)

/-- Two vectors of at most unit length, seen from an axis. -/
theorem dot_le_of_axis (pos : 0 < dot places c c) (left : dot places a a ≤ 1)
    (right : dot places b b ≤ 1) :
    dot places a b ≤ dot places a c * dot places b c / dot places c c +
      √(1 - dot places a c ^ 2 / dot places c c) * √(1 - dot places b c ^ 2 / dot places c c) := by
  set n := dot places c c with axis
  -- the parts of the two vectors that are orthogonal to the axis
  let rest : (ι → ℂ) → ι → ℂ := fun x => x - (dot places x c / n) • c
  have expand : ∀ x y, dot places (rest x) (rest y) =
      dot places x y - dot places x c * dot places y c / n := by
    intro x y
    simp only [rest, dot_sub_left, dot_sub_right, dot_smul_left, dot_smul_right,
      dot_comm places c y, ← axis]
    field_simp
    ring
  have short : ∀ x, dot places x x ≤ 1 → size places (rest x) ≤ √(1 - dot places x c ^ 2 / n) := by
    intro x unit
    rw [size, expand]
    exact sqrt_le_sqrt (by rw [← sq]; linarith)
  have schwarz := dot_le_size_mul_size places (rest a) (rest b)
  rw [expand] at schwarz
  have product := mul_le_mul (short a left) (short b right) (size_nonneg _ _) (sqrt_nonneg _)
  linarith

/-- What the root grows by if its argument does. -/
theorem sqrt_le_add_of_le (nonneg : 0 ≤ η) (less : x ≤ y + η ^ 2) : √x ≤ √(max 0 y) + η := by
  rw [sqrt_le_left (add_nonneg (sqrt_nonneg _) nonneg), add_sq, sq_sqrt (le_max_left 0 y)]
  have cross : 0 ≤ 2 * √(max 0 y) * η := by positivity
  have bigger := le_max_right 0 y
  linarith

/-- Cosines that are divided by a length of little more than one. -/
theorem capBound_div_le (long : 1 ≤ r) (nonneg : 0 ≤ η) (small : η ≤ 1) (short : r * r ≤ 1 + η ^ 2)
    (fst : s ^ 2 ≤ r * r) (snd : t ^ 2 ≤ r * r) :
    capBound (s / r) (t / r) ≤ capBound s t + 4 * η := by
  have pos : 0 < r * r := by nlinarith
  have quotient : ∀ x y : ℝ, x / r * (y / r) = x * y / (r * r) := fun x y => div_mul_div_comm ..
  have shrunk : ∀ x : ℝ, x = x / (r * r) + x / (r * r) * (r * r - 1) := by
    intro x
    field_simp
    ring
  have product : s * t / (r * r) ≤ s * t + η ^ 2 := by
    have least : -1 ≤ s * t / (r * r) := by
      rw [le_div_iff₀ pos]
      nlinarith [sq_nonneg (s + t)]
    have change : 0 ≤ (s * t / (r * r) + 1) * (r * r - 1) := mul_nonneg (by linarith) (by nlinarith)
    linarith [shrunk (s * t)]
  have root : ∀ x : ℝ, x ^ 2 ≤ r * r →
      √(max 0 (1 - x / r * (x / r))) ≤ √(max 0 (1 - x * x)) + η := by
    intro x square
    have part : x * x / (r * r) ≤ 1 := (div_le_one pos).mpr (by rwa [← sq])
    have change : 0 ≤ (1 - x * x / (r * r)) * (r * r - 1) := mul_nonneg (by linarith) (by nlinarith)
    rw [quotient, max_eq_right (by linarith)]
    exact sqrt_le_add_of_le nonneg (by linarith [shrunk (x * x)])
  have bounded : ∀ x : ℝ, √(max 0 (1 - x * x)) ≤ 1 := by
    intro x
    rw [sqrt_le_one, max_le_iff]
    exact ⟨zero_le_one, by linarith [mul_self_nonneg x]⟩
  have roots := mul_le_mul (root s fst) (root t snd) (sqrt_nonneg _)
    (add_nonneg (sqrt_nonneg _) nonneg)
  rw [capBound, capBound, quotient]
  nlinarith [bounded s, bounded t]

/-- The bound of a cap: every vector in it is at least as close to the axis as `t` says.  An axis
    that is longer than a unit vector, by at most `η ^ 2` in its square, costs a little. -/
theorem dot_le_capBound (long : 1 ≤ dot places c c) (nonneg : 0 ≤ η) (small : η ≤ 1)
    (short : dot places c c ≤ 1 + η ^ 2) (left : dot places a a ≤ 1) (right : dot places b b ≤ 1)
    (lower : -1 ≤ t) (upper : t ≤ 1) (outside : dot places a c < t) (hin : t ≤ dot places b c) :
    dot places a b ≤ capBound (dot places a c) t + 4 * η := by
  have pos : 0 < dot places c c := by linarith
  set r := size places c with length
  have r_sq : r * r = dot places c c := size_mul_self places c
  have r_long : 1 ≤ r := one_le_sqrt.mpr long
  have r_pos : 0 < r := by linarith
  have bounded : ∀ x, dot places x x ≤ 1 → dot places x c ^ 2 ≤ r * r := by
    intro x unit
    calc dot places x c ^ 2 ≤ dot places x x * dot places c c := dot_sq_le x c
      _ ≤ 1 * dot places c c := mul_le_mul_of_nonneg_right unit pos.le
      _ = r * r := by rw [one_mul, r_sq]
  have scaled : ∀ x, dot places x x ≤ 1 → -1 ≤ dot places x c / r ∧ dot places x c / r ≤ 1 := by
    intro x unit
    have reach := abs_le.mp (abs_le_of_sq_le_sq ((bounded x unit).trans_eq (sq r).symm) r_pos.le)
    rw [le_div_iff₀ r_pos, div_le_iff₀ r_pos]
    exact ⟨by linarith, by linarith⟩
  -- seen from the unit vector along the axis, both cosines are divided by its length
  have seen : dot places a b ≤ capBound (dot places a c / r) (dot places b c / r) := by
    have room : ∀ x, dot places x x ≤ 1 → max 0 (1 - dot places x c / r * (dot places x c / r)) =
          1 - dot places x c ^ 2 / dot places c c := by
      intro x unit
      rw [div_mul_div_comm, ← sq, r_sq, max_eq_right]
      rw [sub_nonneg, div_le_one pos, ← r_sq]
      exact bounded x unit
    rw [capBound, room a left, room b right, div_mul_div_comm, r_sq]
    exact dot_le_of_axis pos left right
  calc dot places a b ≤ capBound (dot places a c / r) (dot places b c / r) := seen
    _ ≤ capBound (dot places a c / r) (t / r) :=
        capBound_anti (scaled a left).1 (div_le_div_of_nonneg_right outside.le r_pos.le)
          (div_le_div_of_nonneg_right hin r_pos.le) (scaled b right).2
    _ ≤ capBound (dot places a c) t + 4 * η :=
        capBound_div_le r_long nonneg small (r_sq ▸ short) (bounded a left) (by nlinarith)

end HoloSphere.Geometry
