import Mathlib.Algebra.Polynomial.Div
import Mathlib.Algebra.Polynomial.RingDivision

namespace Lrcp.Framework

open Polynomial

variable {R σ β : Type} [CommRing R]

/-- The polynomial of a sequence of coefficients, the highest one first. -/
noncomputable def sequencePoly : List R → R[X]
  | [] => 0
  | b :: bs => C b * X ^ bs.length + sequencePoly bs

/-- A register that takes one symbol after the other and keeps the remainder up
to a multiple of `P` computes a polynomial division: what it holds in the end
is the remainder of what it held at first, followed by the sequence and `n` zeros. -/
theorem register_remainder {P : R[X]} (hP : P.Monic) {n : Nat} {poly : σ → R[X]} {coeff : β → R}
    {step : σ → β → σ} (hdegree : ∀ s, (poly s).degree < P.degree)
    (hstep : ∀ s b, P ∣ poly (step s b) - (X * poly s + C (coeff b) * X ^ n)) (s : σ) (bs : List β) :
    poly (bs.foldl step s) = (poly s * X ^ bs.length + sequencePoly (bs.map coeff) * X ^ n) %ₘ P := by
  have hdvd : ∀ s, P ∣ poly (bs.foldl step s) -
      (poly s * X ^ bs.length + sequencePoly (bs.map coeff) * X ^ n) := by
    induction bs with
    | nil => intro s; simp [sequencePoly]
    | cons b bs ih =>
      intro s
      have hsplit : poly (bs.foldl step (step s b)) -
          (poly s * X ^ (b :: bs).length + sequencePoly ((b :: bs).map coeff) * X ^ n) =
          (poly (bs.foldl step (step s b)) -
            (poly (step s b) * X ^ bs.length + sequencePoly (bs.map coeff) * X ^ n)) +
          (poly (step s b) - (X * poly s + C (coeff b) * X ^ n)) * X ^ bs.length := by
        rw [List.map_cons, sequencePoly, List.length_map, List.length_cons, pow_succ]
        ring
      rw [List.foldl_cons, hsplit]
      exact dvd_add (ih (step s b)) (Dvd.dvd.mul_right (hstep s b) _)
  by_cases hR : Nontrivial R
  · rw [← modByMonic_eq_of_dvd_sub hP (hdvd s)]
    exact ((modByMonic_eq_self_iff hP).mpr (hdegree _)).symm
  · rw [not_nontrivial_iff_subsingleton] at hR
    exact Subsingleton.elim _ _

end Lrcp.Framework
