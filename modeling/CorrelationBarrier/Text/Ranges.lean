/-!
# Sets of code points as ranges

`covers rs c` decides whether `c` lies in one of the ascending ranges `rs`; `covers_iff` is its meaning.
-/

namespace CorrelationBarrier.Text

/-- Whether `c` lies in one of the ranges. They are given in ascending order, so a range above `c` ends the search. -/
def covers : List (Nat × Nat) → Nat → Bool
  | [], _ => false
  | (lo, hi) :: rest, c => if c < lo then false else decide (c ≤ hi) || covers rest c

theorem covers_iff {rs : List (Nat × Nat)} (h : rs.Pairwise fun p q => p.1 ≤ q.1) (c : Nat) :
    covers rs c = true ↔ ∃ p ∈ rs, p.1 ≤ c ∧ c ≤ p.2 := by
  induction rs with
  | nil => simp [covers]
  | cons p r ih =>
    rw [List.pairwise_cons] at h
    by_cases hc : c < p.1
    · have none_fits : ¬ ∃ q ∈ p :: r, q.1 ≤ c ∧ c ≤ q.2 := by
        rintro ⟨q, hq, hlo, _⟩
        rcases List.mem_cons.1 hq with rfl | hq
        · omega
        · have := h.1 q hq; omega
      simpa [covers, hc] using none_fits
    · have hlo : p.1 ≤ c := by omega
      simp [covers, hc, ih h.2, hlo]

end CorrelationBarrier.Text
