import Mathlib.Data.List.Basic
import Backtest.Metrics.Basic
import Backtest.Proofs.Metrics.Drawdown
import Backtest.Proofs.Scalar.Rational

/-!
# Figures of a flat curve

On an equity curve that never leaves one level, in exact arithmetic, return, risk-adjusted return
and drawdown are zero; at level zero too, where each of them takes its fallback.
-/

namespace Backtest.Metrics

open Extended Scalar

variable {level : ℚ} {n : ℕ}

theorem growth_self (h : nat 0 < finite level) :
    finite level / finite level - nat 1 = nat 0 := by
  have hlevel : level ≠ 0 := (show (0 : ℚ) < level by simpa using h).ne'
  rw [finite_div hlevel, div_self hlevel]
  simp

theorem totalReturnOf_replicate : totalReturnOf (.replicate n (finite level)) = nat 0 := by
  cases n with
  | zero => rfl
  | succ n =>
    have hhead : (List.replicate (n + 1) (finite level)).head? = some (finite level) := rfl
    have hlast : (List.replicate (n + 1) (finite level)).getLast? = some (finite level) := by
      simp [List.getLast?_replicate]
    rw [totalReturnOf, hhead, hlast]
    dsimp only
    split
    · exact growth_self (‹_ ∧ _›).2
    · rfl

theorem periodReturn_self : periodReturn (finite level) (finite level) = nat 0 := by
  unfold periodReturn
  split
  · exact growth_self ‹_›
  · rfl

theorem periodReturns_replicate :
    periodReturns (.replicate n (finite level)) = .replicate (n - 1) (nat 0) := by
  rw [periodReturns, List.drop_replicate, List.zipWith_replicate, periodReturn_self,
    Nat.min_eq_right (Nat.sub_le n 1)]

theorem total_replicate_zero : total (.replicate n (nat 0 : Extended)) = nat 0 := by
  have hstart : -nat 0 = (nat 0 : Extended) := by simp
  have hsum : nat 0 + nat 0 = (nat 0 : Extended) := by simp
  rw [total, hstart]
  induction n with
  | zero => rfl
  | succ n ih => rwa [List.replicate_succ, List.foldl_cons, hsum]

theorem zero_div_nat (h : n ≠ 0) : (nat 0 : Extended) / nat n = nat 0 := by
  have hn : (n : ℚ) ≠ 0 := Nat.cast_ne_zero.2 h
  rw [nat_eq_finite, nat_eq_finite, Rational.nat_eq, Rational.nat_eq, finite_div hn, Nat.cast_zero,
    zero_div]

theorem mean_replicate_zero : mean (.replicate n (nat 0 : Extended)) = nat 0 := by
  cases n with
  | zero => rfl
  | succ n =>
    rw [mean, total_replicate_zero, List.length_replicate, zero_div_nat (Nat.succ_ne_zero n)]
    rfl

section

variable [Powers Extended]

theorem deviation_replicate_zero (hsqrt : Powers.sqrt (nat 0 : Extended) = nat 0) :
    deviation (.replicate n (nat 0 : Extended)) = nat 0 := by
  have hsquare : ((nat 0 : Extended) - nat 0) * (nat 0 - nat 0) = nat 0 := by simp
  unfold deviation
  split
  · rfl
  · rename_i h
    rw [List.length_replicate, not_lt] at h
    simp only [mean_replicate_zero, List.map_replicate, hsquare, total_replicate_zero,
      List.length_replicate]
    rw [zero_div_nat (by omega), hsqrt]

theorem sharpeOf_replicate (hsqrt : Powers.sqrt (nat 0 : Extended) = nat 0)
    (barsPerYear : Extended) :
    sharpeOf (.replicate n (finite level)) barsPerYear = nat 0 := by
  have hleast : (nat 0 : Extended) < leastDeviation := by decide
  rw [sharpeOf, periodReturns_replicate, deviation_replicate_zero hsqrt]
  exact if_pos (.inr hleast)

end

theorem maxDrawdownOf_replicate : maxDrawdownOf (.replicate n (finite level)) = nat 0 := by
  have hnone : ∀ fall ∈ falls (.replicate n level), fall ≤ 0 := by
    rintro fall ⟨i, j, x, y, -, hi, hj, -, rfl⟩
    obtain rfl := List.eq_of_mem_replicate (List.mem_of_getElem? hi)
    obtain rfl := List.eq_of_mem_replicate (List.mem_of_getElem? hj)
    simp
  rw [← List.map_replicate, maxDrawdownOf_exact, maxDrawdownOf_eq_zero_iff.2 hnone]
  rfl

end Backtest.Metrics
