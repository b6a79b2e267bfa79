import Mathlib.Algebra.BigOperators.Ring.List
import Backtest.Proofs.Account.RoundTrips
import Backtest.Proofs.Scalar.Total

/-!
# Averages

An account keeps the average price of its position as it goes, and a trade has the average prices
of what was booked to it. Each of them is a mean with positive weights, and lies among the prices
that went into it.
-/

namespace Backtest

open Scalar

/-- Every bound of some numbers, of which there are any, bounds this one too. -/
structure Rational.Amid (xs : List ℚ) (x : ℚ) : Prop where
  ne_nil : xs ≠ []
  low : ∀ b, (∀ y ∈ xs, b ≤ y) → b ≤ x
  high : ∀ b, (∀ y ∈ xs, y ≤ b) → x ≤ b

namespace Rational

variable {xs : List ℚ} {x y v w : ℚ}

theorem Amid.between (h : Amid xs x) : Between (xs.map Extended.finite) (.finite x) :=
  Extended.between_finite h.ne_nil h.low h.high

theorem amid_singleton : Amid [x] x :=
  ⟨List.cons_ne_nil _ _, fun _ h => h x (List.mem_singleton_self x),
    fun _ h => h x (List.mem_singleton_self x)⟩

/-- The mean of an average and one more number. -/
theorem Amid.mix (h : Amid xs x) (hw : 0 ≤ w) (hv : 0 < v) :
    Amid (y :: xs) ((w * x + v * y) / (w + v)) := by
  have hsum : 0 < w + v := add_pos_of_nonneg_of_pos hw hv
  refine ⟨List.cons_ne_nil _ _, fun b hb => ?_, fun b hb => ?_⟩
  · obtain ⟨hy, hxs⟩ := List.forall_mem_cons.1 hb
    rw [le_div_iff₀ hsum, mul_add, mul_comm b w, mul_comm b v]
    gcongr
    exact h.low b hxs
  · obtain ⟨hy, hxs⟩ := List.forall_mem_cons.1 hb
    rw [div_le_iff₀ hsum, mul_add, mul_comm b w, mul_comm b v]
    gcongr
    exact h.high b hxs

end Rational

open Rational (Amid)

/-- What was booked has been traded at its average price. -/
theorem amid_bookings {bs : List (Booking ℚ)} (hne : bs ≠ []) (hpos : ∀ b ∈ bs, 0 < b.quantity) :
    Amid (bs.map (·.fill.price))
      (OpenTrade.average (bs.map (·.notional)).sum (bs.map (·.quantity)).sum) := by
  have hsum : 0 < (bs.map (·.quantity)).sum :=
    List.sum_pos _ (List.forall_mem_map.2 hpos) (by simpa using hne)
  rw [OpenTrade.average, if_pos (show nat 0 < _ from hsum)]
  refine ⟨by simpa using hne, fun b hb => ?_, fun b hb => ?_⟩
  · rw [le_div_iff₀ hsum, ← List.sum_map_mul_left]
    refine List.sum_le_sum fun booked hbooked => ?_
    rw [Booking.notional, mul_comm]
    exact mul_le_mul_of_nonneg_left (hb _ (List.mem_map_of_mem hbooked)) (hpos _ hbooked).le
  · rw [div_le_iff₀ hsum, ← List.sum_map_mul_left]
    refine List.sum_le_sum fun booked hbooked => ?_
    rw [Booking.notional, mul_comm b]
    exact mul_le_mul_of_nonneg_left (hb _ (List.mem_map_of_mem hbooked)) (hpos _ hbooked).le

namespace Ledger

variable {l : Ledger ℚ} {j : Journal ℚ} {f : Fill ℚ} {s : Split ℚ} {q d : ℚ}

/-- A position that has grown on its side has been added to by the whole fill. -/
theorem Divides.grown (h : Divides q d s) (hside : 0 < q * s.after) (hmore : |q| < |s.after|) :
    |s.after| = |q| + s.opening := by
  cases h with
  | along halong => exact abs_add_of_along halong
  | within hagainst hle =>
    obtain ⟨-, hless⟩ := settled_within hagainst hle (right_ne_zero_of_mul hside.ne')
    exact absurd hmore hless.not_gt
  | past hagainst hlt =>
    obtain ⟨hother, -⟩ := settled_past hagainst hlt (right_ne_zero_of_mul hside.ne')
    exact absurd hside hother.not_gt

/-- The average price after a fill lies among the prices of the fills that the position then is
built up by. -/
theorem Divides.averaged {p : Portfolio ℚ} (hdivides : Divides p.quantity f.quantity s)
    (hheld : j.held = p.quantity)
    (h : p.quantity ≠ 0 → Amid (j.builtBy.map (·.price)) p.averagePrice) (hafter : s.after ≠ 0) :
    Amid ((j.builtAfter f s.after).map (·.price)) (averageAfter p s f) := by
  have hsome : (s.after == nat 0) = false := by simpa using hafter
  simp only [averageAfter, Journal.builtAfter, hheld, hsome, Bool.false_eq_true, if_false]
  by_cases hnew : (p.quantity == nat 0 || !sameSide s.after p.quantity) = true
  · rw [if_pos hnew, if_pos hnew]
    exact Rational.amid_singleton
  · obtain ⟨hne, hside⟩ : p.quantity ≠ 0 ∧ 0 < s.after * p.quantity := by
      simpa [sameSide_iff_mul_pos] using hnew
    rw [if_neg hnew, if_neg hnew]
    by_cases hmore : Scalar.abs p.quantity < Scalar.abs s.after
    · have hgrown := hdivides.grown (mul_comm s.after _ ▸ hside) hmore
      have hopening : 0 < s.opening := by
        rw [Rational.abs_eq, Rational.abs_eq] at hmore
        linarith
      rw [if_pos hmore, if_pos hmore, Rational.abs_eq, Rational.abs_eq, hgrown]
      exact (h hne).mix (abs_nonneg _) hopening
    · rw [if_neg hmore, if_neg hmore]
      exact h hne

/-- The average price of a position lies among the prices that it was built up at. -/
def Averaged (l : Ledger ℚ) (j : Journal ℚ) : Prop :=
  l.portfolio.quantity ≠ 0 → Amid (j.builtBy.map (·.price)) l.portfolio.averagePrice

/-- Booking a fill in both keeps the average price among the prices. -/
theorem Averaged.apply (h : l.Averaged j) (hheld : j.held = l.portfolio.quantity) (f : Fill ℚ) :
    (l.apply f).Averaged (j.book f) := by
  by_cases hdust : Scalar.abs f.quantity < dust
  · rwa [apply_of_dust hdust, Journal.book_of_dust hdust]
  · rw [apply_of_not_dust hdust, Journal.book_of_not_dust hdust, hheld]
    exact (split_divides hdust).averaged hheld h

theorem averaged_ofFills (cash : ℚ) (fills : List (Fill ℚ)) :
    ((ofCash cash).applyAll fills).Averaged (.ofFills fills) := by
  have hfold (l : Ledger ℚ) (j : Journal ℚ) (hfollows : l.Follows j) (h : l.Averaged j) :
      (l.applyAll fills).Averaged (fills.foldl Journal.book j) := by
    induction fills generalizing l j with
    | nil => exact h
    | cons f fills ih => exact ih _ _ (hfollows.apply f) (h.apply hfollows.held f)
  exact hfold _ _ (follows_ofCash cash) fun h => absurd rfl h

end Ledger

/-- A trade tells of a round trip: it is on the side of it, runs from its first entry to its last
exit, and its prices are averages of the prices it was entered and left at. -/
structure Trade.TellsOf {α : Type} [Scalar α] (t : Trade α) (r : RoundTrip α) : Prop where
  side : t.side = r.side
  entryBar : r.entries.getLast?.map (·.fill.bar) = some t.entryBar
  exitBar : r.exits.head?.map (·.fill.bar) = some t.exitBar
  entryPrice : Between (r.entries.map (·.fill.price)) t.entryPrice
  exitPrice : Between (r.exits.map (·.fill.price)) t.exitPrice

theorem Trade.Sums.tellsOf {t : Trade ℚ} {r : RoundTrip ℚ} (h : t.Sums r) (hr : r.Sound) :
    t.exact.TellsOf r.exact := by
  obtain ⟨o, hsums, last, hlast, rfl⟩ := h
  have hentry := amid_bookings hr.entered fun b hb => (hr.entries b hb).1
  have hexit := amid_bookings (List.ne_nil_of_mem (List.mem_of_mem_head? hlast))
    fun b hb => (hr.exits b hb).1
  rw [← hsums.entryNotional, ← hsums.entryQuantity] at hentry
  rw [← hsums.exitNotional, ← hsums.exitQuantity] at hexit
  have hprices (bs : List (Booking ℚ)) :
      (bs.map Booking.exact).map (·.fill.price) = (bs.map (·.fill.price)).map .finite := by
    simp [Booking.exact, Fill.exact]
  refine ⟨hsums.side, ?_, ?_, hprices r.entries ▸ hentry.between, hprices r.exits ▸ hexit.between⟩
  · simpa [RoundTrip.exact, Booking.exact, Fill.exact, exact, OpenTrade.close] using hsums.begun
  · simp [RoundTrip.exact, Option.mem_def.1 hlast, Booking.exact, Fill.exact, exact,
      OpenTrade.close]

/-- In exact arithmetic, after any fills: the average price of a position lies between the least and
the greatest price of the fills that built it up, and the prices of every closed trade lie between
the least and the greatest price of its entries and of its exits. A fill that turns the position is
an exit of the trade that ends, with the part of it that closes what was held, and an entry of the
next one with the rest (`Journal.bookParts_of_past`). -/
theorem Ledger.averages_between (cash : ℚ) (fills : List (Fill ℚ)) :
    let l := (ofCash (.finite cash)).applyAll (fills.map Fill.exact)
    let j := Journal.ofFills (fills.map Fill.exact)
    (l.portfolio.isFlat = false →
      Between (j.builtBy.map (·.price)) l.portfolio.averagePrice) ∧
    List.Forall₂ Trade.TellsOf l.trades j.trips := by
  intro l j
  have hl : l = ((ofCash cash).applyAll fills).exact := applyAll_exact (ofCash cash) fills
  have hj : j = (Journal.ofFills fills).exact := Journal.ofFills_exact fills
  rw [hl, hj]
  constructor
  · intro hheld
    have hne : ((ofCash cash).applyAll fills).portfolio.quantity ≠ 0 := by
      simpa [Portfolio.isFlat, exact, Portfolio.exact] using hheld
    have hbetween := (averaged_ofFills cash fills hne).between
    rw [List.map_map] at hbetween
    rw [Journal.exact, List.map_map]
    exact hbetween
  · rw [trades_exact, Journal.trips_exact, List.forall₂_map_left_iff, List.forall₂_map_right_iff]
    exact (sound_trades cash fills).imp fun t r h => h.1.tellsOf h.2.1

def addedToAndTurned : List (Fill ℚ) :=
  [.plain 1 2 100, .plain 2 1 130, .plain 4 (-1) 150, .plain 5 (-5) 90, .plain 6 (-1) 80]

theorem Ledger.averages_between_addedToAndTurned :
    let l := (ofCash (.finite 1000)).applyAll (addedToAndTurned.map Fill.exact)
    let j := Journal.ofFills (addedToAndTurned.map Fill.exact)
    l.portfolio.averagePrice = .finite (175 / 2) ∧ l.trades.length = 1 ∧
      Between [.finite 80, .finite 90] l.portfolio.averagePrice ∧
      List.Forall₂ Trade.TellsOf l.trades j.trips := by
  intro l j
  have hheld : l.portfolio.isFlat = false := by decide +kernel
  have hbuilt : j.builtBy.map (·.price) = [.finite 80, .finite 90] := by decide +kernel
  obtain ⟨hposition, htrades⟩ := averages_between 1000 addedToAndTurned
  exact ⟨by decide +kernel, by decide +kernel, hbuilt ▸ hposition hheld, htrades⟩

end Backtest
