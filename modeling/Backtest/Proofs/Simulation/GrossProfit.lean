import Backtest.Proofs.Account.Averages
import Backtest.Proofs.Simulation.Fills
import Backtest.Proofs.Simulation.Finiteness

/-!
# Profit before costs

With its commission and its slippage added back, the profit of a closed trade is what its round
trip brings at raw opening prices. Slippage is in the prices of the fills, dearer purchases and
cheaper sales, so adding it back undoes it once for each entry and each exit, on either side.
-/

namespace Backtest

open Extended Scalar

theorem Side.abs_sign_mul (t : Side) (x : ℚ) : |t.sign * x| = |x| := by
  cases t <;> simp [sign]

/-- What some bookings come to at the raw opening prices of their bars. -/
def atOpenings {α : Type} [Scalar α] (bars : List (Bar α)) (bookings : List (Booking α)) : α :=
  total (bookings.map fun b => b.quantity * openingAt bars b.fill.bar)

variable {bars : List (Bar Extended)} {sign : ℚ}

structure Booking.Signed (bars : List (Bar Extended)) (sign : ℚ) (b : Booking ℚ) : Prop where
  ne_zero : b.fill.quantity ≠ 0
  abs_eq : |b.fill.quantity| = sign * b.fill.quantity
  slips : b.fill.SlipsFrom bars

/-- At the raw opening price a booking comes to its notional without its slippage. -/
theorem Booking.Signed.atOpening {b : Booking ℚ} (h : b.Signed bars sign) :
    b.exact.quantity * openingAt bars b.exact.fill.bar =
      .finite (b.notional - sign * b.slippage) := by
  obtain ⟨hne, habs, opening, hopening, hslips⟩ := h
  have hsign : sign ≠ 0 := fun hzero => abs_ne_zero.2 hne (by rw [habs, hzero, zero_mul])
  have hslippage : sign * b.slippage = b.quantity * (b.fill.price - opening) := by
    rw [slippage, share, hslips, Rational.abs_eq, habs]
    field_simp
  have hbar : openingAt bars b.exact.fill.bar = .finite opening := hopening
  rw [hbar, hslippage, notional, Booking.exact, finite_mul]
  congr 1
  ring

theorem atOpenings_exact {bs : List (Booking ℚ)} (h : ∀ b ∈ bs, b.Signed bars sign) :
    atOpenings bars (bs.map Booking.exact) =
      .finite ((bs.map (·.notional)).sum - sign * (bs.map (·.slippage)).sum) := by
  have hmap : (bs.map Booking.exact).map (fun b => b.quantity * openingAt bars b.fill.bar) =
      (bs.map fun b => b.notional - sign * b.slippage).map .finite := by
    rw [List.map_map, List.map_map]
    exact List.map_congr_left fun b hb => (h b hb).atOpening
  have hsum : (bs.map fun b => b.notional - sign * b.slippage).sum =
      (bs.map (·.notional)).sum - sign * (bs.map (·.slippage)).sum := by
    rw [← List.sum_map_mul_left]
    exact Multiset.sum_map_sub (m := (bs : Multiset (Booking ℚ)))
  rw [atOpenings, hmap, total_finite, hsum]

/-- The profit of a trade before costs is what its exits come to at raw opening prices, less what
its entries come to, on its side. -/
theorem Trade.Sums.gross_profit {t : Trade ℚ} {r : RoundTrip ℚ} {fills : List (Fill ℚ)}
    (h : t.Sums r) (hr : r.Sound) (hmade : r.MadeOf fills)
    (hslips : ∀ f ∈ fills, f.SlipsFrom bars) :
    t.exact.profit + t.exact.commission + t.exact.slippage =
      r.side.sign * (atOpenings bars r.exact.exits - atOpenings bars r.exact.entries) := by
  obtain ⟨o, hsums, last, -, rfl⟩ := h
  obtain ⟨hentered, hleft⟩ := List.forall_mem_append.1 hmade
  have hentries (b : Booking ℚ) (hb : b ∈ r.entries) : b.Signed bars r.side.sign := by
    obtain ⟨-, hside⟩ := hr.entries b hb
    refine ⟨right_ne_zero_of_mul hside.ne', ?_, hslips _ (hentered b hb)⟩
    rw [← r.side.abs_sign_mul, abs_of_pos hside]
  have hexits (b : Booking ℚ) (hb : b ∈ r.exits) : b.Signed bars (-r.side.sign) := by
    obtain ⟨-, hside⟩ := hr.exits b hb
    refine ⟨right_ne_zero_of_mul hside.ne, ?_, hslips _ (hleft b hb)⟩
    rw [← r.side.abs_sign_mul, abs_of_neg hside, neg_mul]
  have hsquare : r.side.sign * r.side.sign = (1 : ℚ) := by cases r.side <;> simp [Side.sign]
  simp only [RoundTrip.exact, atOpenings_exact hentries, atOpenings_exact hexits, Trade.exact,
    OpenTrade.close, Side.sign_exact, finite_add, finite_sub, finite_mul]
  congr 1
  rw [hsums.side, hsums.entryNotional, hsums.exitNotional, hsums.slippage]
  linear_combination -((r.entries.map (·.slippage)).sum + (r.exits.map (·.slippage)).sum) * hsquare

namespace Simulation

variable {start : ℕ} {strategy : Strategy Extended} {assigned : Parameter.Assignment Extended}
  {costs : Costs Extended}

/-- In exact arithmetic, for every run that gives a result: its trades are those of a ledger that
books its fills, and each tells of the round trip that these were booked to. What it shows as
profit, with its commission and its slippage added back, is what was booked as its exits at the raw
opening prices of their bars, less what was booked as its entries; for a short trade, the negative
of it. Of a fill that turns the position, the trade that ends has the part that closes what was held
booked, and the trade that begins the rest (`Journal.bookParts_of_past`). -/
theorem profit_before_costs (bars : List (Bar Extended)) (start : ℕ)
    (strategy : Strategy Extended) (assigned : Parameter.Assignment Extended)
    (costs : Costs Extended) (sim : Simulation Extended)
    (h : runFrom bars start strategy assigned costs = .ok sim) :
    let booked := fills bars start strategy assigned costs
    sim.trades = ((Ledger.ofCash costs.startingCash).applyAll booked).trades ∧
    List.Forall₂
      (fun t r => t.TellsOf r ∧ t.profit + t.commission + t.slippage =
        r.side.sign * (atOpenings bars r.exits - atOpenings bars r.entries))
      sim.trades (Journal.ofFills booked).trips := by
  intro booked
  have htrades : sim.trades = ((Ledger.ofCash costs.startingCash).applyAll booked).trades :=
    trades_eq_applyAll h
  refine ⟨htrades, ?_⟩
  obtain ⟨setup, hprepare, -⟩ := runFrom_eq_ok_iff.1 h
  obtain ⟨c, rfl, hc⟩ := Costs.exists_exact (prepare_eq_ok_iff.1 hprepare).1
  obtain ⟨qs, hqs, hslips⟩ : ∃ qs : List (Fill ℚ), booked = qs.map Fill.exact ∧
      ∀ q ∈ qs, q.SlipsFrom bars :=
    fills_exact hc
  have hledger : (Ledger.ofCash c.exact.startingCash).applyAll (qs.map Fill.exact) =
      ((Ledger.ofCash c.startingCash).applyAll qs).exact :=
    Ledger.applyAll_exact (.ofCash c.startingCash) qs
  rw [htrades, hqs, hledger, Ledger.trades_exact, Journal.ofFills_exact, Journal.trips_exact,
    List.forall₂_map_left_iff, List.forall₂_map_right_iff]
  refine (Ledger.sound_trades c.startingCash qs).imp fun t r ⟨hsums, hsound, hmade⟩ => ?_
  exact ⟨hsums.tellsOf hsound, hsums.gross_profit hsound hmade hslips⟩

def tilting : Strategy Extended where
  name := "tilting"
  decide history _ :=
    .ok (match history.length with
      | 1 => .target (finite 1)
      | 2 => .target (finite 2)
      | 3 => .target (finite (1 / 2))
      | 4 => .target (finite (-1))
      | 5 => .long
      | 6 => .flat
      | _ => .hold)

def seesaw : List (Bar Extended) :=
  [.still 2 (finite 100), .still 3 (finite 110), .still 4 (finite 90), .still 5 (finite 120),
    .still 8 (finite 80), .still 9 (finite 70), .still 10 (finite 105)]

/-- A long trade with two entries and two exits, the second of which goes on into a short one, from
which the next purchase goes on into a long one. -/
theorem profit_before_costs_seesaw :
    ∃ sim, runFrom seesaw 0 tilting .empty lent = .ok sim ∧
      sim.trades.map (·.side) = [.long, .short, .long] ∧
      let booked := fills seesaw 0 tilting .empty lent
      booked.length = 6 ∧
      (Journal.ofFills booked).trips.map (fun r => (r.entries.length, r.exits.length)) =
        [(2, 2), (1, 1), (1, 1)] ∧
      sim.trades = ((Ledger.ofCash lent.startingCash).applyAll booked).trades ∧
      List.Forall₂
        (fun t r => t.TellsOf r ∧ t.profit + t.commission + t.slippage =
          r.side.sign * (atOpenings seesaw r.exits - atOpenings seesaw r.entries))
        sim.trades (Journal.ofFills booked).trips := by
  have hsides : (runFrom seesaw 0 tilting .empty lent).toOption.map
      (·.trades.map (·.side)) = some [.long, .short, .long] := by
    decide +kernel
  obtain ⟨sim, hsim, hsides⟩ := Option.map_eq_some_iff.1 hsides
  have hrun := toOption_eq_some_iff.1 hsim
  exact ⟨sim, hrun, hsides, by decide +kernel, by decide +kernel,
    profit_before_costs seesaw 0 tilting .empty lent sim hrun⟩

end Simulation

end Backtest
