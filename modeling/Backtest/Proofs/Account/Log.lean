import Backtest.Account.Ledger
import Backtest.Proofs.Market.Order

/-!
# What one fill does to the trade log

A fill ends the open trade or lets it go on, and it opens a trade only where none is left. This
holds of any arithmetic: it reads the log alone, not the quantities that decide between the cases.
-/

namespace Backtest

variable {α : Type}

/-- A fill without costs on a day of January 2024, for the signal of the day before. -/
def Fill.plain [Scalar α] (day : Nat) (quantity price : α) : Fill α where
  bar := day
  time := .january day
  signalTime := .january (day - 1)
  quantity
  price
  commission := Scalar.nat 0
  slippage := Scalar.nat 0

namespace OpenTrade

/-- The same round trip at a later time: what was fixed at its opening has stayed. -/
structure Continues (o o' : OpenTrade α) : Prop where
  side : o'.side = o.side
  signalTime : o'.signalTime = o.signalTime
  entryBar : o'.entryBar = o.entryBar
  entryTime : o'.entryTime = o.entryTime

theorem Continues.refl (o : OpenTrade α) : o.Continues o := ⟨rfl, rfl, rfl, rfl⟩

theorem Continues.trans {o o' o'' : OpenTrade α} (h : o.Continues o') (h' : o'.Continues o'') :
    o.Continues o'' :=
  ⟨h'.side.trans h.side, h'.signalTime.trans h.signalTime, h'.entryBar.trans h.entryBar,
    h'.entryTime.trans h.entryTime⟩

/-- The round trip began with this fill. -/
structure OpenedBy (o : OpenTrade α) (f : Fill α) : Prop where
  signalTime : o.signalTime = f.signalTime
  entryBar : o.entryBar = f.bar
  entryTime : o.entryTime = f.time

theorem OpenedBy.continues {o o' : OpenTrade α} {f : Fill α} (h : o.OpenedBy f)
    (h' : o.Continues o') : o'.OpenedBy f :=
  ⟨h'.signalTime.trans h.signalTime, h'.entryBar.trans h.entryBar,
    h'.entryTime.trans h.entryTime⟩

end OpenTrade

/-- The closed trade is this round trip, ended by this fill. -/
structure Trade.Closes (t : Trade α) (o : OpenTrade α) (f : Fill α) : Prop where
  side : t.side = o.side
  signalTime : t.signalTime = o.signalTime
  entryBar : t.entryBar = o.entryBar
  entryTime : t.entryTime = o.entryTime
  exitBar : t.exitBar = f.bar
  exitTime : t.exitTime = f.time

namespace Ledger

variable [Scalar α] {l : Ledger α} {s : Split α} {f : Fill α}

def raisePeak (s : Split α) (o : OpenTrade α) : OpenTrade α :=
  { o with peakQuantity := Scalar.larger o.peakQuantity (Scalar.abs s.after) }

def openPart (s : Split α) (f : Fill α) (remaining : Option (OpenTrade α)) :
    Option (OpenTrade α) :=
  (if dust < s.opening then some (bookEntry s f remaining) else remaining).map (raisePeak s)

def splitOf (l : Ledger α) (f : Fill α) : Split α := split l.portfolio.quantity f.quantity

theorem split_opening (held quantity : α) :
    (split held quantity).opening = Scalar.abs quantity - (split held quantity).closing := rfl

theorem split_after (held quantity : α) :
    (split held quantity).after =
      if Scalar.abs (held + quantity) < dust then Scalar.nat 0 else held + quantity := rfl

theorem apply_of_dust (h : Scalar.abs f.quantity < dust) : l.apply f = l := if_pos h

/-- A fill of more than dust, part by part. -/
theorem apply_of_not_dust (h : ¬Scalar.abs f.quantity < dust) :
    l.apply f =
      { portfolio :=
          { l.portfolio with
            cash := l.portfolio.cash - (f.quantity * f.price + f.commission)
            quantity := (l.splitOf f).after
            averagePrice := averageAfter l.portfolio (l.splitOf f) f }
        openTrade := openPart (l.splitOf f) f (l.closePart (l.splitOf f) f).1
        closedTrades := (l.closePart (l.splitOf f) f).2
        totalCommission := l.totalCommission + f.commission
        totalSlippage := l.totalSlippage + f.slippage } :=
  if_neg h

theorem cash_apply (h : ¬Scalar.abs f.quantity < dust) :
    (l.apply f).portfolio.cash =
      l.portfolio.cash - (f.quantity * f.price + f.commission) := by
  rw [apply_of_not_dust h]

theorem quantity_apply (h : ¬Scalar.abs f.quantity < dust) :
    (l.apply f).portfolio.quantity =
      if Scalar.abs (l.portfolio.quantity + f.quantity) < dust then Scalar.nat 0
      else l.portfolio.quantity + f.quantity := by
  rw [apply_of_not_dust h]
  rfl

def applyAll (l : Ledger α) (fills : List (Fill α)) : Ledger α := fills.foldl apply l

@[simp] theorem applyAll_nil (l : Ledger α) : l.applyAll [] = l := rfl

@[simp] theorem applyAll_cons (l : Ledger α) (f : Fill α) (fills : List (Fill α)) :
    l.applyAll (f :: fills) = (l.apply f).applyAll fills := rfl

theorem continues_bookExit (o : OpenTrade α) : o.Continues (bookExit s f o) :=
  ⟨rfl, rfl, rfl, rfl⟩

theorem continues_bookEntry (o : OpenTrade α) : o.Continues (bookEntry s f (some o)) :=
  ⟨rfl, rfl, rfl, rfl⟩

theorem openedBy_bookEntry : (bookEntry s f none).OpenedBy f := ⟨rfl, rfl, rfl⟩

theorem continues_raisePeak (o : OpenTrade α) : o.Continues (raisePeak s o) :=
  ⟨rfl, rfl, rfl, rfl⟩

theorem closes_close {o o' : OpenTrade α} (h : o.Continues o') :
    (o'.close f.bar f.time).Closes o f :=
  ⟨h.side, h.signalTime, h.entryBar, h.entryTime, rfl, rfl⟩

/-- The closing part of a fill keeps the open trade or moves it to the closed ones. -/
theorem closePart_cases (l : Ledger α) (s : Split α) (f : Fill α) :
    ((l.closePart s f).2 = l.closedTrades ∧
      (∀ o' ∈ (l.closePart s f).1, ∃ o ∈ l.openTrade, o.Continues o') ∧
      ((l.closePart s f).1 = none → l.openTrade = none)) ∨
    ((l.closePart s f).1 = none ∧
      ∃ o ∈ l.openTrade, ∃ t : Trade α, t.Closes o f ∧
        (l.closePart s f).2 = t :: l.closedTrades) := by
  unfold closePart
  cases l.openTrade with
  | none =>
    left
    split
    · split <;> simp
    · simp
  | some o =>
    have hbooked := continues_bookExit (s := s) (f := f) o
    split
    · split
      · exact .inr ⟨rfl, o, rfl, _, closes_close hbooked, rfl⟩
      · exact .inl ⟨rfl, by simpa using hbooked, nofun⟩
    · exact .inl ⟨rfl, by simpa using OpenTrade.Continues.refl o, id⟩

/-- The opening part of a fill lets the open trade go on, or begins one. -/
theorem mem_openPart {remaining : Option (OpenTrade α)} {o' : OpenTrade α}
    (h : o' ∈ openPart s f remaining) :
    (∃ o ∈ remaining, o.Continues o') ∨ (remaining = none ∧ o'.OpenedBy f) := by
  obtain ⟨o, ho, rfl⟩ := Option.map_eq_some_iff.1 h
  split at ho
  · cases ho
    cases remaining with
    | none => exact .inr ⟨rfl, openedBy_bookEntry.continues (continues_raisePeak _)⟩
    | some o => exact .inl ⟨o, rfl, (continues_bookEntry o).trans (continues_raisePeak _)⟩
  · exact .inl ⟨o, ho, continues_raisePeak o⟩

/-- One fill either closes nothing, or closes the open trade and then leaves at most a new one. -/
theorem apply_log (l : Ledger α) (f : Fill α) :
    ((l.apply f).closedTrades = l.closedTrades ∧
      ∀ o' ∈ (l.apply f).openTrade,
        (∃ o ∈ l.openTrade, o.Continues o') ∨ (l.openTrade = none ∧ o'.OpenedBy f)) ∨
    (∃ o ∈ l.openTrade, ∃ t : Trade α, t.Closes o f ∧
      (l.apply f).closedTrades = t :: l.closedTrades ∧
      ∀ o' ∈ (l.apply f).openTrade, o'.OpenedBy f) := by
  by_cases hdust : Scalar.abs f.quantity < dust
  · rw [apply_of_dust hdust]
    exact .inl ⟨rfl, fun o' ho' => .inl ⟨o', ho', .refl o'⟩⟩
  · rw [apply_of_not_dust hdust]
    rcases closePart_cases l (l.splitOf f) f with
      ⟨hsame, hkept, hgone⟩ | ⟨hnone, o, ho, t, ht, hcons⟩
    · refine .inl ⟨hsame, fun o' ho' => ?_⟩
      rcases mem_openPart ho' with ⟨o₁, ho₁, hcont₁⟩ | ⟨hnone, hnew⟩
      · obtain ⟨o, ho, hcont⟩ := hkept o₁ ho₁
        exact .inl ⟨o, ho, hcont.trans hcont₁⟩
      · exact .inr ⟨hgone hnone, hnew⟩
    · refine .inr ⟨o, ho, t, ht, hcons, fun o' ho' => ?_⟩
      rcases mem_openPart ho' with ⟨o₁, ho₁, _⟩ | ⟨_, hnew⟩
      · simp [hnone] at ho₁
      · exact hnew

/-! ## Sides -/

def openedSide (f : Fill α) : Side := if Scalar.nat 0 < f.quantity then .long else .short

theorem map_side_openPart (remaining : Option (OpenTrade α)) :
    (openPart s f remaining).map (·.side) =
      if dust < s.opening then some ((remaining.map (·.side)).getD (openedSide f))
      else remaining.map (·.side) := by
  unfold openPart
  split
  · cases remaining <;> rfl
  · cases remaining <;> rfl

theorem map_side_closePart :
    (l.closePart s f).1.map (·.side) =
      if Scalar.nat 0 < s.closing ∧
        (s.after == Scalar.nat 0 || !Scalar.sameSide s.after l.portfolio.quantity) = true then none
      else l.openTrade.map (·.side) := by
  unfold closePart
  cases l.openTrade with
  | none => split <;> split <;> simp
  | some o =>
    by_cases hclose : Scalar.nat 0 < s.closing
    · by_cases hend :
          (s.after == Scalar.nat 0 || !Scalar.sameSide s.after l.portfolio.quantity) = true
      · simp [hclose, hend]
      · simp [hclose, hend, bookExit]
    · simp [hclose]

end Ledger

end Backtest
