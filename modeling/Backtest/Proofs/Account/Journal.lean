import Backtest.Proofs.Account.Exact

/-!
# Bookings

A journal keeps, of each round trip, which quantity of which fill entered it and which left it, and
of the position held, which fills have built it up. It is read off the fills alone. The trade log is
the journal summed up: what a trade tells of quantities, notionals and costs are the sums over its
bookings.
-/

namespace Backtest

open Scalar

/-- A quantity of a fill that was booked to a round trip. -/
structure Booking (α : Type) where
  fill : Fill α
  quantity : α

/-- What was booked to one round trip, newest first. -/
structure RoundTrip (α : Type) where
  side : Side
  entries : List (Booking α)
  exits : List (Booking α)

/-- What some fills have been booked as. -/
structure Journal (α : Type) where
  held : α
  /-- The fills that opened the position or added to it since it was last flat or on the other side,
  newest first. -/
  builtBy : List (Fill α)
  current : Option (RoundTrip α)
  /-- Newest first. -/
  ended : List (RoundTrip α)

section Definitions

variable {α : Type} [Scalar α]

namespace Booking

def share (b : Booking α) : α := b.quantity / abs b.fill.quantity

def notional (b : Booking α) : α := b.quantity * b.fill.price

def commission (b : Booking α) : α := b.fill.commission * b.share

def slippage (b : Booking α) : α := b.fill.slippage * b.share

end Booking

namespace RoundTrip

def leave (f : Fill α) (quantity : α) (r : RoundTrip α) : RoundTrip α :=
  { r with exits := ⟨f, quantity⟩ :: r.exits }

def enter (f : Fill α) (quantity : α) : Option (RoundTrip α) → RoundTrip α
  | some r => { r with entries := ⟨f, quantity⟩ :: r.entries }
  | none => ⟨Ledger.openedSide f, [⟨f, quantity⟩], []⟩

end RoundTrip

namespace Journal

open Ledger (Split dust)

def empty : Journal α := ⟨nat 0, [], none, []⟩

def builtAfter (j : Journal α) (f : Fill α) (after : α) : List (Fill α) :=
  if after == nat 0 then []
  else if j.held == nat 0 || !sameSide after j.held then [f]
  else if abs j.held < abs after then f :: j.builtBy
  else j.builtBy

/-- The closing part is an exit. The round trip ends if the position is gone or has changed
sides. -/
def leavePart (j : Journal α) (s : Split α) (f : Fill α) :
    Option (RoundTrip α) × List (RoundTrip α) :=
  if nat 0 < s.closing then
    let left := j.current.map (·.leave f s.closing)
    if s.after == nat 0 || !sameSide s.after j.held then (none, left.toList ++ j.ended)
    else (left, j.ended)
  else (j.current, j.ended)

/-- The opening part is an entry, unless it is dust. -/
def enterPart (s : Split α) (f : Fill α) (current : Option (RoundTrip α)) :
    Option (RoundTrip α) :=
  if dust < s.opening then some (.enter f s.opening current) else current

/-- The journal after a fill that divides in this way. -/
def bookParts (j : Journal α) (s : Split α) (f : Fill α) : Journal α :=
  ⟨s.after, j.builtAfter f s.after, enterPart s f (j.leavePart s f).1, (j.leavePart s f).2⟩

/-- The journal after a fill. One that turns the position is divided as the ledger divides it: it
closes what was held, in the round trip that ends, and opens the next one with the rest. -/
def book (j : Journal α) (f : Fill α) : Journal α :=
  if abs f.quantity < dust then j else j.bookParts (Ledger.split j.held f.quantity) f

def ofFills (fills : List (Fill α)) : Journal α := fills.foldl book empty

def trips (j : Journal α) : List (RoundTrip α) := j.ended.reverse

theorem book_of_dust {j : Journal α} {f : Fill α} (h : abs f.quantity < dust) : j.book f = j :=
  if_pos h

theorem book_of_not_dust {j : Journal α} {f : Fill α} (h : ¬abs f.quantity < dust) :
    j.book f = j.bookParts (Ledger.split j.held f.quantity) f :=
  if_neg h

end Journal

/-! ## Booked fills -/

def RoundTrip.MadeOf (fills : List (Fill α)) (r : RoundTrip α) : Prop :=
  ∀ b ∈ r.entries ++ r.exits, b.fill ∈ fills

structure Journal.MadeOf (fills : List (Fill α)) (j : Journal α) : Prop where
  current : ∀ r ∈ j.current, r.MadeOf fills
  ended : ∀ r ∈ j.ended, r.MadeOf fills

variable {fills : List (Fill α)} {f : Fill α} {j : Journal α} {s : Ledger.Split α}

theorem RoundTrip.madeOf_enter {current : Option (RoundTrip α)}
    (h : ∀ r ∈ current, r.MadeOf fills) (hf : f ∈ fills) (quantity : α) :
    (enter f quantity current).MadeOf fills := by
  cases current with
  | none => simpa [MadeOf, enter] using hf
  | some r => exact List.forall_mem_cons.2 ⟨hf, h r rfl⟩

namespace Journal

theorem MadeOf.leavePart (h : j.MadeOf fills) (hf : f ∈ fills) :
    (∀ r ∈ (j.leavePart s f).1, r.MadeOf fills) ∧
      ∀ r ∈ (j.leavePart s f).2, r.MadeOf fills := by
  have hleft : ∀ r ∈ j.current.map (·.leave f s.closing), r.MadeOf fills := by
    intro left hleft
    obtain ⟨r, hr, rfl⟩ := Option.map_eq_some_iff.1 hleft
    obtain ⟨hentries, hexits⟩ := List.forall_mem_append.1 (h.current r hr)
    exact List.forall_mem_append.2 ⟨hentries, List.forall_mem_cons.2 ⟨hf, hexits⟩⟩
  unfold Journal.leavePart
  split
  · split
    · refine ⟨nofun, List.forall_mem_append.2 ⟨fun r hr => ?_, h.ended⟩⟩
      exact hleft r (Option.mem_toList.1 hr)
    · exact ⟨hleft, h.ended⟩
  · exact ⟨h.current, h.ended⟩

theorem MadeOf.book (h : j.MadeOf fills) (hf : f ∈ fills) : (j.book f).MadeOf fills := by
  by_cases hdust : abs f.quantity < Ledger.dust
  · rwa [book_of_dust hdust]
  · obtain ⟨hcurrent, hended⟩ := h.leavePart (s := Ledger.split j.held f.quantity) hf
    rw [book_of_not_dust hdust]
    refine ⟨fun r hr => ?_, hended⟩
    simp only [bookParts, enterPart] at hr
    split at hr
    · cases hr
      exact RoundTrip.madeOf_enter hcurrent hf _
    · exact hcurrent r hr

theorem madeOf_ofFills (fills : List (Fill α)) : (ofFills fills).MadeOf fills :=
  List.foldlRecOn fills book ⟨nofun, nofun⟩ fun _ h _ hf => h.book hf

end Journal

end Definitions

/-! ## The trade log is the journal summed up -/

/-- An open trade holds the sums of what was booked to a round trip. -/
structure OpenTrade.Sums (o : OpenTrade ℚ) (r : RoundTrip ℚ) : Prop where
  side : o.side = r.side
  begun : r.entries.getLast?.map (·.fill.bar) = some o.entryBar
  entryQuantity : o.entryQuantity = (r.entries.map (·.quantity)).sum
  entryNotional : o.entryNotional = (r.entries.map (·.notional)).sum
  exitQuantity : o.exitQuantity = (r.exits.map (·.quantity)).sum
  exitNotional : o.exitNotional = (r.exits.map (·.notional)).sum
  commission :
    o.commission = (r.entries.map (·.commission)).sum + (r.exits.map (·.commission)).sum
  slippage : o.slippage = (r.entries.map (·.slippage)).sum + (r.exits.map (·.slippage)).sum

/-- A trade was closed from the sums of what was booked to a round trip, with its last exit. -/
def Trade.Sums (t : Trade ℚ) (r : RoundTrip ℚ) : Prop :=
  ∃ o : OpenTrade ℚ, o.Sums r ∧ ∃ b ∈ r.exits.head?, t = o.close b.fill.bar b.fill.time

namespace Ledger

variable {l : Ledger ℚ} {f : Fill ℚ} {s : Split ℚ} {o : OpenTrade ℚ} {r : RoundTrip ℚ}
  {j : Journal ℚ}

theorem sums_bookExit (h : o.Sums r) (hshare : s.closeShare = s.closing / |f.quantity|) :
    (bookExit s f o).Sums (r.leave f s.closing) where
  side := h.side
  begun := h.begun
  entryQuantity := h.entryQuantity
  entryNotional := h.entryNotional
  exitQuantity := by simp [bookExit, RoundTrip.leave, h.exitQuantity, add_comm]
  exitNotional := by simp [bookExit, RoundTrip.leave, Booking.notional, h.exitNotional, add_comm]
  commission := by
    simp [bookExit, RoundTrip.leave, Booking.commission, Booking.share, h.commission, hshare]
    ring
  slippage := by
    simp [bookExit, RoundTrip.leave, Booking.slippage, Booking.share, h.slippage, hshare]
    ring

theorem sums_bookEntry {opened : Option (OpenTrade ℚ)} {current : Option (RoundTrip ℚ)}
    (h : Option.Rel OpenTrade.Sums opened current)
    (hshare : 1 - s.closeShare = s.opening / |f.quantity|) :
    (bookEntry s f opened).Sums (.enter f s.opening current) := by
  cases h with
  | none =>
    constructor <;>
      simp [bookEntry, RoundTrip.enter, Booking.notional, Booking.commission, Booking.slippage,
        Booking.share, hshare, openedSide]
  | @some o r h =>
    obtain ⟨first, hfirst, hbar⟩ := Option.map_eq_some_iff.1 h.begun
    refine ⟨h.side, ?_, ?_, ?_, h.exitQuantity, h.exitNotional, ?_, ?_⟩
    · simp [bookEntry, RoundTrip.enter, List.getLast?_cons, hfirst, hbar]
    · simp [bookEntry, RoundTrip.enter, h.entryQuantity, add_comm]
    · simp [bookEntry, RoundTrip.enter, Booking.notional, h.entryNotional, add_comm]
    · simp [bookEntry, RoundTrip.enter, Booking.commission, Booking.share, h.commission, hshare]
      ring
    · simp [bookEntry, RoundTrip.enter, Booking.slippage, Booking.share, h.slippage, hshare]
      ring

theorem sums_raisePeak (h : o.Sums r) : (raisePeak s o).Sums r :=
  ⟨h.side, h.begun, h.entryQuantity, h.entryNotional, h.exitQuantity, h.exitNotional,
    h.commission, h.slippage⟩

/-- The ledger follows the journal. -/
structure Follows (l : Ledger ℚ) (j : Journal ℚ) : Prop where
  held : j.held = l.portfolio.quantity
  current : Option.Rel OpenTrade.Sums l.openTrade j.current
  ended : List.Forall₂ Trade.Sums l.closedTrades j.ended

theorem Follows.closePart (h : l.Follows j) (hshare : s.closeShare = s.closing / |f.quantity|) :
    Option.Rel OpenTrade.Sums (l.closePart s f).1 (j.leavePart s f).1 ∧
      List.Forall₂ Trade.Sums (l.closePart s f).2 (j.leavePart s f).2 := by
  obtain ⟨hheld, hcurrent, hended⟩ := h
  unfold Ledger.closePart Journal.leavePart
  rw [hheld]
  split
  · generalize l.openTrade = opened, j.current = current at hcurrent
    cases hcurrent with
    | none => split <;> exact ⟨.none, hended⟩
    | some hsums =>
      have hleft := sums_bookExit hsums hshare
      split
      · exact ⟨.none, .cons ⟨_, hleft, _, rfl, rfl⟩ hended⟩
      · exact ⟨.some hleft, hended⟩
  · exact ⟨hcurrent, hended⟩

theorem rel_openPart {opened : Option (OpenTrade ℚ)} {current : Option (RoundTrip ℚ)}
    (h : Option.Rel OpenTrade.Sums opened current)
    (hshare : 1 - s.closeShare = s.opening / |f.quantity|) :
    Option.Rel OpenTrade.Sums (openPart s f opened) (Journal.enterPart s f current) := by
  unfold openPart Journal.enterPart
  split
  · exact .some (sums_raisePeak (sums_bookEntry h hshare))
  · cases h with
    | none => exact .none
    | some hsums => exact .some (sums_raisePeak hsums)

/-- Booking a fill in both keeps the ledger with the journal. -/
theorem Follows.apply (h : l.Follows j) (f : Fill ℚ) : (l.apply f).Follows (j.book f) := by
  by_cases hdust : Scalar.abs f.quantity < dust
  · rwa [apply_of_dust hdust, Journal.book_of_dust hdust]
  · have hne : |f.quantity| ≠ 0 := abs_ne_zero.2 (quantity_ne_zero hdust)
    have hclosing : (l.splitOf f).closeShare = (l.splitOf f).closing / |f.quantity| := rfl
    have hopening : 1 - (l.splitOf f).closeShare = (l.splitOf f).opening / |f.quantity| := by
      have hrest : (l.splitOf f).opening = |f.quantity| - (l.splitOf f).closing := rfl
      rw [hclosing, hrest, sub_div, div_self hne]
    obtain ⟨hcurrent, hended⟩ := h.closePart hclosing
    rw [apply_of_not_dust hdust, Journal.book_of_not_dust hdust, h.held]
    exact ⟨rfl, rel_openPart hcurrent hopening, hended⟩

theorem follows_ofCash (cash : ℚ) : (ofCash cash).Follows .empty := ⟨rfl, .none, .nil⟩

theorem Follows.applyAll (h : l.Follows j) (fills : List (Fill ℚ)) :
    (l.applyAll fills).Follows (fills.foldl Journal.book j) := by
  induction fills generalizing l j with
  | nil => exact h
  | cons f fills ih => exact ih (h.apply f)

/-- After any fills the trades of a ledger are the round trips of the journal, in order. -/
theorem sums_trades (cash : ℚ) (fills : List (Fill ℚ)) :
    List.Forall₂ Trade.Sums ((ofCash cash).applyAll fills).trades (Journal.ofFills fills).trips :=
  List.forall₂_reverse_iff.2 ((follows_ofCash cash).applyAll fills).ended

end Ledger

/-! ## Exact numbers -/

def Booking.exact (b : Booking ℚ) : Booking Extended := ⟨b.fill.exact, .finite b.quantity⟩

def RoundTrip.exact (r : RoundTrip ℚ) : RoundTrip Extended :=
  ⟨r.side, r.entries.map Booking.exact, r.exits.map Booking.exact⟩

namespace Journal

open Ledger (Split dust)

variable {j : Journal ℚ} {s : Split ℚ} {f : Fill ℚ}

def exact (j : Journal ℚ) : Journal Extended :=
  ⟨.finite j.held, j.builtBy.map Fill.exact, j.current.map RoundTrip.exact,
    j.ended.map RoundTrip.exact⟩

theorem enter_exact (quantity : ℚ) (current : Option (RoundTrip ℚ)) :
    RoundTrip.enter f.exact (.finite quantity) (current.map RoundTrip.exact) =
      (RoundTrip.enter f quantity current).exact := by
  cases current with
  | none =>
    have hside : Ledger.openedSide f.exact = Ledger.openedSide f := by
      simp [Ledger.openedSide, Fill.exact]
    simp [RoundTrip.enter, RoundTrip.exact, Booking.exact, hside]
  | some r => rfl

theorem enterPart_exact (current : Option (RoundTrip ℚ)) :
    enterPart s.exact f.exact (current.map RoundTrip.exact) =
      (enterPart s f current).map RoundTrip.exact := by
  have hopens : dust < s.exact.opening ↔ dust < s.opening := Extended.finite_lt
  have henter : RoundTrip.enter f.exact s.exact.opening (current.map RoundTrip.exact) =
      (RoundTrip.enter f s.opening current).exact := enter_exact _ _
  simp only [enterPart, hopens, henter]
  split <;> rfl

theorem leavePart_exact :
    j.exact.leavePart s.exact f.exact =
      ((j.leavePart s f).1.map RoundTrip.exact, (j.leavePart s f).2.map RoundTrip.exact) := by
  have hends : (s.exact.after == nat 0 || !sameSide s.exact.after j.exact.held) =
      (s.after == nat 0 || !sameSide s.after j.held) := by
    simp [Ledger.Split.exact, exact]
  have hcloses : nat 0 < s.exact.closing ↔ nat 0 < s.closing := Extended.finite_lt
  have hleave : j.exact.current.map (·.leave f.exact s.exact.closing) =
      (j.current.map (·.leave f s.closing)).map RoundTrip.exact := by
    cases j with
    | mk held builtBy current ended => cases current <;> rfl
  unfold leavePart
  rw [hends, hleave]
  simp only [hcloses]
  split
  · split
    · cases j.current <;> rfl
    · rfl
  · rfl

theorem builtAfter_exact (after : ℚ) :
    j.exact.builtAfter f.exact (.finite after) = (j.builtAfter f after).map Fill.exact := by
  simp only [builtAfter, exact, Extended.nat_eq_finite, Extended.finite_beq,
    Extended.sameSide_finite, Extended.abs_finite, Extended.finite_lt,
    apply_ite (List.map Fill.exact)]
  rfl

theorem book_exact : j.exact.book f.exact = (j.book f).exact := by
  by_cases hdust : Scalar.abs f.quantity < dust
  · rw [book_of_dust hdust, book_of_dust (Ledger.abs_lt_dust_exact.2 hdust)]
  · have hsplit : Ledger.split j.exact.held f.exact.quantity =
        (Ledger.split j.held f.quantity).exact :=
      Ledger.split_exact (Ledger.quantity_ne_zero hdust)
    rw [book_of_not_dust hdust, book_of_not_dust fun h => hdust (Ledger.abs_lt_dust_exact.1 h),
      hsplit, bookParts, leavePart_exact, enterPart_exact]
    exact congrArg (Journal.mk _ · _ _) (builtAfter_exact _)

theorem ofFills_exact (fills : List (Fill ℚ)) :
    ofFills (fills.map Fill.exact) = (ofFills fills).exact := by
  have hfold (j : Journal ℚ) :
      (fills.map Fill.exact).foldl book j.exact = (fills.foldl book j).exact := by
    induction fills generalizing j with
    | nil => rfl
    | cons f fills ih => rw [List.map_cons, List.foldl_cons, book_exact, ih, List.foldl_cons]
  exact hfold empty

theorem trips_exact (j : Journal ℚ) : j.exact.trips = j.trips.map RoundTrip.exact :=
  List.map_reverse.symm

end Journal

end Backtest
