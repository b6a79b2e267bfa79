import Backtest.Market.Bar

/-!
# Bars in order of time

Time is a strict order, so a series without two neighbours in the wrong order is ordered
throughout.
-/

namespace Backtest

namespace Date

theorem compare_eq_lt_iff {a b : Date} :
    compare a b = .lt ↔
      a.year < b.year ∨
        (a.year = b.year ∧ (a.month < b.month ∨ (a.month = b.month ∧ a.day < b.day))) := by
  change instOrdDate.ord a b = .lt ↔ _
  simp [instOrdDate.ord, Ordering.then_eq_lt, Int.compare_eq_lt, Nat.compare_eq_lt]

theorem compare_eq_eq_iff {a b : Date} : compare a b = .eq ↔ a = b := by
  change instOrdDate.ord a b = .eq ↔ _
  cases a
  cases b
  simp [instOrdDate.ord, Ordering.then_eq_eq]

end Date

namespace Timestamp

theorem lt_iff {a b : Timestamp} :
    a < b ↔
      compare a.date b.date = .lt ∨
        (a.date = b.date ∧ (a.second < b.second ∨ (a.second = b.second ∧ a.nano < b.nano))) := by
  change (compare a.date b.date).then
    ((compare a.second b.second).then (compare a.nano b.nano)) = .lt ↔ _
  simp [Ordering.then_eq_lt, Nat.compare_eq_lt, Date.compare_eq_eq_iff]

theorem lt_trans {a b c : Timestamp} (hab : a < b) (hbc : b < c) : a < c := by
  simp only [lt_iff, Date.compare_eq_lt_iff] at *
  rcases hab with hab | ⟨hab, hab'⟩
  · rcases hbc with hbc | ⟨hbc, -⟩
    · left
      omega
    · left
      rwa [← hbc]
  · rcases hbc with hbc | ⟨hbc, hbc'⟩
    · left
      rwa [hab]
    · right
      exact ⟨hab.trans hbc, by omega⟩

end Timestamp

variable {α : Type}

/-- Every bar is later than all before it. -/
def Ordered (bars : List (Bar α)) : Prop := bars.Pairwise fun a b => a.time < b.time

theorem disorderFrom_eq_none_iff {index : Nat} {bars : List (Bar α)} :
    disorderFrom index bars = none ↔ Ordered bars := by
  induction bars generalizing index with
  | nil => simp [disorderFrom, Ordered]
  | cons a rest ih =>
    cases rest with
    | nil => simp [disorderFrom, Ordered]
    | cons b rest =>
      rw [disorderFrom]
      split
      · rename_i hab
        rw [ih]
        constructor
        · intro h
          refine List.pairwise_cons.2 ⟨fun c hc => ?_, h⟩
          rcases List.mem_cons.1 hc with rfl | hc
          · exact hab
          · exact Timestamp.lt_trans hab ((List.pairwise_cons.1 h).1 c hc)
        · exact fun h => (List.pairwise_cons.1 h).2
      · rename_i hab
        simp only [reduceCtorEq, false_iff]
        exact fun h => hab ((List.pairwise_cons.1 h).1 b List.mem_cons_self)

theorem disorder?_eq_none_iff {bars : List (Bar α)} : disorder? bars = none ↔ Ordered bars :=
  disorderFrom_eq_none_iff

theorem Ordered.take {bars : List (Bar α)} (h : Ordered bars) (k : Nat) :
    Ordered (bars.take k) :=
  List.Pairwise.sublist (List.take_sublist k bars) h

theorem Ordered.drop {bars : List (Bar α)} (h : Ordered bars) (k : Nat) :
    Ordered (bars.drop k) :=
  List.Pairwise.sublist (List.drop_sublist k bars) h

/-- Midnight of a day of January 2024, or of the nearest one that January has. -/
def Timestamp.january (day : Nat) : Timestamp :=
  midnight ⟨2024, 1, max 1 (min day 31)⟩ (by
    have hlast : Date.daysInMonth 2024 1 = 31 := by decide
    simp only [Date.IsValid, Date.leastYear, Date.greatestYear, hlast]
    omega)

/-- A day of January 2024 on which one price held throughout. -/
def Bar.still (day : Nat) (price : α) : Bar α :=
  ⟨.january day, price, price, price, price, price⟩

end Backtest
