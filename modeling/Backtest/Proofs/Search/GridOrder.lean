import Backtest.Proofs.Search.Drawn

/-!
# The order of the grid

Where every varied parameter has a grid point and their product is not cut off, the grid is the
product of the grids of the parameters. Its indices run through every choice of one grid point for
each parameter once, in lexicographic order, the first parameter being the slowest.
-/

namespace Backtest

open Parameter

namespace Space

/-! ## Digits in order -/

/-- Of two numbers with the same left above their digits, the larger has the larger digits. -/
theorem digits_lt_digits {ns : List Nat} {i j : Nat} (hij : i < j)
    (hrest : (digits ns i).2 = (digits ns j).2) : (digits ns i).1 < (digits ns j).1 := by
  induction ns with
  | nil => exact absurd hrest hij.ne
  | cons n ns ih =>
    simp only [digits] at hrest ⊢
    rw [List.cons_lt_cons_iff]
    have hle : (digits ns i).2 ≤ (digits ns j).2 := by
      rw [digits_snd, digits_snd]
      exact Nat.div_le_div_right hij.le
    rcases hle.lt_or_eq with hlt | heq
    · -- the slower digits are all the same, so this digit is the first that differs
      left
      have hi := Nat.div_add_mod (digits ns i).2 (max n 1)
      have hj := Nat.div_add_mod (digits ns j).2 (max n 1)
      rw [hrest] at hi
      omega
    · exact .inr ⟨by rw [heq], ih heq⟩

theorem map_max_one {ns : List Nat} (h : ∀ n ∈ ns, 0 < n) : ns.map (max · 1) = ns :=
  List.map_congr_left (fun n hn => Nat.max_eq_left (h n hn)) |>.trans (List.map_id ns)

theorem radix_eq_prod {ns : List Nat} (h : ∀ n ∈ ns, 0 < n) : radix ns = ns.prod := by
  rw [radix, map_max_one h]

theorem forall₂_lt_max_one_iff {ks ns : List Nat} (h : ∀ n ∈ ns, 0 < n) :
    List.Forall₂ (fun k n => k < max n 1) ks ns ↔ List.Forall₂ (· < ·) ks ns := by
  rw [← List.forall₂_map_right_iff (f := (max · 1)) (R := (· < ·)), map_max_one h]

/-! ## The grid of a space -/

variable {α : Type} [Scalar α]

def gridLengths (s : Space α) : List Nat := s.dimensions.map fun d => d.domain.gridLength

/-- What a grid index stands for: a place on the grid of each varied parameter. -/
def gridDigits (s : Space α) (i : Nat) : List Nat := (digits s.gridLengths i).1

/-- The grid is the product of the grids of the parameters, in lexicographic order. A grid index
gives each parameter the value at its place, which the candidate leaves out where it is the declared
default. -/
structure GridInOrder (s : Space α) : Prop where
  size : s.size = s.gridLengths.prod
  inside : ∀ i, List.Forall₂ (· < ·) (s.gridDigits i) s.gridLengths
  once : ∀ places, List.Forall₂ (· < ·) places s.gridLengths →
    ∃! i, i < s.size ∧ s.gridDigits i = places
  ordered : ∀ i j, i < j → j < s.size → s.gridDigits i < s.gridDigits j
  value : ∀ (i k place : Nat) (d : Declaration α), s.dimensions[k]? = some d →
    (s.gridDigits i)[k]? = some place →
      (s.gridValues i)[k]? = some (d.name, d.domain.gridValue place)
  held : (s.pins.entries.map (·.1) ++ s.dimensions.map (·.name)).Nodup →
    ∀ (i k place : Nat) (d : Declaration α), s.dimensions[k]? = some d →
      (s.gridDigits i)[k]? = some place →
        (s.gridPoint i).get? d.name =
          if s.isDefault (d.name, d.domain.gridValue place) then none
          else some (d.domain.gridValue place)

variable {s : Space α}

theorem size_eq_prod (hlengths : ∀ n ∈ s.gridLengths, 0 < n)
    (hfits : s.gridLengths.prod ≤ maxCount) : s.size = s.gridLengths.prod := by
  have hsize : s.size ≠ 0 := fun hzero => by
    obtain ⟨d, hd, hlength⟩ := exists_gridLength_eq_zero hzero
    exact (hlengths _ (List.mem_map_of_mem hd)).ne' hlength
  rw [size_eq_min hsize, points, ← gridLengths, radix_eq_prod hlengths, Nat.min_eq_left hfits]

theorem getElem?_gridValues {i k place : Nat} {d : Declaration α} (hd : s.dimensions[k]? = some d)
    (hplace : (s.gridDigits i)[k]? = some place) :
    (s.gridValues i)[k]? = some (d.name, d.domain.gridValue place) := by
  rw [gridValues, List.getElem?_zipWith, hd]
  simp only [gridDigits, gridLengths] at hplace
  rw [hplace]

/-- The grid candidate holds the values of its index that are not at their default. -/
theorem get?_gridPoint (hnames : (s.pins.entries.map (·.1) ++ s.dimensions.map (·.name)).Nodup)
    {i k place : Nat} {d : Declaration α} (hd : s.dimensions[k]? = some d)
    (hplace : (s.gridDigits i)[k]? = some place) :
    (s.gridPoint i).get? d.name =
      if s.isDefault (d.name, d.domain.gridValue place) then none
      else some (d.domain.gridValue place) := by
  have hdistinct : ((s.pins.entries ++ (s.gridValues i).reverse).map (·.1)).Nodup := by
    rw [← (covers_gridValues s i).map_fst, ← List.map_append] at hnames
    exact (((List.reverse_perm _).append_left _).map _).nodup_iff.2 hnames
  have hmem : (d.name, d.domain.gridValue place) ∈ (s.gridValues i).reverse :=
    List.mem_reverse.2 (List.mem_of_getElem? (getElem?_gridValues hd hplace))
  exact get?_candidate hdistinct (List.mem_append_right _ hmem)

/-- If every varied parameter has a grid point and their product is not cut off, the indices of the
grid run through every choice of a grid point for each parameter once, in lexicographic order. -/
theorem grid_in_order (s : Space α) (hlengths : ∀ d ∈ s.dimensions, 0 < d.domain.gridLength)
    (hfits : s.gridLengths.prod ≤ maxCount) : s.GridInOrder := by
  have hpos : ∀ n ∈ s.gridLengths, 0 < n := List.forall_mem_map.2 hlengths
  have hradix : s.size = radix s.gridLengths := by
    rw [radix_eq_prod hpos, size_eq_prod hpos hfits]
  have hbelow {i : Nat} (hi : i < s.size) : (digits s.gridLengths i).2 = 0 := by
    rw [digits_snd, Nat.div_eq_of_lt (hradix ▸ hi)]
  exact
    { size := size_eq_prod hpos hfits
      inside := fun i => (forall₂_lt_max_one_iff hpos).1 (digits_lt s.gridLengths i)
      once := fun places hplaces => by
        obtain ⟨i, hi, hdigits⟩ := exists_digits_eq ((forall₂_lt_max_one_iff hpos).2 hplaces)
        refine ⟨i, ⟨hradix ▸ hi, hdigits⟩, fun j ⟨hj, hplaces⟩ => ?_⟩
        exact eq_of_digits_eq (hradix ▸ hj) hi (hplaces.trans hdigits.symm)
      ordered := fun i j hij hj =>
        digits_lt_digits hij ((hbelow (hij.trans hj)).trans (hbelow hj).symm)
      value := fun _ _ _ _ => getElem?_gridValues
      held := fun hnames _ _ _ _ => get?_gridPoint hnames }

def dial : Space Float :=
  .ofSchema ⟨[.int "speed" 1 5 2 3, .float "level" 0 1 0.5 0.5, .choice "side" ["up", "down"] "up"]⟩

/-- Eighteen points, the twelfth of which is at the second speed, the last level and the last side.
The second speed is the default. -/
theorem grid_in_order_dial :
    (∀ d ∈ dial.dimensions, 0 < d.domain.gridLength) ∧ dial.gridLengths.prod ≤ maxCount ∧
      dial.size = 18 ∧ (∃! i, i < dial.size ∧ dial.gridDigits i = [1, 2, 1]) ∧
      dial.gridDigits 11 = [1, 2, 1] ∧ dial.gridDigits 11 < dial.gridDigits 12 ∧
      (dial.gridPoint 11).get? "speed" = none ∧
      (dial.gridPoint 11).get? "side" = some (.choice "down") := by
  have hlengths : dial.gridLengths = [3, 3, 2] := by decide +kernel
  have hdigits : dial.gridDigits 11 = [1, 2, 1] := by decide +kernel
  have hpos : ∀ d ∈ dial.dimensions, 0 < d.domain.gridLength := by decide +kernel
  have hfits : dial.gridLengths.prod ≤ maxCount := by
    rw [hlengths]
    decide
  have hgrid := grid_in_order dial hpos hfits
  have hsize : dial.size = 18 := by
    rw [hgrid.size, hlengths]
    rfl
  have hnames : (dial.pins.entries.map (·.1) ++ dial.dimensions.map (·.name)).Nodup := by decide
  refine ⟨hpos, hfits, hsize, hgrid.once _ ?_, hdigits,
    hgrid.ordered 11 12 (by decide) (by rw [hsize]; decide), ?_, ?_⟩
  · rw [hlengths]
    exact .cons (by decide) (.cons (by decide) (.cons (by decide) .nil))
  · exact (hgrid.held hnames 11 0 1 _ rfl (by rw [hdigits]; rfl)).trans (if_pos (by decide +kernel))
  · exact (hgrid.held hnames 11 2 1 _ rfl (by rw [hdigits]; rfl)).trans (if_neg (by decide +kernel))

end Space

end Backtest
