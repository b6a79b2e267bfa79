import Backtest.Proofs.WalkForward.Inversion
import Backtest.Scalar.Extended

/-!
# Windows tile the bars

The windows of a plan stand at the multiples of its stride, as many as there is room for. Rolling
windows lay their out-of-sample segments end to end, block windows lie end to end as a whole, and
fewer bars than one stride are left over.
-/

namespace Backtest

namespace Window

variable {bars trainLength testLength stride index start i : Nat} {v w : Window}

def room (bars length stride start : Nat) : Nat :=
  (bars + stride - (start + length)) / stride

theorem room_of_fits {length : Nat} (hstride : 0 < stride) (h : start + length ≤ bars) :
    room bars length stride start = (bars - start - length) / stride + 1 := by
  rw [room, show bars + stride - (start + length) = bars - start - length + stride by omega,
    Nat.add_div_right _ hstride]

theorem room_of_not_fits {length : Nat} (h : ¬start + length ≤ bars) :
    room bars length stride start = 0 := by
  rw [room, Nat.div_eq_zero_iff]
  omega

/-- The first window takes one stride and leaves room for the others behind it. -/
theorem room_succ {length : Nat} (hstride : 0 < stride) (h : start + length ≤ bars) :
    room bars length stride start = room bars length stride (start + stride) + 1 := by
  rw [room_of_fits hstride h, room]
  congr 2
  omega

theorem placeAll_eq_map (hstride : 0 < stride) :
    placeAll bars trainLength testLength stride index start =
      (List.range (room bars (trainLength + testLength) stride start)).map fun i =>
        place (index + i) (start + i * stride) trainLength testLength := by
  induction index, start using placeAll.induct bars trainLength testLength stride with
  | case1 index start hroom ih =>
    rw [placeAll_of_room hroom, ih, room_succ hstride hroom.2, List.range_succ_eq_map,
      List.map_cons, List.map_map, Nat.zero_mul, Nat.add_zero, Nat.add_zero]
    congr 1
    refine List.map_congr_left fun i _ => ?_
    rw [Function.comp_apply, Nat.succ_mul]
    congr 1 <;> omega
  | case2 index start hroom =>
    rw [placeAll_of_no_room hroom, room_of_not_fits fun h => hroom ⟨hstride, h⟩]
    rfl

/-- Window `i` has that number and stands `i` strides behind the first one. -/
theorem getElem?_placeAll_eq_some_iff (hstride : 0 < stride) :
    (placeAll bars trainLength testLength stride index start)[i]? = some w ↔
      i < room bars (trainLength + testLength) stride start ∧
        w = place (index + i) (start + i * stride) trainLength testLength := by
  rw [placeAll_eq_map hstride, List.getElem?_map, Option.map_eq_some_iff]
  constructor
  · rintro ⟨j, hj, rfl⟩
    obtain ⟨hi, rfl⟩ := List.getElem?_eq_some_iff.1 hj
    exact ⟨by simpa using hi, by rw [List.getElem_range]⟩
  · rintro ⟨hi, rfl⟩
    exact ⟨i, List.getElem?_range hi, rfl⟩

/-- Windows stand at least a stride apart. -/
theorem placeAll_pairwise (hstride : 0 < stride) :
    (placeAll bars trainLength testLength stride index start).Pairwise fun v w =>
      v.trainStart + stride ≤ w.trainStart := by
  rw [placeAll_eq_map hstride, List.pairwise_map]
  refine List.pairwise_lt_range.imp fun {i j} hlt => ?_
  have hle := Nat.mul_le_mul_right stride (Nat.succ_le_of_lt hlt)
  rw [Nat.succ_mul] at hle
  simp only [place]
  omega

end Window

namespace WindowPlan

variable {α : Type} [Scalar α] {bars trainLength testLength step i : Nat} {plan : WindowPlan}
  {v w : Window} {c : WalkForwardConfig α}

/-- As many windows of some lengths as fit into a number of bars, a step apart from the first bar
on. -/
structure Tiles (bars trainLength testLength step : Nat) (plan : WindowPlan) : Prop where
  index : ∀ i (w : Window), plan.windows[i]? = some w → w.index = i
  fits : ∀ w ∈ plan.windows, w.Fits trainLength testLength bars
  first : ∀ w ∈ plan.windows.head?, w.trainStart = 0
  next : ∀ i (v w : Window), plan.windows[i]? = some v → plan.windows[i + 1]? = some w →
    w.trainStart = v.trainStart + step
  length : plan.windows.length = (bars - (trainLength + testLength)) / step + 1
  discarded : ∃ last, plan.windows.getLast? = some last ∧ plan.discarded = bars - last.testEnd
  discarded_lt : plan.discarded < step

/-- Laying windows until none fits tiles the bars. -/
theorem tiles_placeAll (hstep : 0 < step) (hbars : trainLength + testLength ≤ bars)
    (hwindows : plan.windows = Window.placeAll bars trainLength testLength step 0 0)
    (hdiscarded : plan.discarded = bars - (plan.windows.getLast?.map (·.testEnd)).getD 0) :
    plan.Tiles bars trainLength testLength step := by
  have hget {i : Nat} {w : Window} : plan.windows[i]? = some w ↔
      i < (bars - (trainLength + testLength)) / step + 1 ∧
        w = Window.place i (i * step) trainLength testLength := by
    rw [hwindows, Window.getElem?_placeAll_eq_some_iff hstep,
      Window.room_of_fits hstep (by omega), Nat.sub_zero, Nat.zero_add, Nat.zero_add]
  have hlength : plan.windows.length = (bars - (trainLength + testLength)) / step + 1 := by
    rw [hwindows, Window.placeAll_eq_map hstep, List.length_map, List.length_range,
      Window.room_of_fits hstep (by omega), Nat.sub_zero]
  have hlast : plan.windows.getLast? = some (Window.place
      ((bars - (trainLength + testLength)) / step)
      ((bars - (trainLength + testLength)) / step * step) trainLength testLength) := by
    rw [List.getLast?_eq_getElem?, hlength]
    exact hget.2 ⟨Nat.lt_succ_self _, rfl⟩
  refine
    { index := fun i w hw => ?_
      fits := fun w hw => Window.fits_of_mem_placeAll (hwindows ▸ hw)
      first := fun w hw => ?_
      next := fun i v w hv hw => ?_
      length := hlength
      discarded := ⟨_, hlast, by rw [hdiscarded, hlast]; rfl⟩
      discarded_lt := ?_ }
  · rw [(hget.1 hw).2]
    rfl
  · rw [List.head?_eq_getElem?] at hw
    rw [(hget.1 hw).2]
    exact Nat.zero_mul step
  · rw [(hget.1 hv).2, (hget.1 hw).2]
    exact Nat.succ_mul i step
  · -- what the last window leaves is the remainder of the division by the step
    have hend : plan.discarded =
        bars - ((bars - (trainLength + testLength)) / step * step + trainLength + testLength) := by
      rw [hdiscarded, hlast]
      rfl
    have hrest := Nat.div_add_mod (bars - (trainLength + testLength)) step
    have hlt := Nat.mod_lt (bars - (trainLength + testLength)) hstep
    rw [Nat.mul_comm] at hrest
    omega

theorem exists_ofBars_eq_ok (hc : c.validate = .ok ()) (hbars : c.windowLength ≤ bars) :
    ∃ plan, ofBars bars c = .ok plan :=
  let windows := Window.placeAll bars c.trainLength c.testLength c.stride 0 0
  ⟨⟨windows, bars - (windows.getLast?.map (·.testEnd)).getD 0⟩,
    ofBars_eq_ok_iff.2 ⟨hc, hbars, rfl, rfl⟩⟩

/-- A plan of valid settings tiles the bars by its stride. Rolling windows advance by the
out-of-sample length, so that these segments follow each other; block windows advance by their whole
length, so that they follow each other and share no bar. -/
theorem ofBars_tiles (hc : c.validate = .ok ()) (hbars : c.trainLength + c.testLength ≤ bars)
    (hcount : bars + c.trainLength + c.testLength < maxCount) :
    0 < c.stride ∧ ∃ plan, ofBars bars c = .ok plan ∧
      (c.mode = .rolling →
        plan.Tiles bars c.trainLength c.testLength c.testLength ∧
          ∀ i v w, plan.windows[i]? = some v → plan.windows[i + 1]? = some w →
            w.testStart = v.testEnd) ∧
      (c.mode = .block →
        plan.Tiles bars c.trainLength c.testLength (c.trainLength + c.testLength) ∧
          (∀ i v w, plan.windows[i]? = some v → plan.windows[i + 1]? = some w →
            w.trainStart = v.testEnd) ∧
          plan.windows.Pairwise fun v w => v.testEnd ≤ w.trainStart) := by
  obtain ⟨htrain, htest⟩ := c.lengths_pos hc
  have hlength : c.windowLength = c.trainLength + c.testLength :=
    Nat.min_eq_left (by omega)
  have hrolling : c.mode = .rolling → c.stride = c.testLength := fun h => by
    rw [WalkForwardConfig.stride, h]
  have hblock : c.mode = .block → c.stride = c.trainLength + c.testLength := fun h => by
    rw [WalkForwardConfig.stride, h, hlength]
  have hstride : 0 < c.stride := by
    cases hmode : c.mode with
    | rolling => rwa [hrolling hmode]
    | block =>
      rw [hblock hmode]
      omega
  obtain ⟨plan, hplan⟩ := exists_ofBars_eq_ok hc (hlength ▸ hbars)
  obtain ⟨-, -, hwindows, hdiscarded⟩ := ofBars_eq_ok_iff.1 hplan
  have htiles := tiles_placeAll hstride hbars hwindows hdiscarded
  -- the ends of a window's segments are fixed by its start
  have hends {i : Nat} {v : Window} (hv : plan.windows[i]? = some v) :
      v.testStart = v.trainStart + c.trainLength ∧
        v.testEnd = v.trainStart + c.trainLength + c.testLength := by
    have hfits := htiles.fits v (List.mem_of_getElem? hv)
    have htestStart := hfits.testStart.trans hfits.trainEnd
    exact ⟨htestStart, by rw [hfits.testEnd, htestStart]⟩
  refine ⟨hstride, plan, hplan, fun hmode => ?_, fun hmode => ?_⟩
  · rw [hrolling hmode] at htiles
    refine ⟨htiles, fun i v w hv hw => ?_⟩
    rw [(hends hw).1, (hends hv).2, htiles.next i v w hv hw, Nat.add_right_comm]
  · have hpairwise := hwindows ▸ Window.placeAll_pairwise hstride
    rw [hblock hmode] at htiles hpairwise
    refine ⟨htiles, fun i v w hv hw => ?_, hpairwise.imp_of_mem fun {v w} hv _ hle => ?_⟩
    · rw [(hends hv).2, htiles.next i v w hv hw, Nat.add_assoc]
    · obtain ⟨i, hi⟩ := List.mem_iff_getElem?.1 hv
      rwa [(hends hi).2, Nat.add_assoc]

def shortRolling : WalkForwardConfig Extended :=
  { WalkForwardConfig.standard with trainLength := 4, testLength := 2 }

/-- Three windows, of which the last ends one bar before the end. -/
theorem ofBars_tiles_shortRolling :
    ∃ plan, ofBars 11 shortRolling = .ok plan ∧ plan.Tiles 11 4 2 2 ∧ plan.windows.length = 3 := by
  have hvalid : shortRolling.validate = .ok () := rfl
  have hbars : shortRolling.trainLength + shortRolling.testLength ≤ 11 := by decide
  obtain ⟨-, plan, hplan, hrolling, -⟩ := ofBars_tiles hvalid hbars (by decide)
  obtain ⟨htiles, -⟩ := hrolling rfl
  exact ⟨plan, hplan, htiles, htiles.length⟩

end WindowPlan

end Backtest
